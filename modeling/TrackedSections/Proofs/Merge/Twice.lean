import Mathlib
import TrackedSections.Proofs.Document.Creation
import TrackedSections.Proofs.Merge.Again
import TrackedSections.Proofs.Sidecar

/-!
# Applying a document twice

Read `unchanged_iff` first: a file is left unchanged when the document that is read from it takes nothing
(`TakesNothing`). What the first run wrote is read again by the second one, and so `applied_again` says
exactly when the second run leaves everything as it is.
-/

namespace TrackedSections.Document

open Effect

variable {source : Document} {config : Config} {view : View} {named : Text} {path : Path}

/-- Applying a document once more ends with an outcome and leaves the disk as it is. -/
def Repeats (source : Document) (config : Config) (view : View) (result : Outcome) : Prop :=
  let disk := ((Operation.apply source config).report view).2
  let again := (Operation.apply source config).report ⟨view.host, disk⟩
  again.1.1 = .ok result ∧ again.2 = disk

/-- An outcome of which nothing comes is that of a run that leaves the disk. -/
theorem disk_of_outcome {result : Outcome} (hresult : result = .skipped ∨ result = .unchanged)
    (h : ((Operation.apply source config).report view).1.1 = .ok result) :
    ((Operation.apply source config).report view).2 = view.disk := by
  obtain ⟨plan, notices, progress, -, houtcome, hcarry, hdisk⟩ := plan_of_outcome h
  rw [hdisk]
  cases plan with
  | skip | keep =>
      obtain rfl := (Prod.mk.inj hcarry).2
      rfl
  | create target | update target d =>
      subst houtcome
      rcases hresult with hresult | hresult <;> cases hresult

/-- A run of which nothing comes may be repeated. -/
theorem repeats_of_outcome {result : Outcome} (hresult : result = .skipped ∨ result = .unchanged)
    (h : ((Operation.apply source config).report view).1.1 = .ok result) :
    Repeats source config view result := by
  have hdisk := disk_of_outcome hresult h
  rw [Repeats, hdisk]
  exact ⟨h, hdisk⟩

/-- A second run without a change leaves the disk. -/
theorem repeats_unchanged_iff : Repeats source config view .unchanged ↔
    ((Operation.apply source config).report
      ⟨view.host, ((Operation.apply source config).report view).2⟩).1.1 = .ok .unchanged :=
  ⟨fun h => h.1, fun h => ⟨h, disk_of_outcome (.inr rfl) h⟩⟩

/-- A target is left unchanged when it is planned to be kept. -/
theorem unchanged_iff_keep : ((Operation.apply source config).report view).1.1 = .ok .unchanged ↔
    ∃ notices, (source.plan config).report view = (.ok .keep, notices) := by
  rcases report_apply source config view with ⟨failure, notices, hplan, hreport⟩ |
    ⟨plan, notices, hplan, hreport⟩
  · rw [hreport, hplan]
    exact iff_of_false (by simp) (by simp)
  · rw [hreport, hplan]
    constructor
    · intro h
      dsimp only at h
      cases hcarried : (outcome (plan.carryOut source) view.host ⟨view.disk, notices⟩).1 with
      | error failure =>
          rw [hcarried] at h
          cases h
      | ok _ =>
          rw [hcarried] at h
          have houtcome : plan.outcome = .unchanged := Except.ok.inj h
          cases plan with
          | keep => exact ⟨notices, rfl⟩
          | skip | create target | update target d => cases houtcome
    · rintro ⟨notices', h⟩
      obtain rfl := Except.ok.inj (Prod.mk.inj h).1
      rfl

/-- A target that exists is planned to be kept when the document that is read from it takes nothing. -/
theorem keep_iff : (∃ notices, outcome (source.planUpdate path config) view [] = (.ok .keep, notices)) ↔
    ∃ after notices, (load path.toText source.targetPrefix config).report view =
      (.ok after, notices) ∧ after.TakesNothing source := by
  constructor
  · rintro ⟨notices, h⟩
    obtain ⟨after, notices₁, hload, h⟩ := ok_of_bind h
    refine ⟨after, notices₁, hload, ?_⟩
    obtain ⟨_, _, -, h⟩ := ok_of_bind h
    split at h
    · next hchanged => exact .inl (by simpa using hchanged)
    · split at h
      · next hsame =>
          refine .inr ?_
          simpa [hasSidecar] using hsame
      · cases h
  · rintro ⟨after, notices₁, hload, hnothing⟩
    have hload : outcome (load path.toText source.targetPrefix config) view [] =
        (.ok after, notices₁) := hload
    have htell : outcome (Inspection.tellAll (after.apply source).notices) view notices₁ =
        (.ok (), notices₁ ++ (after.apply source).notices) := rfl
    refine ⟨notices₁ ++ (after.apply source).notices, (bind_of_ok hload).trans ?_⟩
    dsimp only
    rw [bind_of_ok htell]
    rcases hnothing with hchanged | ⟨hsidecar, hsame⟩
    · rw [hchanged]
      rfl
    · split
      · rfl
      · rw [if_pos (by simp [hasSidecar, hsidecar, hsame])]
        rfl

/-- Applying a document to a file that exists leaves it unchanged when the document that is read from it
takes nothing. -/
theorem unchanged_iff (htarget : source.target = some named)
    (hexpand : view.host.expand named = .ok path) (hnull : path.hasNull = false)
    (hfile : view.disk.isFile path = .ok true) :
    ((Operation.apply source config).report view).1.1 = .ok .unchanged ↔
      ∃ after notices, (load path.toText source.targetPrefix config).report view =
        (.ok after, notices) ∧ after.TakesNothing source := by
  have hplan : (source.plan config).report view = outcome (source.planUpdate path config) view [] := by
    have hexpand : outcome (Inspection.expand named) view [] = (.ok path, []) := by
      rw [Inspection.outcome_expand, hexpand]
    have hfound : outcome (Inspection.isFile path) view [] = (.ok true, []) := by
      rw [Inspection.outcome_is_file, hnull, if_neg Bool.false_ne_true, hfile]
      rfl
    show outcome (source.plan config) view [] = _
    rw [plan, htarget]
    dsimp only
    rw [bind_of_ok hexpand, bind_of_ok hfound, if_pos rfl]
  rw [unchanged_iff_keep, hplan, keep_iff]

/-- Only one document is read from a file. -/
theorem exists_load_iff {written : Text} {given : Option Text} {d : Document} {notices : List Notice}
    {p : Document → Prop} (h : (load written given config).report view = (.ok d, notices)) :
    (∃ after notices, (load written given config).report view = (.ok after, notices) ∧ p after) ↔
      p d := by
  rw [h]
  constructor
  · rintro ⟨after, notices', hsame, hp⟩
    obtain rfl := Except.ok.inj (Prod.mk.inj hsame).1
    exact hp
  · exact fun hp => ⟨d, notices, rfl, hp⟩

/-- What is read is a legible document that shows its hashbang, or has a sidecar that is accepted when it
is not modified. -/
theorem source_cases {written : Text} {given : Option Text} {notices notices' : List Notice}
    (h : outcome (load written given config) view notices = (.ok source, notices')) :
    (source.Legible ∧ source.ShowsHashbang) ∨
      ∃ s, source.sidecar = some s ∧ (s.isModified = false → s.accepted = s.current) := by
  rcases load_inversion h with ⟨path, content, s, hfile, rfl⟩ |
    ⟨path, content, t, -, -, rfl⟩
  · obtain ⟨sidecarPath, octets, -, -, -, -, hread⟩ := hfile.sidecar_eq
    refine .inr ⟨s, rfl, fun hmodified => ?_⟩
    rw [(Sidecar.of_read hread).2.2] at hmodified
    simpa using hmodified
  · exact .inl ⟨legible_of_file _ view path t, shows_hashbang_of_file _ view path t⟩

/-! ## After an update -/

/-- A target with comments that was updated is left unchanged by the second run, unless it took everything
from a source without edits and loses a line. -/
theorem repeats_of_update_iff (hsource : source.Legible) (hshows : source.ShowsHashbang)
    (h : ((Operation.apply source config).report view).1.1 = .ok .updated) :
    ∃ named path before notices, source.target = some named ∧
      view.host.expand named = .ok path ∧
      (load path.toText source.targetPrefix config).report view = (.ok before, notices) ∧
      (Repeats source config view .unchanged ↔
        ¬ (before.takesAll source = true ∧ source.isModified = false ∧
          (before.apply source).target.LosesLine)) := by
  obtain ⟨plan, notices, progress, hplanned, houtcome, hcarry, hdisk⟩ := plan_of_outcome h
  cases hplanned with
  | skip | keep | create => cases houtcome
  | @update named path before notices₁ notices₂ htarget hexpand hnull hfile hload hchanged =>
      obtain ⟨path', old, t, hcommentFile, hdecode, rfl, hsidecar, hpath⟩ :=
        comment_file_of_taken hsource.sidecar_eq_none hload hchanged
      have hmark := target_prefix_eq hsource.sidecar_eq_none
      obtain ⟨place, hlocate, hplace⟩ := Disk.locate_of_read hcommentFile.read_eq
      obtain ⟨notices₃, hload⟩ := outcome_load hcommentFile hdecode source.commentPrefix config []
      rw [hmark]
      refine ⟨named, path, _, notices₃, htarget, hexpand, hload, ?_⟩
      -- The file is overwritten with the text of the merged document, which is read again.
      have hover : view.disk.Overwritten progress.disk place
          ((ofFile source.commentPrefix view path' t).apply source).target.write.encode := by
        have hcases := carry_out_update_cases source hsidecar hpath hlocate hplace path view.host
          notices
        rw [hcarry] at hcases
        exact hcases.resolve_left fun h => h.2 rfl
      obtain ⟨-, hafter⟩ := (hcommentFile.overwritten hplace hover).resolve_right fun h => h.1 hlocate
      obtain ⟨notices₄, hagain⟩ := outcome_load hafter (Text.decode_encode _) source.commentPrefix
        config []
      have hfile' := (hover.is_file_eq hplace path).trans hfile
      have hunchanged : ((Operation.apply source config).report ⟨view.host, progress.disk⟩).1.1 =
          .ok .unchanged ↔ _ := unchanged_iff htarget hexpand hnull hfile'
      rw [repeats_unchanged_iff, hdisk, hunchanged, hmark, exists_load_iff hagain]
      have htarget := legible_of_file source.commentPrefix view path' t
      have hsame := comment_prefix_of_file source.commentPrefix view path' t
      obtain ⟨-, hcomment⟩ := apply_legible htarget hsource hsame.symm
      have hiff := takes_nothing_iff ⟨view.host, progress.disk⟩ path' htarget hsource hsame hshows
        hchanged rfl
      rw [hcomment, hsame] at hiff
      exact hiff

/-- A file that was written with its sidecar is read with it. -/
theorem sidecar_file_of_written {s : Sidecar} {content : Bytes} {d d' : Disk} {host : Host} {written : Text}
    (h : s.WrittenBeside path content d d') (hstart : d.HasStart path)
    (hpath : Sidecar.pathFor path = .ok s.path) (hexpand : host.expand written = .ok path)
    (hnull : path.hasNull = false) (hsidecarNull : s.path.hasNull = false)
    (hreadable : Path.resolve ⟨.slash, d.workdir⟩ path ∉ host.unreadable) :
    SidecarFile ⟨host, d'⟩ written path content
      (Sidecar.finalize { s with content, isModified := false }) := by
  obtain ⟨hread, t, hwrite, hsidecar⟩ := h.reads hstart hpath
  refine ⟨hexpand, hnull, ?_, hread, s.path, t.encode, hpath, hsidecarNull,
    Disk.is_file_of_read hsidecar, hsidecar, Sidecar.read_write hwrite s.path content⟩
  dsimp only
  rw [h.workdir_eq]
  exact hreadable

/-- A target that was written with a sidecar is left unchanged by a source that was accepted with the same
digest. -/
theorem unchanged_of_written {s theirs : Sidecar} {content : Bytes} {d d' : Disk} {host : Host}
    {path' : Path} (h : s.WrittenBeside path' content d d') (hstart : d.HasStart path')
    (hpath : Sidecar.pathFor path' = .ok s.path) (hexpand' : host.expand path.toText = .ok path')
    (hnull' : path'.hasNull = false) (hsidecarNull : s.path.hasNull = false)
    (hreadable : Path.resolve ⟨.slash, d.workdir⟩ path' ∉ host.unreadable)
    (htarget : source.target = some named) (hexpand : host.expand named = .ok path)
    (hnull : path.hasNull = false) (hfile : d'.isFile path = .ok true)
    (htheirs : source.sidecar = some theirs) (haccepted : s.accepted = theirs.accepted) :
    ((Operation.apply source config).report ⟨host, d'⟩).1.1 = .ok .unchanged := by
  have hsidecarFile := sidecar_file_of_written h hstart hpath hexpand' hnull' hsidecarNull hreadable
  obtain ⟨notices, hload⟩ := outcome_load_sidecar hsidecarFile source.targetPrefix config []
  have hunchanged : ((Operation.apply source config).report ⟨host, d'⟩).1.1 = .ok .unchanged ↔ _ :=
    unchanged_iff htarget hexpand hnull hfile
  rw [hunchanged, exists_load_iff hload]
  exact takes_nothing_of_accepted rfl htheirs haccepted

/-- A target with a sidecar that was updated is left unchanged by the second run. -/
theorem repeats_of_sidecar_update (hsource : source.sidecar ≠ none)
    (h : ((Operation.apply source config).report view).1.1 = .ok .updated) :
    ∃ named path before notices, source.target = some named ∧
      view.host.expand named = .ok path ∧
      (load path.toText source.targetPrefix config).report view = (.ok before, notices) ∧
      Repeats source config view .unchanged := by
  obtain ⟨plan, notices, progress, hplanned, houtcome, hcarry, hdisk⟩ := plan_of_outcome h
  cases hplanned with
  | skip | keep | create => cases houtcome
  | @update named path before notices₁ notices₂ htarget hexpand hnull hfile hload hchanged =>
      obtain ⟨theirs, htheirs⟩ := Option.ne_none_iff_exists'.1 hsource
      obtain ⟨mine, hmine, -, -, -, htaken⟩ := taken_of_is_changed htheirs hchanged
      rcases load_inversion hload with ⟨path', content, s, hsidecarFile, rfl⟩ |
        ⟨path', content, t, -, -, rfl⟩
      · obtain rfl : s = mine := Option.some.inj hmine
        obtain ⟨notices₃, hload⟩ := outcome_load_sidecar hsidecarFile source.targetPrefix config []
        refine ⟨named, path, _, notices₃, htarget, hexpand, hload, ?_⟩
        obtain ⟨sidecarPath, octets, hpath, -, -, -, hread⟩ := hsidecarFile.sidecar_eq
        obtain ⟨hsidecarPath, -, -⟩ := Sidecar.of_read hread
        subst hsidecarPath
        rw [htaken] at hcarry
        obtain ⟨saved, between, hsave, hbetween⟩ := save_of_update hcarry
        obtain ⟨hsidecarNull, hwritten⟩ := written_of_save rfl rfl hsave
        have hstart := Disk.has_start_of_read hsidecarFile.read_eq
        rw [repeats_unchanged_iff, hdisk, hbetween]
        exact unchanged_of_written hwritten hstart hpath hsidecarFile.expand_eq hsidecarFile.no_null
          hsidecarNull hsidecarFile.is_readable htarget hexpand hnull
          (hwritten.is_file hstart hpath hfile) htheirs rfl
      · cases hmine

/-! ## After a creation -/

/-- A creation that was carried out at a path that is expanded to itself wrote what is created to a file
that starts where something stands. -/
theorem carry_out_create_cases {host : Host} {progress progress' : Progress}
    (hexpand : host.expand path.toText = .ok path)
    (h : outcome (Plan.carryOut source (.create path)) host progress = (.ok (), progress')) :
    path.hasNull = false ∧ ∃ before between : Progress, before.disk.HasStart path ∧
      before.disk.workdir = progress.disk.workdir ∧ progress'.disk = between.disk ∧
      outcome (match source.sidecar with
        | some s => source.createWithSidecar s path
        | none => source.createWithSections path) host before = (.ok (), between) := by
  obtain ⟨isNew, before, between, hcreate, hdone, hdisk⟩ := steps_of_create h
  obtain ⟨hnull, hstart⟩ := Operation.has_start_of_create_file hexpand hcreate
  have hworkdir : before.disk.workdir = progress.disk.workdir :=
    (Operation.maintains_create_file (p := fun d => d.workdir = progress.disk.workdir)
      (fun _ _ _ _ hd hmake => (Disk.grows_of_make_directory hmake).workdir_eq.trans hd)
      (fun _ _ _ _ hd htouch => (Disk.grows_of_touch htouch).workdir_eq.trans hd) _).of_outcome rfl
      hcreate
  exact ⟨hnull, before, between, hstart, hworkdir, hdisk, hdone⟩

/-- A target with comments that was created is left unchanged by the second run if it can be read, unless
it has no sidecar, the source has no edits and a line is lost. -/
theorem repeats_of_creation_iff (hsource : source.Legible) (hshows : source.ShowsHashbang)
    (h : ((Operation.apply source config).report view).1.1 = .ok .created) :
    ∃ named path, source.target = some named ∧ view.host.expand named = .ok path ∧
      (view.host.expand path.toText = .ok path →
        (Repeats source config view .unchanged ↔
          ∃ after notices, (load path.toText source.targetPrefix config).report
              ⟨view.host, ((Operation.apply source config).report view).2⟩ = (.ok after, notices) ∧
            ¬ (after.sidecar = none ∧ source.isModified = false ∧
              (source.createdFrom path).LosesLine))) := by
  obtain ⟨plan, notices, progress, hplanned, houtcome, hcarry, hdisk⟩ := plan_of_outcome h
  cases hplanned with
  | skip | keep | update => cases houtcome
  | @create named path htarget hexpand hmissing hmanaged hmodified =>
      refine ⟨named, path, htarget, hexpand, fun hagain => ?_⟩
      obtain ⟨hnull, before, between, hstart, -, hbetween, hcreate⟩ :=
        carry_out_create_cases hagain hcarry
      rw [hsource.sidecar_eq_none] at hcreate
      obtain ⟨saved, hsave⟩ := save_of_sections hcreate
      have hread : progress.disk.read path = .ok (source.createdFrom path).write.encode := by
        rw [hbetween]
        exact read_of_save rfl rfl hstart hsave
      have hmark := target_prefix_eq hsource.sidecar_eq_none
      have hunchanged : ((Operation.apply source config).report ⟨view.host, progress.disk⟩).1.1 =
          .ok .unchanged ↔ _ := unchanged_iff htarget hexpand hnull (Disk.is_file_of_read hread)
      rw [repeats_unchanged_iff, hdisk, hunchanged]
      refine exists_congr fun after => exists_congr fun notices => and_congr_right fun hload => ?_
      by_cases hafter : after.sidecar = none
      · rw [hmark] at hload
        obtain ⟨path', content, t, hfile, hdecode, rfl⟩ := comment_file_of_load hload hafter
        obtain rfl : path = path' := Except.ok.inj (hagain.symm.trans hfile.expand_eq)
        have hread' : progress.disk.read path = .ok content := hfile.read_eq
        obtain rfl := Except.ok.inj (hread.symm.trans hread')
        obtain rfl := Except.ok.inj ((Text.decode_encode _).symm.trans hdecode)
        have hiff := takes_nothing_of_sections_iff ⟨view.host, progress.disk⟩ path
          (hsource.created_from path) hsource rfl rfl hshows hmanaged
        have hcomment : (source.createdFrom path).commentPrefix = source.commentPrefix := rfl
        rw [hcomment] at hiff
        simpa [hafter] using hiff
      · refine iff_of_true (.inl ?_) fun h => hafter h.1
        cases hchanged : (after.apply source).isChanged with
        | false => rfl
        | true => exact absurd (sidecar_of_is_changed hsource.sidecar_eq_none hchanged) hafter

/-- A target with a sidecar that was created is left unchanged by the second run, if it may be opened. -/
theorem repeats_of_sidecar_creation {theirs : Sidecar} (htheirs : source.sidecar = some theirs)
    (haccepted : theirs.isModified = false → theirs.accepted = theirs.current)
    (h : ((Operation.apply source config).report view).1.1 = .ok .created) :
    ∃ named path, source.target = some named ∧ view.host.expand named = .ok path ∧
      (view.host.expand path.toText = .ok path →
        Path.resolve ⟨.slash, view.disk.workdir⟩ path ∉ view.host.unreadable →
        Repeats source config view .unchanged) := by
  obtain ⟨plan, notices, progress, hplanned, houtcome, hcarry, hdisk⟩ := plan_of_outcome h
  cases hplanned with
  | skip | keep | update => cases houtcome
  | @create named path htarget hexpand hmissing hmanaged hmodified =>
      refine ⟨named, path, htarget, hexpand, fun hagain hreadable => ?_⟩
      obtain ⟨hnull, before, between, hstart, hworkdir, hbetween, hcreate⟩ :=
        carry_out_create_cases hagain hcarry
      rw [htheirs] at hcreate
      obtain ⟨created, hcreated, hwritten⟩ := written_of_create hcreate
      have hunmodified : theirs.isModified = false := by
        have hsame := hmodified (by simp [hasSidecar, htheirs])
        rwa [isModified, htheirs] at hsame
      have hreadable' : Path.resolve ⟨.slash, before.disk.workdir⟩ path ∉ view.host.unreadable := by
        rw [hworkdir]
        exact hreadable
      have hfile := Disk.is_file_of_read (hwritten.reads hstart hcreated.path_eq).1
      rw [repeats_unchanged_iff, hdisk, hbetween]
      exact unchanged_of_written hwritten hstart hcreated.path_eq hagain hnull hcreated.sidecar_no_null
        hreadable' htarget hexpand hnull hfile htheirs
        (hcreated.accepted_eq.trans (haccepted hunmodified).symm)

/-- A source with one section and an empty line at its end. -/
def spacedSource : Text :=
  ("#... all target t\n#... s begin\n" ++
    "#... s hash 7AA7A5359173D05B63CFD682E3C38487F3CB4F7F1D60659FE59FAB1505977D4C\n" ++
    "new\n#... s end\n\n").toList

/-- A file for `spacedSource` whose last line is left open. -/
def openTarget : Text :=
  ("#... s begin\n#... s hash 01D09D19C2139A46AEBFB577780D123D7396E97201BC7EAD210A2EBFF8239DEE\n" ++
    "old\n#... s end").toList

/-- A disk with `spacedSource` and its target. -/
def spacedView : View := filesOnly [(['s'], spacedSource), (['t'], openTarget)]

/-- The digest of the section in `spacedSource`. -/
def spacedDigest : Text :=
  "7AA7A5359173D05B63CFD682E3C38487F3CB4F7F1D60659FE59FAB1505977D4C".toList

/-- The document of `spacedSource`. -/
def spacedDocument : Document where
  commentPrefix := ['#']
  sections := [.plain ⟨1, 1, []⟩,
    .tracked ⟨2, 5, ['s'], spacedDigest, none, "new\n".toList, spacedDigest⟩, .plain ⟨6, 6, ['\n']⟩]
  markers := [⟨1, Marker.wholeFile, .target, some ['t']⟩, ⟨2, ['s'], .start, none⟩,
    ⟨3, ['s'], .hash, some spacedDigest⟩, ⟨5, ['s'], .stop, none⟩]
  path := some ⟨.none, [['s']]⟩
  target := some ['t']
  permissions := none
  permissionsArgument := none
  sidecar := none
  isReadOnly := false
  finalNewline := true

/-- The source is read from its file, and its target from the other one. -/
theorem spaced_files_read :
    (∃ notices, (load ['s'] (some ['#']) .empty).report spacedView =
      (.ok spacedDocument, notices)) ∧
    ∃ notices, (load ['t'] (some ['#']) .empty).report spacedView =
      (.ok (ofFile ['#'] spacedView ⟨.none, [['t']]⟩ openTarget), notices) := by
  have hsource : CommentFile spacedView ['s'] ⟨.none, [['s']]⟩ spacedSource.encode :=
    ⟨rfl, rfl, List.not_mem_nil, rfl, ⟨.none, [['s'] ++ Sidecar.extension]⟩, rfl, .inr rfl⟩
  have htarget : CommentFile spacedView ['t'] ⟨.none, [['t']]⟩ openTarget.encode :=
    ⟨rfl, rfl, List.not_mem_nil, rfl, ⟨.none, [['t'] ++ Sidecar.extension]⟩, rfl, .inr rfl⟩
  have hdocument : ofFile ['#'] spacedView ⟨.none, [['s']]⟩ spacedSource = spacedDocument := by cbv
  rw [← hdocument]
  exact ⟨outcome_load hsource (Text.decode_encode _) ['#'] .empty [],
    outcome_load htarget (Text.decode_encode _) ['#'] .empty []⟩

/-- The target takes everything from the source and loses the empty line at its end. -/
theorem open_target_loses_line :
    let before := ofFile ['#'] spacedView ⟨.none, [['t']]⟩ openTarget
    before.takesAll spacedDocument = true ∧ spacedDocument.isModified = false ∧
      (before.apply spacedDocument).target.LosesLine := by
  exact ⟨by decide +kernel, by decide +kernel, by decide +kernel, by decide +kernel⟩

/-- The target is updated once. -/
theorem spaced_source_updates :
    ((Operation.apply spacedDocument .empty).report spacedView).1.1 = .ok .updated :=
  ok_of_to_option (by decide +kernel)

end TrackedSections.Document
