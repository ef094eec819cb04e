import TrackedSections.Proofs.Disk.Frame
import TrackedSections.Proofs.Merge.Twice

/-!
# What applying a document touches

The outcome of applying a document says what happened to its target, and nothing else happens:
`CreatesOnly` and `UpdatesOnly` say what is different on the disk after a creation and after an
update. Read `applied_footprint` for the result. The target is expanded twice, once to look whether
there is a file and once more when the file is created or read, so that a target that starts at a
directory called `~` ends up at two paths; `stray_file_created` is such a run.
-/

namespace TrackedSections

open Effect

variable {host : Host} {progress progress' : Progress} {path : Path} {written made : Path → Prop}

/-- A file has its own path and that of its sidecar. -/
def Path.Owns (path p : Path) : Prop := p = path ∨ Sidecar.pathFor path = .ok p

/-! ## Creating and saving -/

/-- Creating a file changes what stands at its path, and makes directories above it. -/
theorem Operation.changes_of_create_file {name : Text} {isNew : Bool}
    (hexpand : host.expand name = .ok path) (hwritten : written path)
    (hmade : ∀ q : Path, q.Covers path.parent → made q)
    (h : outcome (createFile name) host progress = (.ok isNew, progress')) :
    progress.disk.ChangesOnly written made progress'.disk := by
  obtain ⟨path', hexpand', -, hcases⟩ := create_file_cases h
  obtain rfl : path = path' := Except.ok.inj (hexpand.symm.trans hexpand')
  rcases hcases with ⟨hdisk, -⟩ | ⟨before, between, hbefore, hmake, htouch⟩
  · rw [hdisk]
    exact .refl written made progress.disk
  · have hdirectories : progress.disk.ChangesOnly written made between.disk := by
      refine (maintains_make_directories path.parent fun q hq _ d d' hd hmake =>
        hd.trans (Disk.changes_of_make_directory (hmade q hq) hmake)).of_outcome ?_ hmake
      rw [hbefore]
      exact .refl written made progress.disk
    exact hdirectories.trans (Disk.changes_of_touch hwritten htouch)

/-- A file that is written with its sidecar changes what stands at the two paths. -/
theorem Sidecar.WrittenBeside.changes {s : Sidecar} {content : Bytes} {d d' : Disk}
    (h : s.WrittenBeside path content d d') (hpath : written path) (hsidecar : written s.path) :
    d.ChangesOnly written made d' := by
  induction h with
  | files _ hcontent htext =>
      exact (Disk.changes_of_write hpath hcontent).trans (Disk.changes_of_write hsidecar htext)
  | mode _ hmode ih => exact ih.trans (Disk.changes_of_change_mode hpath hmode)

namespace Document

variable {source : Document} {config : Config} {view : View}

/-- Saving a document without a sidecar changes what stands at its path. -/
theorem changes_of_save {d : Document} (hsidecar : d.sidecar = none) (hpath : d.path = some path)
    (hwritten : written path) {saved : Path}
    (h : outcome d.save host progress = (.ok saved, progress')) :
    progress.disk.ChangesOnly written made progress'.disk :=
  disk_of_save hsidecar hpath (fun _ _ => Disk.changes_of_write hwritten)
    (fun _ _ _ h hmode => h.trans (Disk.changes_of_change_mode hwritten hmode)) h

/-- What is created at a path is a file there, and changes nothing but the file and its sidecar. -/
theorem file_of_creation (h : outcome (match source.sidecar with
      | some s => source.createWithSidecar s path
      | none => source.createWithSections path) host progress = (.ok (), progress')) :
    path.hasNull = false ∧ progress.disk.ChangesOnly path.Owns (fun _ => False) progress'.disk ∧
      (progress.disk.HasStart path → progress'.disk.isFile path = .ok true) := by
  cases hsidecar : source.sidecar with
  | none =>
      rw [hsidecar] at h
      obtain ⟨saved, hsave⟩ := save_of_sections h
      refine ⟨?_, changes_of_save rfl rfl (.inl rfl) hsave, fun hstart =>
        Disk.is_file_of_read (read_of_save rfl rfl hstart hsave)⟩
      exact disk_of_save (p := fun _ => path.hasNull = false) rfl rfl (fun hnull _ _ => hnull)
        (fun _ _ _ hnull _ => hnull) hsave
  | some s =>
      rw [hsidecar] at h
      obtain ⟨created, hcreated, hfiles⟩ := written_of_create h
      exact ⟨hcreated.no_null, hfiles.changes (.inl rfl) (.inr hcreated.path_eq),
        fun hstart => Disk.is_file_of_read (hfiles.reads hstart hcreated.path_eq).1⟩

/-! ## The outcomes -/

/-- What is different when a target was created at `path`, which is expanded to `again` once more.
There was no file at `path` and now there is one. Nothing else is different but the sidecar of `path`,
what stands at `again`, and directories above `again` that were missing. -/
structure CreatesOnly (path again : Path) (d d' : Disk) : Prop where
  was_missing : d.isFile path = .ok false
  is_file : again = path ∨ d.HasStart path → d'.isFile path = .ok true
  changes : d.ChangesOnly (fun p => path.Owns p ∨ p = again) (·.Covers again.parent) d'

/-- What is different when the target at `path` was updated, which is expanded to `again` once more.
There was a file at `path`. The bytes of the file at `again` are different, and nothing else is but its
sidecar. -/
structure UpdatesOnly (path again : Path) (d d' : Disk) : Prop where
  was_file : d.isFile path = .ok true
  bytes_ne : ∃ old new, d.read again = .ok old ∧ d'.read again = .ok new ∧ old ≠ new
  changes : d.ChangesOnly again.Owns (fun _ => False) d'

/-- A run that created the target did nothing else. -/
theorem creates_only (h : ((Operation.apply source config).report view).1.1 = .ok .created) :
    ∃ named path again, source.target = some named ∧ view.host.ExpandsTwice named path again ∧
      CreatesOnly path again view.disk ((Operation.apply source config).report view).2 := by
  obtain ⟨plan, notices, progress, hplanned, houtcome, hcarry, hdisk⟩ := plan_of_outcome h
  cases hplanned with
  | skip | keep | update => cases houtcome
  | @create named path htarget hexpand hmissing hmanaged hmodified =>
      obtain ⟨isNew, before, between, hcreate, hfill, hbetween⟩ := steps_of_create hcarry
      obtain ⟨again, hagain, -, -⟩ := Operation.create_file_cases hcreate
      have hmade : view.disk.ChangesOnly (fun p => path.Owns p ∨ p = again) (·.Covers again.parent)
          before.disk :=
        Operation.changes_of_create_file hagain (.inr rfl) (fun _ hq => hq) hcreate
      obtain ⟨hnull, hfilled, hfile⟩ := file_of_creation hfill
      have hchanges := hmade.trans (hfilled.mono (fun _ hp => .inl hp) (fun _ hp => hp.elim))
      refine ⟨named, path, again, htarget, ⟨hexpand, hagain⟩, ?_⟩
      rw [hdisk, hbetween]
      refine ⟨hmissing.resolve_left (by simp [hnull]), fun hstart => hfile ?_, hchanges⟩
      rcases hstart with rfl | hstart
      · exact (Operation.has_start_of_create_file hagain hcreate).2
      · exact hmade.keeps.has_start hstart

/-- The text of a target that takes something is not what it took is written as. -/
theorem text_ne_of_taken (hsource : source.Legible) (hshows : source.ShowsHashbang) {t : Text}
    (hchanged : ((ofFile source.commentPrefix view path t).apply source).isChanged = true)
    (hnothing : ¬ (ofFile source.commentPrefix view path t).TakesNothing source) :
    t ≠ ((ofFile source.commentPrefix view path t).apply source).target.write := by
  intro ht
  generalize htarget : ofFile source.commentPrefix view path t = target at *
  have hlegible : target.Legible := htarget ▸ legible_of_file source.commentPrefix view path t
  have hcomments : target.commentPrefix = source.commentPrefix :=
    htarget ▸ comment_prefix_of_file source.commentPrefix view path t
  obtain ⟨hmerged, hcomment⟩ := apply_legible hlegible hsource hcomments.symm
  have hreread : ofFile (target.apply source).target.commentPrefix view path
      (target.apply source).target.write = target := by
    rw [hcomment, hcomments, ← ht, htarget]
  -- If the text were the same, everything was taken, and then the text is written again as it is.
  have hiff := takes_nothing_iff view path hlegible hsource hcomments hshows hchanged rfl
  rw [hreread] at hiff
  have hall : target.takesAll source = true := (not_not.1 fun h => hnothing (hiff.2 h)).1
  have hsections : (target.apply source).target.sections = source.sections := by
    rcases apply_cases hlegible.sidecar_eq_none source with ⟨-, hsame, -⟩ | ⟨-, -, htaken⟩ |
      ⟨-, hsome, -⟩
    · rw [hchanged] at hsame
      cases hsame
    · rw [htaken]
    · rw [hall] at hsome
      cases hsome
  have hwrite := hmerged.write_of_file view path (hshows.of_sections hsections)
  rw [hreread] at hwrite
  exact hnothing (.inr ⟨hlegible.sidecar_eq_none, hwrite.symm⟩)

/-- A document takes something when its target is updated. -/
theorem takes_something {named : Text} (htarget : source.target = some named)
    (hexpand : view.host.expand named = .ok path) (hnull : path.hasNull = false)
    (hfile : view.disk.isFile path = .ok true) {before : Document} {notices : List Notice}
    (hload : (load path.toText source.targetPrefix config).report view = (.ok before, notices))
    (h : ((Operation.apply source config).report view).1.1 = .ok .updated) :
    ¬ before.TakesNothing source := by
  intro hnothing
  have hunchanged := (unchanged_iff htarget hexpand hnull hfile).2 ⟨before, notices, hload, hnothing⟩
  rw [h] at hunchanged
  cases Except.ok.inj hunchanged

/-- A run that updated a target with comments did nothing else. -/
theorem updates_only_of_comments (hsource : source.Legible) (hshows : source.ShowsHashbang)
    (h : ((Operation.apply source config).report view).1.1 = .ok .updated) :
    ∃ named path again, source.target = some named ∧ view.host.ExpandsTwice named path again ∧
      UpdatesOnly path again view.disk ((Operation.apply source config).report view).2 := by
  obtain ⟨plan, notices, progress, hplanned, houtcome, hcarry, hdisk⟩ := plan_of_outcome h
  cases hplanned with
  | skip | keep | create => cases houtcome
  | @update named path before notices₁ notices₂ htarget hexpand hnull hfile hload hchanged =>
      obtain ⟨again, old, t, hcommentFile, hdecode, rfl, hsidecar, hpath⟩ :=
        comment_file_of_taken hsource.sidecar_eq_none hload hchanged
      obtain ⟨notices₃, hreport⟩ := outcome_load hcommentFile hdecode source.commentPrefix config []
      rw [← target_prefix_eq hsource.sidecar_eq_none] at hreport
      have hnothing := takes_something htarget hexpand hnull hfile hreport h
      obtain ⟨saved, between, hsave, hbetween⟩ := save_of_update hcarry
      have hstart := Disk.has_start_of_read hcommentFile.read_eq
      refine ⟨named, path, again, htarget, ⟨hexpand, hcommentFile.expand_eq⟩, ?_⟩
      rw [hdisk, hbetween]
      refine ⟨hfile, ⟨old, _, hcommentFile.read_eq, read_of_save hsidecar hpath hstart hsave, ?_⟩,
        changes_of_save hsidecar hpath (.inl rfl) hsave⟩
      intro hold
      rw [hold, Text.decode_encode] at hdecode
      exact text_ne_of_taken hsource hshows hchanged hnothing (Except.ok.inj hdecode).symm

/-- A run that updated a target with a sidecar did nothing else. -/
theorem updates_only_of_sidecar {theirs : Sidecar} (htheirs : source.sidecar = some theirs)
    (haccepted : theirs.isModified = false → theirs.accepted = theirs.current)
    (h : ((Operation.apply source config).report view).1.1 = .ok .updated) :
    ∃ named path again, source.target = some named ∧ view.host.ExpandsTwice named path again ∧
      UpdatesOnly path again view.disk ((Operation.apply source config).report view).2 := by
  obtain ⟨plan, notices, progress, hplanned, houtcome, hcarry, hdisk⟩ := plan_of_outcome h
  cases hplanned with
  | skip | keep | create => cases houtcome
  | @update named path before notices₁ notices₂ htarget hexpand hnull hfile hload hchanged =>
      obtain ⟨mine, hmine, hunmodified, htheirsUnmodified, hne, htaken⟩ :=
        taken_of_is_changed htheirs hchanged
      rcases load_inversion hload with ⟨again, content, s, hsidecarFile, rfl⟩ |
        ⟨again, content, t, -, -, rfl⟩
      · obtain rfl : s = mine := Option.some.inj hmine
        obtain ⟨sidecarPath, octets, hpath, -, -, -, hread⟩ := hsidecarFile.sidecar_eq
        obtain ⟨rfl, rfl, hmodified⟩ := Sidecar.of_read hread
        rw [htaken] at hcarry
        obtain ⟨saved, between, hsave, hbetween⟩ := save_of_update hcarry
        obtain ⟨-, hwritten⟩ := written_of_save rfl rfl hsave
        have hstart := Disk.has_start_of_read hsidecarFile.read_eq
        refine ⟨named, path, again, htarget, ⟨hexpand, hsidecarFile.expand_eq⟩, ?_⟩
        rw [hdisk, hbetween]
        refine ⟨hfile, ⟨s.content, theirs.content, hsidecarFile.read_eq,
          (hwritten.reads hstart hpath).1, fun hsame => hne ?_⟩,
          hwritten.changes (.inl rfl) (.inr hpath)⟩
        -- Both digests are those of the contents.
        have hcurrent : s.accepted = s.current := by
          rw [hunmodified] at hmodified
          simpa using hmodified.symm
        rw [hcurrent, haccepted htheirsUnmodified, Sidecar.current, Sidecar.current, hsame]
      · cases hmine

/-- The outcome of applying a document tells what was done, and nothing else was. A run that skipped the
target or left it unchanged leaves the disk as it was. A target that was created was no file and is
one now, and a target that was updated was a file and has different bytes now. Nothing else is
different but its sidecar and directories that were missing, unless the target starts at a directory
called `~`: then the path that it is expanded to once more is what is updated, and something is made to
exist there when the target is created. -/
theorem applied_footprint {sourceView : View} {written : Text} {given : Option Text}
    {sourceConfig : Config} {notices : List Notice}
    (hload : (load written given sourceConfig).report sourceView = (.ok source, notices))
    (config : Config) (view : View) :
    let run := (Operation.apply source config).report view
    (run.1.1 = .ok .skipped ∨ run.1.1 = .ok .unchanged → run.2 = view.disk) ∧
    (run.1.1 = .ok .created → ∃ named path again, source.target = some named ∧
      view.host.ExpandsTwice named path again ∧ (¬ path.StartsWithTilde → again = path) ∧
      CreatesOnly path again view.disk run.2) ∧
    (run.1.1 = .ok .updated → ∃ named path again, source.target = some named ∧
      view.host.ExpandsTwice named path again ∧ (¬ path.StartsWithTilde → again = path) ∧
      UpdatesOnly path again view.disk run.2) := by
  intro run
  refine ⟨fun hnone => hnone.elim (disk_of_outcome (.inl rfl)) (disk_of_outcome (.inr rfl)),
    fun hcreated => ?_, fun hupdated => ?_⟩
  · obtain ⟨named, path, again, htarget, hexpand, honly⟩ := creates_only hcreated
    exact ⟨named, path, again, htarget, hexpand, hexpand.eq, honly⟩
  · have honly : ∃ named path again, source.target = some named ∧
        view.host.ExpandsTwice named path again ∧ UpdatesOnly path again view.disk run.2 := by
      rcases source_cases hload with ⟨hlegible, hshows⟩ | ⟨theirs, htheirs, haccepted⟩
      · exact updates_only_of_comments hlegible hshows hupdated
      · exact updates_only_of_sidecar htheirs haccepted hupdated
    obtain ⟨named, path, again, htarget, hexpand, honly⟩ := honly
    exact ⟨named, path, again, htarget, hexpand, hexpand.eq, honly⟩

/-- The target of `spacedSource` is updated, and nothing else is touched. -/
theorem open_target_updated_alone :
    (∃ notices, (load ['s'] (some ['#']) .empty).report spacedView =
      (.ok spacedDocument, notices)) ∧
    UpdatesOnly ⟨.none, [['t']]⟩ ⟨.none, [['t']]⟩ spacedView.disk
      ((Operation.apply spacedDocument .empty).report spacedView).2 := by
  obtain ⟨⟨notices, hsource⟩, -⟩ := spaced_files_read
  refine ⟨⟨notices, hsource⟩, ?_⟩
  obtain ⟨-, -, hupdated⟩ := applied_footprint hsource .empty spacedView
  obtain ⟨named, path, again, hnamed, hexpand, -, honly⟩ := hupdated spaced_source_updates
  obtain rfl : ['t'] = named := Option.some.inj hnamed
  obtain rfl : ⟨.none, [['t']]⟩ = path := Except.ok.inj hexpand.first
  obtain rfl : ⟨.none, [['t']]⟩ = again := Except.ok.inj hexpand.second
  exact honly

/-- A source for the file `x` in a directory called `~`. -/
def tildeSource : Text :=
  "#... s begin\n#... s hash 0\n#... all target ./~/x\nnew\n#... s end".toList

/-- A disk with `tildeSource`, a directory called `~`, and the home directory `/h`. -/
def tildeView : View :=
  ⟨⟨some "/h".toList, none, none, none, [], [], []⟩,
    ⟨.directory 0o755 [(['s'], .file tildeSource.encode 0o644), (['~'], .directory 0o755 []),
      (['h'], .directory 0o755 [])], []⟩⟩

/-- The document of `tildeSource`. -/
def tildeDocument : Document := ofFile ['#'] tildeView ⟨.none, [['s']]⟩ tildeSource

/-- When `tildeSource` creates its target, an empty file `x` appears in the home directory. -/
theorem tilde_target_created :
    let run := (Operation.apply tildeDocument .empty).report tildeView
    run.1.1 = .ok .created ∧ run.2.entryAt [['h'], ['x']] = some (some [], 0o644) ∧
      (∀ p, Path.Owns ⟨.none, [['~'], ['x']]⟩ p → run.2.locate p ≠ .ok [['h'], ['x']]) := by
  refine ⟨ok_of_to_option (by decide +kernel), by decide +kernel, ?_⟩
  rintro p (rfl | hp) hplace
  · exact absurd (congrArg Except.toOption hplace) (by decide +kernel)
  · obtain rfl := Except.ok.inj hp
    exact absurd (congrArg Except.toOption hplace) (by decide +kernel)

/-- Not every run leaves everything alone but its target, the sidecar of the target and directories
above it. -/
theorem stray_file_created :
    ¬ ∀ (source : Document) (config : Config) (view : View) (result : Outcome) (named : Text)
      (path : Path),
      (∃ sourceView written given sourceConfig notices,
        (load written given sourceConfig).report sourceView = (.ok source, notices)) →
      ((Operation.apply source config).report view).1.1 = .ok result →
      source.target = some named → view.host.expand named = .ok path →
      view.disk.ChangesOnly path.Owns (·.Covers path.parent)
        ((Operation.apply source config).report view).2 := by
  intro hall
  have hfile : CommentFile tildeView ['s'] ⟨.none, [['s']]⟩ tildeSource.encode :=
    ⟨rfl, rfl, List.not_mem_nil, rfl, ⟨.none, [['s'] ++ Sidecar.extension]⟩, rfl, .inr rfl⟩
  obtain ⟨notices, hload⟩ := outcome_load hfile (Text.decode_encode _) ['#'] .empty []
  obtain ⟨hcreated, hstray, howned⟩ := tilde_target_created
  have htarget : tildeDocument.target = some "./~/x".toList := by decide +kernel
  have hchanges := hall tildeDocument .empty tildeView .created "./~/x".toList
    ⟨.none, [['~'], ['x']]⟩ ⟨tildeView, ['s'], some ['#'], .empty, notices, hload⟩ hcreated htarget rfl
  rcases hchanges.entry_cases [['h'], ['x']] with hsame | ⟨p, hp, hplace⟩ | ⟨-, -, hnew⟩
  · rw [hstray] at hsame
    exact absurd hsame (by decide +kernel)
  · exact howned p hp hplace
  · rw [hstray] at hnew
    cases hnew

end Document

end TrackedSections
