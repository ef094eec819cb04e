import TrackedSections.Proofs.Disk.Creating
import TrackedSections.Proofs.Merge.OnDisk

/-!
# Sections of a source that were not compiled

A section of a source that was edited and not compiled is not taken by name. It is taken all the same
when a target takes everything at once, and when a target is created. `TakesEdits` is exactly the first
condition. Read `edits_apply_cases` first: a document has the edits that it had before it took from
a source, or those of the source.
-/

namespace TrackedSections.Document

open Effect

/-- A target without edits is covered by a source with edits, so it takes them with everything else. -/
structure TakesEdits (target source : Document) : Prop where
  sidecar_eq_none : target.sidecar = none
  is_managed : target.isManaged = true
  unmodified : target.isModified = false
  covered : ∀ name ∈ target.names, name ∈ source.names
  modified : source.isModified = true

/-- Every section that is modified afterwards was modified before. -/
def AddsNoEdit (before after : Document) : Prop :=
  ∀ s ∈ after.tracked, s.isModified = true → ∃ s₀ ∈ before.tracked, s₀.name = s.name ∧ s₀.isModified = true

/-- The edits of a document are its modified sections wherever they stand. -/
theorem mem_edits_iff {d : Document} {e : Tracked} :
    e ∈ d.edits ↔ ∃ s ∈ d.tracked, s.isModified = true ∧ s.unplaced = e := by
  rw [edits, editsOf, List.mem_filter, List.mem_map]
  constructor
  · rintro ⟨⟨s, hs, rfl⟩, hmodified⟩
    exact ⟨s, hs, hmodified, rfl⟩
  · rintro ⟨s, hs, hmodified, rfl⟩
    exact ⟨⟨s, hs, rfl⟩, hmodified⟩

/-- A document without a sidecar and with edits is managed. -/
theorem is_managed_of_is_modified {d : Document} (hsidecar : d.sidecar = none)
    (h : d.isModified = true) : d.isManaged = true := by
  unfold isModified at h
  rw [hsidecar] at h
  obtain ⟨s, hs, -⟩ := List.any_eq_true.1 h
  have hne : d.tracked ≠ [] := List.ne_nil_of_mem hs
  simp [isManaged, hne]

/-- The edits that a document takes are those of a source that has some. -/
theorem TakesEdits.exists_edit {target source : Document} (h : target.TakesEdits source)
    (hsource : source.sidecar = none) : ∃ e, e ∈ source.edits := by
  refine List.exists_mem_of_ne_nil _ ?_
  intro hnil
  have hunmodified := (unmodified_iff hsource).2 hnil
  rw [h.modified] at hunmodified
  cases hunmodified

/-- Edits of a source are taken when nothing stands in the way and all its sections are taken. -/
theorem takes_edits_iff {target source : Document} (htarget : target.sidecar = none)
    (hsource : source.sidecar = none) : target.TakesEdits source ↔
      target.obstacle? source = none ∧ target.takesAll source = true ∧ source.isModified = true := by
  constructor
  · intro h
    have hmanaged := is_managed_of_is_modified hsource h.modified
    refine ⟨?_, ?_, h.modified⟩
    · simp [obstacle?, hasSidecar, htarget, hsource, h.is_managed, hmanaged]
    · simpa [takesAll, h.unmodified] using h.covered
  · rintro ⟨hobstacle, hall, hmodified⟩
    have hmanaged : target.isManaged = true := by
      cases hmanaged : target.isManaged with
      | true => rfl
      | false => simp [obstacle?, hasSidecar, htarget, hmanaged] at hobstacle
    obtain ⟨hunmodified, hcovered⟩ : target.isModified = false ∧ ∀ name ∈ target.names,
        name ∈ source.names := by simpa [takesAll] using hall
    exact ⟨htarget, hmanaged, hunmodified, hcovered, hmodified⟩

/-- A document that took from a source has the edits that it had before, unless it takes those of the
source. -/
theorem edits_apply_cases {target source : Document} (htarget : target.sidecar = none)
    (hsource : source.sidecar = none) :
    (¬ target.TakesEdits source ∧ (target.apply source).target.edits = target.edits) ∨
      (target.TakesEdits source ∧ target.edits = [] ∧
        (target.apply source).target.edits = source.edits) := by
  have htakes := takes_edits_iff htarget hsource
  rcases apply_cases htarget source with
    ⟨hsame, -, hobstacle⟩ | ⟨hobstacle, hall, hdone⟩ | ⟨-, hall, hdone⟩
  · rw [hsame]
    exact .inl ⟨fun h => hobstacle (htakes.1 h).1, rfl⟩
  · obtain ⟨hunmodified, -⟩ : target.isModified = false ∧ _ := by simpa [takesAll] using hall
    have hnone := (unmodified_iff htarget).1 hunmodified
    have hedits : (target.apply source).target.edits = source.edits := by
      rw [hdone]
      rfl
    by_cases hmodified : source.isModified = true
    · exact .inr ⟨htakes.2 ⟨hobstacle, hall, hmodified⟩, hnone, hedits⟩
    · refine .inl ⟨fun h => hmodified h.modified, ?_⟩
      rw [hedits, hnone]
      exact (unmodified_iff hsource).1 (by simpa using hmodified)
  · refine .inl ⟨fun h => ?_, ?_⟩
    · rw [(htakes.1 h).2.1] at hall
      cases hall
    · rw [hdone]
      exact edits_apply_each target source.tracked

/-- Sections that differ in their places only have the same name, content and digests. -/
theorem fields_of_unplaced {s t : Tracked} (h : s.unplaced = t.unplaced) :
    s.name = t.name ∧ s.content = t.content ∧ s.accepted = t.accepted ∧ s.current = t.current := by
  obtain ⟨-, -, hname, haccepted, -, hcontent, hcurrent⟩ := Tracked.mk.inj h
  exact ⟨hname, hcontent, haccepted, hcurrent⟩

/-- A document with the edits of another one adds none. -/
theorem adds_no_edit_of_edits_eq {before after : Document} (h : after.edits = before.edits) :
    AddsNoEdit before after := by
  intro s hs hmodified
  have hmem : s.unplaced ∈ before.edits := h ▸ mem_edits_iff.2 ⟨s, hs, hmodified, rfl⟩
  obtain ⟨s₀, hs₀, hmodified₀, hsame⟩ := mem_edits_iff.1 hmem
  exact ⟨s₀, hs₀, (fields_of_unplaced hsame).1, hmodified₀⟩

/-- A document with edits adds some to one without any. -/
theorem not_adds_no_edit {before after : Document} (hbefore : before.edits = []) {e : Tracked}
    (he : e ∈ after.edits) : ¬ AddsNoEdit before after := by
  intro h
  obtain ⟨s, hs, hmodified, -⟩ := mem_edits_iff.1 he
  obtain ⟨s₀, hs₀, -, hmodified₀⟩ := h s hs hmodified
  have hmem := mem_edits_iff.2 ⟨s₀, hs₀, hmodified₀, rfl⟩
  rw [hbefore] at hmem
  cases hmem

/-- The digest of a section of a legible document is that of its content. -/
theorem Legible.current_eq {d : Document} (h : d.Legible) {s : Tracked} (hs : s ∈ d.tracked) :
    s.current = Digest.ofText s.content := by
  obtain ⟨t, ht, htracked⟩ := List.mem_filterMap.1 hs
  exact (h.section_legible t ht).current_eq s htracked

/-- The modified sections of a document that took from a source were there before with the same content
and digest, unless it takes the edits of the source. -/
theorem modified_apply_iff {target source : Document} (htarget : target.Legible)
    (hsource : source.Legible) :
    (∀ s ∈ (target.apply source).target.tracked, s.isModified = true → ∃ s₀ ∈ target.tracked,
      s₀.name = s.name ∧ s₀.content = s.content ∧ s₀.accepted = s.accepted) ↔
    ¬ target.TakesEdits source := by
  rcases edits_apply_cases htarget.sidecar_eq_none hsource.sidecar_eq_none with
    ⟨hnot, hedits⟩ | ⟨htakes, hnone, hedits⟩
  · refine iff_of_true ?_ hnot
    intro s hs hmodified
    have hmem : s.unplaced ∈ target.edits := hedits ▸ mem_edits_iff.2 ⟨s, hs, hmodified, rfl⟩
    obtain ⟨s₀, hs₀, -, hsame⟩ := mem_edits_iff.1 hmem
    obtain ⟨hname, hcontent, haccepted, -⟩ := fields_of_unplaced hsame
    exact ⟨s₀, hs₀, hname, hcontent, haccepted⟩
  · refine iff_of_false (fun h => ?_) (not_not_intro htakes)
    obtain ⟨e, he⟩ := htakes.exists_edit hsource.sidecar_eq_none
    obtain ⟨t, ht, -, rfl⟩ := mem_edits_iff.1 he
    obtain ⟨s, hs, hmodified, hsame⟩ := mem_edits_iff.1 (hedits ▸ he)
    obtain ⟨s₀, hs₀, -, hcontent, haccepted⟩ := h s hs hmodified
    -- The section in the target has the content of an edit, and so its digest.
    have hcurrent : s₀.current = s.current := by
      obtain ⟨-, hsameContent, -, hsameCurrent⟩ := fields_of_unplaced hsame
      rw [htarget.current_eq hs₀, hcontent, hsameContent, hsameCurrent, hsource.current_eq ht]
    have hmodified₀ : s₀.isModified = true := by
      rw [Tracked.isModified, hcurrent, haccepted]
      exact hmodified
    have hmem := mem_edits_iff.2 ⟨s₀, hs₀, hmodified₀, rfl⟩
    rw [hnone] at hmem
    cases hmem

/-! ## On disk -/

variable {source : Document} {config : Config} {view : View} {named : Text} {path : Path}

/-- A file to which a document with comments is applied is read back with no edit that it did not have
before, unless it takes the edits of the source. Then it has some once it was updated. -/
theorem apply_adds_edit (hsource : source.Legible) (htarget : source.target = some named)
    (hexpand : view.host.expand named = .ok path) (hnull : path.hasNull = false)
    (hfile : view.disk.isFile path = .ok true) {before : Document} {notices : List Notice}
    (hload : (load path.toText (some source.commentPrefix) config).report view =
      (.ok before, notices)) :
    ∃ after notices', (load path.toText (some source.commentPrefix) config).report
        ⟨view.host, ((Operation.apply source config).report view).2⟩ = (.ok after, notices') ∧
      (¬ before.TakesEdits source → AddsNoEdit before after) ∧
      (((Operation.apply source config).report view).1.1 = .ok .updated →
        before.TakesEdits source → ¬ AddsNoEdit before after) := by
  rcases apply_disk_cases hsource.sidecar_eq_none config htarget hexpand hnull hfile with
    ⟨hsame, hnot⟩ | ⟨path', place, old, t, hcommentFile, hdecode, hlocate, hplace, hdisk⟩
  · rw [hsame]
    exact ⟨before, notices, hload, fun _ => adds_no_edit_of_edits_eq rfl, fun h => absurd h hnot⟩
  · obtain ⟨_, hagain⟩ := outcome_load hcommentFile hdecode source.commentPrefix config []
    obtain rfl : before = ofFile source.commentPrefix view path' t :=
      Except.ok.inj (Prod.mk.inj (hload.symm.trans hagain)).1
    rcases hdisk with ⟨hdisk, hnot⟩ | hdisk
    · obtain ⟨-, hafter⟩ := (hcommentFile.overwritten hplace hdisk).resolve_right
        fun h => h.1 hlocate
      obtain ⟨notices', hload'⟩ := outcome_load hafter hdecode source.commentPrefix config []
      exact ⟨_, notices', hload', fun _ => adds_no_edit_of_edits_eq rfl, fun h => absurd h hnot⟩
    · -- What is read now is the merged document, whose edits survive being written.
      obtain ⟨-, hafter⟩ := (hcommentFile.overwritten hplace hdisk).resolve_right
        fun h => h.1 hlocate
      obtain ⟨notices', hload'⟩ :=
        outcome_load hafter (Text.decode_encode _) source.commentPrefix config []
      refine ⟨_, notices', hload', ?_⟩
      have hreread := edits_of_merged hsource view
        ⟨view.host, ((Operation.apply source config).report view).2⟩ path' path' t
      have hbefore : (ofFile source.commentPrefix view path' t).sidecar = none := rfl
      rcases edits_apply_cases hbefore hsource.sidecar_eq_none with
        ⟨hnot, hedits⟩ | ⟨htakes, hnone, hedits⟩
      · exact ⟨fun _ => adds_no_edit_of_edits_eq (hreread.trans hedits), fun _ h => absurd h hnot⟩
      · refine ⟨fun h => absurd htakes h, fun _ _ => ?_⟩
        obtain ⟨e, he⟩ := htakes.exists_edit hsource.sidecar_eq_none
        exact not_adds_no_edit hnone ((hreread.trans hedits).symm ▸ he)

/-- What is created from a legible source is legible. -/
theorem Legible.created_from (h : source.Legible) (path : Path) :
    (source.createdFrom path).Legible := by
  refine ⟨rfl, fun p hp => h.property_valid p ?_, h.section_legible, h.nodup⟩
  exact List.mem_append_right _ hp

/-- What is read from a created file is the text of what was created, if the file is found at all. -/
theorem read_of_created (hsource : source.sidecar = none) (htarget : source.target = some named)
    (hexpand : view.host.expand named = .ok path)
    (hcreated : ((Operation.apply source config).report view).1.1 = .ok .created) {content : Bytes}
    (hread : ((Operation.apply source config).report view).2.read path = .ok content) :
    content = (source.createdFrom path).write.encode := by
  obtain ⟨plan, notices, progress, hplanned, houtcome, hcarry, hdisk⟩ := plan_of_outcome hcreated
  cases hplanned with
  | skip | keep | update => cases houtcome
  | create htarget' hexpand' =>
      obtain rfl := Option.some.inj (htarget.symm.trans htarget')
      obtain rfl := Except.ok.inj (hexpand.symm.trans hexpand')
      obtain ⟨before, saved, between, hsave, hbetween⟩ := save_of_create hsource hcarry
      have hdone : progress.disk.read path = .ok (source.createdFrom path).write.encode ∨
          progress.disk.locate path = .error .notFound := by
        rw [hbetween]
        -- Changing the mode comes last and keeps either case.
        refine disk_of_save (p := fun e => e.read path = .ok (source.createdFrom path).write.encode ∨
          e.locate path = .error .notFound) rfl rfl (fun _ e hwrite => ?_)
          (fun e e' mode h hmode => ?_) hsave
        · rcases Disk.write_cases hwrite with h | ⟨rfl, h⟩
          · exact .inl h
          · exact .inr h
        · rcases h with h | h
          · exact .inl (Disk.read_of_change_mode h hmode)
          · exact absurd hmode (Disk.change_mode_of_missing h)
      rw [hdisk] at hread
      rcases hdone with hdone | hdone
      · exact Except.ok.inj (hread.symm.trans hdone)
      · rw [Disk.read_eq_face, hdone] at hread
        cases hread

/-- A created file is read back with modified sections when the source has some, unless there is a sidecar
for the file. -/
theorem modified_created_iff (hsource : source.Legible) (htarget : source.target = some named)
    (hexpand : view.host.expand named = .ok path)
    (hcreated : ((Operation.apply source config).report view).1.1 = .ok .created) {written : Text}
    (hwritten : view.host.expand written = .ok path) {after : Document} {notices : List Notice}
    (hload : (load written (some source.commentPrefix) config).report
      ⟨view.host, ((Operation.apply source config).report view).2⟩ = (.ok after, notices)) :
    (∀ s ∈ after.tracked, s.isModified = false) ↔
      ¬ (source.isModified = true ∧ after.sidecar = none) := by
  by_cases hafter : after.sidecar = none
  · obtain ⟨path', content, t, hfile, hdecode, rfl⟩ := comment_file_of_load hload hafter
    obtain rfl : path = path' := Except.ok.inj (hwritten.symm.trans hfile.expand_eq)
    have hcontent := read_of_created hsource.sidecar_eq_none htarget hexpand hcreated hfile.read_eq
    obtain rfl : (source.createdFrom path).write = t := by
      rw [hcontent, Text.decode_encode] at hdecode
      exact Except.ok.inj hdecode
    have hreread := (hsource.created_from path).edits_reread (some path)
    have hedits := (edits_of_file source.commentPrefix
      ⟨view.host, ((Operation.apply source config).report view).2⟩ path _ (some path)).trans hreread
    have hsame : (ofFile source.commentPrefix
        ⟨view.host, ((Operation.apply source config).report view).2⟩ path
        (source.createdFrom path).write).edits = source.edits := hedits
    rw [← edits_eq_nil_iff, hsame, ← unmodified_iff hsource.sidecar_eq_none]
    simp [hafter]
  · rw [tracked_of_load hload hafter]
    exact iff_of_true (fun s hs => nomatch hs) fun h => hafter h.2

/-- When sections of a source that were not compiled travel. In memory, a document that took from a source
has a modified section that it did not have exactly when it takes the edits of the source. On disk, a file
that exists is read back with no edit that it did not have before unless it takes those of the source,
and then it has some once it was updated. A created file is read back with a modified section exactly
when the source is modified and there is no sidecar for the file. -/
theorem uncompiled_sections_travel_iff (targetPrefix sourcePrefix : Text)
    (targetPath sourcePath : Option Path) (targetText sourceText : Text) (isReadOnly : Bool)
    (config : Config) (view : View) :
    let target : Document := (ofText targetPrefix targetPath targetText).1
    let source : Document := { (ofText sourcePrefix sourcePath sourceText).1 with isReadOnly }
    let run := (Operation.apply source config).report view
    ((∀ s ∈ (target.apply source).target.tracked, s.isModified = true → ∃ s₀ ∈ target.tracked,
        s₀.name = s.name ∧ s₀.content = s.content ∧ s₀.accepted = s.accepted) ↔
      ¬ target.TakesEdits source) ∧
    ∀ named path, source.target = some named → view.host.expand named = .ok path →
      (path.hasNull = false → view.disk.isFile path = .ok true → ∀ before notices,
        (load path.toText (some sourcePrefix) config).report view = (.ok before, notices) →
        ∃ after notices', (load path.toText (some sourcePrefix) config).report
            ⟨view.host, run.2⟩ = (.ok after, notices') ∧
          (¬ before.TakesEdits source → AddsNoEdit before after) ∧
          (run.1.1 = .ok .updated → before.TakesEdits source → ¬ AddsNoEdit before after)) ∧
      (run.1.1 = .ok .created → ∀ written after notices, view.host.expand written = .ok path →
        (load written (some sourcePrefix) config).report ⟨view.host, run.2⟩ = (.ok after, notices) →
        ((∀ s ∈ after.tracked, s.isModified = false) ↔
          ¬ (source.isModified = true ∧ after.sidecar = none))) := by
  intro target source run
  have hsource : source.Legible :=
    (legible_of_text sourcePrefix sourcePath sourceText).with_read_only isReadOnly
  refine ⟨modified_apply_iff (legible_of_text targetPrefix targetPath targetText) hsource, ?_⟩
  intro named path htarget hexpand
  constructor
  · intro hnull hfile before notices hload
    exact apply_adds_edit hsource htarget hexpand hnull hfile hload
  · intro hcreated written after notices hwritten hload
    exact modified_created_iff hsource htarget hexpand hcreated hwritten hload

/-- A file for `editedSource` whose only section is as it was accepted. -/
def compiledTarget : Text :=
  ("#... s begin\n#... s hash 01D09D19C2139A46AEBFB577780D123D7396E97201BC7EAD210A2EBFF8239DEE\n" ++
    "old\n#... s end\n").toList

/-- The edit of a source travels to a file that has none, and to one that is created. -/
theorem edited_source_travels :
    let source : Document := { (ofText ['#'] none editedSource).1 with isReadOnly := false }
    let view := filesOnly [(['f'], compiledTarget)]
    (∃ after notices, (load ['f'] (some ['#']) .empty).report
        ⟨view.host, ((Operation.apply source .empty).report view).2⟩ = (.ok after, notices) ∧
      ¬ AddsNoEdit (ofFile ['#'] view ⟨.none, [['f']]⟩ compiledTarget) after) ∧
    ∃ after notices, (load ['f'] (some ['#']) .empty).report
        ⟨view.host, ((Operation.apply source .empty).report (filesOnly [])).2⟩ = (.ok after, notices) ∧
      ¬ ∀ s ∈ after.tracked, s.isModified = false := by
  intro source view
  have htarget : source.target = some ['f'] := by decide +kernel
  constructor
  · obtain ⟨-, hdisk⟩ := uncompiled_sections_travel_iff ['#'] ['#'] none none compiledTarget
      editedSource false .empty view
    obtain ⟨hupdate, -⟩ := hdisk ['f'] ⟨.none, [['f']]⟩ htarget rfl
    obtain ⟨notices, hload⟩ := outcome_load (comment_file_of_files_only compiledTarget)
      (Text.decode_encode _) ['#'] .empty []
    obtain ⟨after, notices', hafter, -, hadds⟩ := hupdate rfl rfl _ notices hload
    refine ⟨after, notices', hafter, hadds (ok_of_to_option ?_) ?_⟩
    · decide +kernel
    · exact ⟨rfl, by decide +kernel, by decide +kernel, by decide +kernel, by decide +kernel⟩
  · obtain ⟨-, hdisk⟩ := uncompiled_sections_travel_iff ['#'] ['#'] none none compiledTarget
      editedSource false .empty (filesOnly [])
    obtain ⟨-, hcreate⟩ := hdisk ['f'] ⟨.none, [['f']]⟩ htarget rfl
    let run := (Operation.apply source .empty).report (filesOnly [])
    have hcreated : run.1.1 = .ok .created := ok_of_to_option (by decide +kernel)
    have hfile : CommentFile ⟨view.host, run.2⟩ ['f'] ⟨.none, [['f']]⟩
        (source.createdFrom ⟨.none, [['f']]⟩).write.encode :=
      ⟨rfl, rfl, List.not_mem_nil, ok_of_to_option (by decide +kernel),
        ⟨.none, [['f'] ++ Sidecar.extension]⟩, rfl, .inr (ok_of_to_option (by decide +kernel))⟩
    obtain ⟨notices, hload⟩ := outcome_load hfile (Text.decode_encode _) ['#'] .empty []
    refine ⟨_, notices, hload, ?_⟩
    intro h
    have hunmodified := (hcreate hcreated ['f'] _ notices rfl hload).1 h
    exact hunmodified ⟨by decide +kernel, rfl⟩

/-- A document without edits has one that it did not have after it took from an edited source. -/
theorem edited_section_taken :
    ¬ ∀ s ∈ ((ofText ['#'] none compiledTarget).1.apply
        (ofText ['#'] none editedSource).1).target.tracked, s.isModified = true →
      ∃ s₀ ∈ (ofText ['#'] none compiledTarget).1.tracked,
        s₀.name = s.name ∧ s₀.content = s.content ∧ s₀.accepted = s.accepted := by
  decide +kernel

end TrackedSections.Document
