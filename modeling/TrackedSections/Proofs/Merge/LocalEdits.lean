import TrackedSections.Proofs.Merge.Updating

/-!
# Local edits are kept

The local edits of a document are its modified sections wherever they stand, and `before.Keeps after`
says that those of `before` are among those of `after` in the same order, and that a modified sidecar
stays as it is. Every way of taking something from a source keeps the local edits
(`apply_section_keeps`, `apply_keeps`, `update_keeps`), so any sequence of them does.
-/

namespace TrackedSections

/-- A section wherever it stands. -/
def Tracked.unplaced (s : Tracked) : Tracked := { s with first := 0, last := 0 }

@[simp] theorem Tracked.is_modified_unplaced (s : Tracked) :
    s.unplaced.isModified = s.isModified :=
  rfl

namespace Document

/-- The local edits of some sections: the modified ones wherever they stand. -/
def editsOf (sections : List Section) : List Tracked :=
  ((sections.filterMap (·.tracked?)).map (·.unplaced)).filter (·.isModified)

/-- The local edits of a document. -/
def edits (d : Document) : List Tracked := editsOf d.sections

/-- The local edits of one document are among those of another one in the same order, and a modified
sidecar is the same in both. -/
structure Keeps (before after : Document) : Prop where
  edits : before.edits.Sublist after.edits
  sidecar : ∀ s, before.sidecar = some s → s.isModified = true → after.sidecar = some s

theorem Keeps.refl (d : Document) : d.Keeps d := ⟨List.Sublist.refl _, fun _ h _ => h⟩

/-- The same edits and the same sidecar are kept. -/
theorem Keeps.of_eq {d e : Document} (hedits : e.edits = d.edits) (hsidecar : e.sidecar = d.sidecar) :
    d.Keeps e where
  edits := hedits ▸ List.Sublist.refl _
  sidecar _ hs _ := hsidecar.trans hs

theorem Keeps.trans {d e f : Document} (h : d.Keeps e) (h' : e.Keeps f) : d.Keeps f where
  edits := h.edits.trans h'.edits
  sidecar s hs hmodified := h'.sidecar s (h.sidecar s hs hmodified) hmodified

@[simp] theorem edits_of_plain_cons (s : Plain) (rest : List Section) :
    editsOf (.plain s :: rest) = editsOf rest := rfl

/-- A tracked section in front contributes itself if it is modified. -/
theorem edits_of_tracked_cons (s : Tracked) (rest : List Section) :
    editsOf (.tracked s :: rest) =
      (if s.isModified then [s.unplaced] else []) ++ editsOf rest := by
  have hcons : editsOf (.tracked s :: rest) = ([s.unplaced].filter (·.isModified)) ++ editsOf rest :=
    List.filter_append [s.unplaced] _
  rw [hcons, List.filter_cons, Tracked.is_modified_unplaced, List.filter_nil]

/-- Sections that move have the same edits. -/
theorem edits_of_map_shift (delta : Int) (sections : List Section) :
    editsOf (sections.map (·.shift delta)) = editsOf sections := by
  induction sections with
  | nil => rfl
  | cons s rest ih =>
      cases s with
      | plain s => exact ih
      | tracked s =>
          rw [List.map_cons, Section.shift, edits_of_tracked_cons, edits_of_tracked_cons, ih]
          rfl

/-- Replacing a section by an unmodified one keeps the edits. -/
theorem Replaces.edits_eq {candidate : Tracked} (hcandidate : candidate.isModified = false)
    {sections replaced : List Section} (h : Replaces candidate sections replaced) :
    editsOf replaced = editsOf sections := by
  induction h with
  | @here s rest hname hmodified =>
      have htaken : (s.take candidate).isModified = false := hcandidate
      rw [edits_of_tracked_cons, edits_of_tracked_cons, edits_of_map_shift, htaken, hmodified]
      rfl
  | plain hrest ih => rw [edits_of_plain_cons, edits_of_plain_cons, ih]
  | tracked hname hrest ih => rw [edits_of_tracked_cons, edits_of_tracked_cons, ih]

/-! ## Taking from a source in memory -/

/-- Taking one section leaves the edits as they are. -/
theorem edits_apply_section (target : Document) (candidate : Tracked) :
    (target.applySection candidate).target.edits = target.edits := by
  rcases apply_section_cases target candidate with ⟨hsame, -⟩ | ⟨hcandidate, sections, h, hdone, -⟩
  · rw [hsame]
  · rw [hdone, edits, edits]
    exact h.edits_eq hcandidate

/-- Taking sections one after another leaves the edits as they are. -/
theorem edits_apply_each (target : Document) (candidates : List Tracked) :
    (target.applyEach candidates).1.edits = target.edits :=
  apply_each_maintains (p := fun d => d.edits = target.edits)
    (fun c _ d hd => (edits_apply_section d c).trans hd) rfl

/-- Taking one section keeps the local edits. -/
theorem apply_section_keeps (target : Document) (candidate : Tracked) :
    target.Keeps (target.applySection candidate).target := by
  obtain ⟨sections, hframe⟩ := apply_section_frame target candidate
  refine .of_eq (edits_apply_section target candidate) ?_
  rw [hframe]

/-- Taking sections one after another keeps the local edits. -/
theorem apply_each_keeps (target : Document) (candidates : List Tracked) :
    target.Keeps (target.applyEach candidates).1 :=
  apply_each_maintains (fun c _ d hd => hd.trans (apply_section_keeps d c)) (.refl target)

/-- A document has no edits when none of its sections is modified. -/
theorem edits_eq_nil_iff {d : Document} : d.edits = [] ↔ ∀ s ∈ d.tracked, s.isModified = false := by
  rw [edits, editsOf, List.filter_eq_nil_iff, List.forall_mem_map]
  simp only [Tracked.is_modified_unplaced, Bool.not_eq_true]
  exact Iff.rfl

/-- A document without a sidecar has no edits when it is not modified. -/
theorem unmodified_iff {d : Document} (hsidecar : d.sidecar = none) :
    d.isModified = false ↔ d.edits = [] := by
  rw [edits_eq_nil_iff]
  unfold isModified
  rw [hsidecar]
  dsimp only
  rw [List.any_eq_false]
  simp only [Bool.not_eq_true]

/-- Taking the sections of a source between documents with comments keeps the local edits. -/
theorem apply_sections_keeps {target : Document} (hsidecar : target.sidecar = none)
    (source : Document) : target.Keeps (target.applySections source).target := by
  unfold applySections
  split
  · next hall =>
      obtain ⟨hmodified, -⟩ : target.isModified = false ∧ _ := by
        simpa [takesAll] using hall
      refine ⟨?_, fun s hs _ => hs⟩
      rw [(unmodified_iff hsidecar).1 hmodified]
      exact List.nil_sublist _
  · exact apply_each_keeps target source.tracked

/-- Taking the whole content of a document with a sidecar keeps the local edits. -/
theorem apply_sidecar_keeps {target source : Document} {mine theirs : Sidecar}
    (hmine : target.sidecar = some mine) :
    target.Keeps (target.applySidecar source mine theirs).target := by
  unfold applySidecar
  split
  · exact .refl target
  · next hmodified =>
      split
      · exact .refl target
      · split
        · exact .refl target
        · refine ⟨List.Sublist.refl _, ?_⟩
          intro s hs hsmodified
          obtain rfl : mine = s := Option.some.inj (hmine.symm.trans hs)
          exact absurd hsmodified hmodified

/-- A source with a sidecar is all that a target with one can take from. -/
theorem sidecar_of_obstacle {target source : Document} (h : target.obstacle? source = none)
    (htarget : target.hasSidecar = true) : source.hasSidecar = true := by
  rw [obstacle?, if_pos htarget] at h
  split at h
  · assumption
  · cases h

/-- Taking from a source keeps the local edits. -/
theorem apply_keeps (target source : Document) : target.Keeps (target.apply source).target := by
  unfold apply
  split
  · exact .refl target
  · next hobstacle =>
      split
      · next mine theirs hmine htheirs => exact apply_sidecar_keeps hmine
      · next hnone =>
          refine apply_sections_keeps ?_ source
          cases htarget : target.sidecar with
          | none => rfl
          | some mine =>
              have hsource := sidecar_of_obstacle hobstacle (by rw [hasSidecar, htarget]; rfl)
              obtain ⟨theirs, htheirs⟩ := Option.isSome_iff_exists.1 hsource
              exact (hnone mine theirs htarget htheirs).elim

/-- Taking from a source or pulling from sources keeps the local edits, whether it fails or not. -/
theorem update_keeps (target : Document) (cache : SourceCache) (wanted : List (Option Text))
    (source : Option Document) (view : View) :
    target.Keeps (target.update cache wanted source view).2.target := by
  -- Nothing needs to be known of the sources.
  refine update_maintains (q := fun _ => True) (fun _ => trivial) ?_ ?_ (.refl target)
    (fun _ _ => trivial) wanted (fun _ _ => trivial) view
  · exact fun d e c h _ _ => h.trans (apply_section_keeps d c)
  · exact fun d e h _ => h.trans (apply_keeps d e)

end Document

/-! ## Sequences -/

/-- One way in which a target takes something. -/
inductive Taking where
  /-- The target takes one section. -/
  | oneSection (candidate : Tracked)
  /-- The target takes what it can from a document. -/
  | document (source : Document)
  /-- The target takes wanted sections from a document, or pulls them from the sources it names. -/
  | update (cache : SourceCache) (wanted : List (Option Text)) (source : Option Document)
    (view : View)

namespace Taking

/-- The target after it took something. -/
def run (target : Document) : Taking → Document
  | .oneSection candidate => (target.applySection candidate).target
  | .document source => (target.apply source).target
  | .update cache wanted source view => (target.update cache wanted source view).2.target

/-- Taking something keeps the local edits. -/
theorem run_keeps (target : Document) (step : Taking) : target.Keeps (step.run target) := by
  cases step with
  | oneSection candidate => exact Document.apply_section_keeps target candidate
  | document source => exact Document.apply_keeps target source
  | update cache wanted source view => exact Document.update_keeps target cache wanted source view

/-- Any sequence of takings keeps the local edits. -/
theorem foldl_run_keeps (target : Document) (steps : List Taking) :
    target.Keeps (steps.foldl run target) := by
  induction steps generalizing target with
  | nil => exact .refl target
  | cons step steps ih => exact (run_keeps target step).trans (ih _)

end Taking

end TrackedSections
