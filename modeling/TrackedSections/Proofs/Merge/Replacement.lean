import TrackedSections.Merge

/-!
# What taking from a source does

`apply_section_cases` says all that taking a section can do to a document: nothing, or what
`Replaces` describes, which is to replace the first section of its name and to move those after it.
`apply_cases` says the same of taking from a source: nothing is taken, or all sections at once, or
sections one after another.
-/

namespace TrackedSections.Document

/-- Some sections and the same sections after the first one with the name of the candidate, which was
not modified, took its content. -/
inductive Replaces (candidate : Tracked) : List Section → List Section → Prop where
  | here {s : Tracked} {rest : List Section} (hname : s.name = candidate.name)
      (hmodified : s.isModified = false) :
      Replaces candidate (.tracked s :: rest)
        (.tracked (s.take candidate) :: rest.map (·.shift ((s.take candidate).last - s.last)))
  | plain {s : Plain} {rest replaced : List Section} (hrest : Replaces candidate rest replaced) :
      Replaces candidate (.plain s :: rest) (.plain s :: replaced)
  | tracked {s : Tracked} {rest replaced : List Section} (hname : s.name ≠ candidate.name)
      (hrest : Replaces candidate rest replaced) :
      Replaces candidate (.tracked s :: rest) (.tracked s :: replaced)

/-- A replacement that is done has another one after its first section, when that stays. -/
theorem replacement_cons_done {s : Section} {r : Replacement} {replaced : List Section}
    (h : r.cons s = .done replaced) : ∃ rest, r = .done rest ∧ replaced = s :: rest := by
  cases r with
  | absent | kept t => cases h
  | done rest => exact ⟨rest, rfl, (Replacement.done.inj h).symm⟩

/-- Replacing does what `Replaces` says. -/
theorem replaces_of_done {candidate : Tracked} {sections replaced : List Section}
    (h : replace candidate sections = .done replaced) : Replaces candidate sections replaced := by
  induction sections generalizing replaced with
  | nil => cases h
  | cons s rest ih =>
      cases s with
      | plain s =>
          obtain ⟨others, hothers, rfl⟩ := replacement_cons_done h
          exact .plain (ih hothers)
      | tracked s =>
          rw [replace] at h
          split at h
          · next hname =>
              split at h
              · cases h
              · next hmodified =>
                  obtain rfl := (Replacement.done.inj h).symm
                  exact .here hname (by simpa using hmodified)
          · next hname =>
              obtain ⟨others, hothers, rfl⟩ := replacement_cons_done h
              exact .tracked hname (ih hothers)

/-- Taking a section that is not modified replaces one, or nothing happens. -/
theorem apply_section_cases (target : Document) (candidate : Tracked) :
    ((target.applySection candidate).target = target ∧
      (target.applySection candidate).isChanged = false) ∨
    (candidate.isModified = false ∧ ∃ sections, Replaces candidate target.sections sections ∧
      (target.applySection candidate).target = { target with sections } ∧
      (target.applySection candidate).isChanged = true) := by
  unfold applySection
  split
  · exact .inl ⟨rfl, rfl⟩
  · split
    · exact .inl ⟨rfl, rfl⟩
    · next hcandidate =>
        split
        · exact .inl ⟨rfl, rfl⟩
        · exact .inl ⟨rfl, rfl⟩
        · next sections hdone =>
            exact .inr ⟨by simpa using hcandidate, sections, replaces_of_done hdone, rfl, rfl⟩

/-- Taking a section changes nothing but sections. -/
theorem apply_section_frame (target : Document) (candidate : Tracked) :
    ∃ sections, (target.applySection candidate).target = { target with sections } := by
  rcases apply_section_cases target candidate with ⟨hsame, -⟩ | ⟨-, sections, -, hdone, -⟩
  · exact ⟨target.sections, hsame⟩
  · exact ⟨sections, hdone⟩

/-! ## What taking a section maintains -/

/-- The first section of a name is one of the sections. -/
theorem mem_tracked_of_get {d : Document} {name : Text} {s : Tracked} (h : d.get? name = some s) :
    s ∈ d.tracked :=
  List.mem_of_find?_eq_some h

section

variable {p : Document → Prop}

/-- Taking sections one after another maintains what taking each of them does. -/
theorem apply_each_maintains {candidates : List Tracked}
    (hsection : ∀ c ∈ candidates, ∀ d, p d → p (d.applySection c).target) {target : Document}
    (h : p target) : p (target.applyEach candidates).1 := by
  induction candidates generalizing target with
  | nil => exact h
  | cons candidate rest ih =>
      obtain ⟨hfirst, hrest⟩ := List.forall_mem_cons.1 hsection
      exact ih hrest (hfirst target h)

variable {source : Document} (hsection : ∀ c ∈ source.tracked, ∀ d, p d → p (d.applySection c).target)
include hsection

/-- Taking the sections of some names maintains what taking each section of the source does. -/
theorem apply_names_maintains {target : Document} (h : p target) (names : List (Option Text)) :
    p (target.applyNames source names).target := by
  induction names generalizing target with
  | nil => exact h
  | cons name rest ih =>
      rw [applyNames]
      cases hcandidate : name.bind source.get? with
      | none => exact ih h
      | some candidate =>
          obtain ⟨_, -, hget⟩ := Option.bind_eq_some_iff.1 hcandidate
          exact ih (hsection candidate (mem_tracked_of_get hget) target h)

/-- Taking wanted sections from a source maintains what taking each of its sections does. -/
theorem apply_named_maintains {target : Document} (h : p target) (names : List (Option Text)) :
    p (target.applyNamed source names).target := by
  unfold applyNamed
  split
  · exact h
  · exact apply_names_maintains hsection h names

end

/-- Taking sections one after another changes nothing but sections. -/
theorem apply_each_frame (target : Document) (candidates : List Tracked) :
    ∃ sections, (target.applyEach candidates).1 = { target with sections } := by
  refine apply_each_maintains (p := fun d => ∃ sections, d = { target with sections }) ?_
    ⟨target.sections, rfl⟩
  rintro c - _ ⟨sections, rfl⟩
  exact apply_section_frame { target with sections } c

/-! ## Taking from a source -/

/-- A document without a sidecar takes nothing from a source, or all sections at once, or sections one
after another. -/
theorem apply_cases {target : Document} (hsidecar : target.sidecar = none) (source : Document) :
    ((target.apply source).target = target ∧ (target.apply source).isChanged = false ∧
      target.obstacle? source ≠ none) ∨
    (target.obstacle? source = none ∧ target.takesAll source = true ∧
      (target.apply source).target =
        { target with sections := source.sections, markers := source.markers }) ∨
    (target.obstacle? source = none ∧ target.takesAll source = false ∧
      (target.apply source).target = (target.applyEach source.tracked).1) := by
  unfold apply
  split
  · next notice hobstacle => exact .inl ⟨rfl, rfl, by simp [hobstacle]⟩
  · next hobstacle =>
      right
      split
      · next mine theirs hmine htheirs => exact absurd hmine (by simp [hsidecar])
      · unfold applySections
        split
        · next hall => exact .inl ⟨hobstacle, hall, rfl⟩
        · next hall => exact .inr ⟨hobstacle, by simpa using hall, rfl⟩

/-- A document without a sidecar that takes from a source changes nothing but its sections and the
markers that are known of it. -/
theorem apply_frame {target : Document} (hsidecar : target.sidecar = none) (source : Document) :
    ∃ sections markers, (target.apply source).target = { target with sections, markers } := by
  rcases apply_cases hsidecar source with ⟨hsame, -⟩ | ⟨-, -, hall⟩ | ⟨-, -, heach⟩
  · exact ⟨target.sections, target.markers, hsame⟩
  · exact ⟨source.sections, source.markers, hall⟩
  · obtain ⟨sections, h⟩ := apply_each_frame target source.tracked
    exact ⟨sections, target.markers, heach.trans h⟩

/-- The names of the tracked sections among some sections. -/
def namesOf (sections : List Section) : List Text :=
  (sections.filterMap (·.tracked?)).map (·.name)

/-- Sections that move keep their names. -/
theorem names_of_map_shift (delta : Int) (sections : List Section) :
    namesOf (sections.map (·.shift delta)) = namesOf sections := by
  induction sections with
  | nil => rfl
  | cons s rest ih =>
      cases s with
      | plain s => exact ih
      | tracked s => exact congrArg (s.name :: ·) ih

/-- A section that is replaced keeps its name. -/
theorem Replaces.names_eq {candidate : Tracked} {sections replaced : List Section}
    (h : Replaces candidate sections replaced) : namesOf replaced = namesOf sections := by
  induction h with
  | @here s rest hname hmodified => exact congrArg (s.name :: ·) (names_of_map_shift _ rest)
  | plain hrest ih => exact ih
  | @tracked s rest replaced hname hrest ih => exact congrArg (s.name :: ·) ih

end TrackedSections.Document
