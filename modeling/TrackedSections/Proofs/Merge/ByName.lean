import Mathlib.Data.List.Nodup
import TrackedSections.Proofs.Merge.Overlay
import TrackedSections.Proofs.Merge.Reachable

/-!
# Merging by name

A target that has edits, or sections which its source lacks, takes the sections of the source one by
one, and so it does when only some names are wanted. Read `merges_by_name` first: each section of the target
takes that of its name, if it is wanted and neither was edited, and the order of the source and of
the names does not matter.
-/

namespace TrackedSections.Document

open Effect

variable {target source : Document}

/-- A section is offered the section of its name in a source, if neither was edited. -/
def Offers (source : Document) (s c : Tracked) : Prop :=
  source.get? s.name = some c ∧ s.isModified = false ∧ c.isModified = false

/-- The sections of some names in a source. -/
def named (source : Document) (names : List (Option Text)) : List Tracked :=
  names.filterMap fun name => name.bind source.get?

/-! ## Sections of different names -/

/-- Sections of different names are unambiguous. -/
theorem unambiguous_of_nodup (h : source.names.Nodup) : Unambiguous source.tracked :=
  fun _ hc _ hc' hname => List.inj_on_of_nodup_map h hc hc' hname

/-- Among sections of different names, the one of a name is found. -/
theorem get_eq_some_iff (h : source.names.Nodup) {name : Text} {c : Tracked} :
    source.get? name = some c ↔ c ∈ source.tracked ∧ c.name = name := by
  refine ⟨fun hget => ⟨mem_tracked_of_get hget, by simpa using List.find?_some hget⟩, ?_⟩
  rintro ⟨hc, rfl⟩
  cases hget : source.get? c.name with
  | none => exact absurd (decide_eq_true rfl) (List.find?_eq_none.1 hget c hc)
  | some c' =>
      have hname : c'.name = c.name := by simpa using List.find?_some hget
      exact congrArg some (unambiguous_of_nodup h c' (mem_tracked_of_get hget) c hc hname)

/-- The sections of some names are those that have one of the names. -/
theorem mem_named_iff (h : source.names.Nodup) {names : List (Option Text)} {c : Tracked} :
    c ∈ source.named names ↔ c ∈ source.tracked ∧ some c.name ∈ names := by
  rw [named, List.mem_filterMap]
  constructor
  · rintro ⟨name, hname, hc⟩
    obtain ⟨t, rfl, hget⟩ := Option.bind_eq_some_iff.1 hc
    obtain ⟨hmem, rfl⟩ := (get_eq_some_iff h).1 hget
    exact ⟨hmem, hname⟩
  · rintro ⟨hmem, hname⟩
    exact ⟨some c.name, hname, (get_eq_some_iff h).2 ⟨hmem, rfl⟩⟩

/-- Sections that are found by different names are unambiguous. -/
theorem unambiguous_named (h : source.names.Nodup) (names : List (Option Text)) :
    Unambiguous (source.named names) := fun c hc c' hc' =>
  unambiguous_of_nodup h c ((mem_named_iff h).1 hc).1 c' ((mem_named_iff h).1 hc').1

/-! ## One after another -/

/-- Sections that are taken one after another are taken. -/
theorem Took.apply_each (hsidecar : target.sidecar = none) (hnodup : target.names.Nodup)
    {done rest : List Tracked} (hsame : Unambiguous (done ++ rest)) {merged : Document} {isChanged : Bool}
    (h : target.Took done merged isChanged) :
    target.Took (done ++ rest) (merged.applyEach rest).1
      (isChanged || decide ((merged.applyEach rest).2.1 ≠ 0)) := by
  induction rest generalizing done merged isChanged with
  | nil => simpa [applyEach] using h
  | cons c rest ih =>
      have hc : ∀ c' ∈ done, c'.name = c.name → c' = c := fun c' hc' =>
        hsame c' (List.mem_append_left _ hc') c (List.mem_append_right _ List.mem_cons_self)
      rw [List.append_cons] at hsame ⊢
      have hrest := ih hsame (h.apply_section hsidecar hnodup hc)
      have hcount : (isChanged || decide ((merged.applyEach (c :: rest)).2.1 ≠ 0)) =
          (isChanged || (merged.applySection c).isChanged ||
            decide (((merged.applySection c).target.applyEach rest).2.1 ≠ 0)) := by
        rw [Bool.or_assoc, applyEach]
        cases (merged.applySection c).isChanged <;> simp
      rw [hcount]
      exact hrest

/-- The sections of some names are taken, those of absent names left out. -/
theorem Took.apply_names (hsidecar : target.sidecar = none) (hnodup : target.names.Nodup)
    {names : List (Option Text)} {done : List Tracked} (hsame : Unambiguous (done ++ source.named names))
    {merged : Document} {isChanged : Bool} (h : target.Took done merged isChanged) :
    target.Took (done ++ source.named names) (merged.applyNames source names).target
      (isChanged || (merged.applyNames source names).isChanged) := by
  induction names generalizing done merged isChanged with
  | nil => simpa [applyNames, named, Merged.none] using h
  | cons name rest ih =>
      rw [applyNames]
      cases hname : name.bind source.get? with
      | none =>
          have hnamed : source.named (name :: rest) = source.named rest := by
            rw [named, List.filterMap_cons, hname]
            rfl
          rw [hnamed] at hsame ⊢
          simpa [Merged.none] using ih hsame h
      | some c =>
          have hnamed : source.named (name :: rest) = c :: source.named rest := by
            rw [named, List.filterMap_cons, hname]
            rfl
          rw [hnamed] at hsame ⊢
          have hc : ∀ c' ∈ done, c'.name = c.name → c' = c := fun c' hc' =>
            hsame c' (List.mem_append_left _ hc') c (List.mem_append_right _ List.mem_cons_self)
          rw [List.append_cons] at hsame ⊢
          rw [← Bool.or_assoc]
          exact ih hsame (h.apply_section hsidecar hnodup hc)

/-! ## Taking by name -/

/-- A target with edits, or with sections that its source lacks, does not take all sections at once. -/
theorem takes_all_eq_false
    (h : target.isModified = true ∨ ∃ name ∈ target.names, name ∉ source.names) :
    target.takesAll source = false := by
  rcases h with hmodified | ⟨name, hmem, hlacks⟩
  · rw [takesAll, hmodified]
    rfl
  · rw [takesAll, Bool.and_eq_false_iff]
    refine .inr (List.all_eq_false.2 ⟨name, hmem, ?_⟩)
    simpa using hlacks

/-- A target that takes all sections at once takes those of the source, and reports it. -/
theorem apply_of_takes_all (hsidecar : target.sidecar = none) (hobstacle : target.obstacle? source = none)
    (hall : target.takesAll source = true) :
    (target.apply source).target =
        { target with sections := source.sections, markers := source.markers } ∧
      (target.apply source).isChanged = true := by
  have happly : target.apply source = target.applySections source := by
    rw [apply, hobstacle]
    dsimp only
    rw [hsidecar]
  rw [happly, applySections, if_pos hall]
  exact ⟨rfl, rfl⟩

/-- Such a target takes all sections of its source one after another. -/
theorem took_of_apply (hsidecar : target.sidecar = none) (hobstacle : target.obstacle? source = none)
    (hall : target.takesAll source = false) (hnodup : target.names.Nodup)
    (hsource : source.names.Nodup) :
    target.Took source.tracked (target.apply source).target (target.apply source).isChanged := by
  have happly : target.apply source = target.applySections source := by
    rw [apply, hobstacle]
    dsimp only
    rw [hsidecar]
  have heach : target.Took ([] ++ source.tracked) _ _ :=
    (took_nil target).apply_each hsidecar hnodup (unambiguous_of_nodup hsource)
  rw [happly, applySections, hall, if_neg Bool.false_ne_true]
  simpa using heach

/-- A target takes the sections of the names that are wanted from the source of an update. -/
theorem update_from_source (hsidecar : target.sidecar = none) (hobstacle : target.obstacle? source = none)
    (cache : SourceCache) {names : List (Option Text)} (hnames : names ≠ []) (view : View) :
    let run := target.update cache names (some source) view
    run.1 = .ok () ∧ run.2.target = (target.applyNames source names).target ∧
      run.2.isChanged = (target.applyNames source names).isChanged := by
  have hno : target.hasSidecar = false := congrArg Option.isSome hsidecar
  have hwanted : (!names.isEmpty && !target.hasSidecar) = true := by
    rw [hno, List.isEmpty_eq_false_iff.2 hnames]
    rfl
  have hnamed : target.applyNamed source names = target.applyNames source names := by
    rw [applyNamed, hobstacle]
  dsimp only
  rw [Pulling.update_from_eq, if_pos hwanted, hnamed]
  exact ⟨rfl, rfl, Bool.false_or _⟩

/-- From the source of an update, a target takes the sections of the names that are wanted. -/
theorem took_of_update (hsidecar : target.sidecar = none) (hobstacle : target.obstacle? source = none)
    (hnodup : target.names.Nodup) (hsource : source.names.Nodup) (cache : SourceCache)
    {names : List (Option Text)} (hnames : names ≠ []) (view : View) :
    let run := target.update cache names (some source) view
    run.1 = .ok () ∧ target.Took (source.named names) run.2.target run.2.isChanged := by
  obtain ⟨hok, htarget, hchanged⟩ := update_from_source hsidecar hobstacle cache hnames view
  refine ⟨hok, ?_⟩
  rw [htarget, hchanged]
  simpa using (took_nil target).apply_names hsidecar hnodup (unambiguous_named hsource names)

/-! ## The order of the source -/

section Order

variable {sections : List Section} (horder : sections.Perm source.sections)
include horder

/-- Sections in another order are the same sections. -/
theorem tracked_perm : ({ source with sections } : Document).tracked.Perm source.tracked :=
  horder.filterMap _

theorem names_nodup_of_perm (h : source.names.Nodup) :
    ({ source with sections } : Document).names.Nodup :=
  ((tracked_perm horder).map _).nodup_iff.2 h

/-- What stands against applying a source does not depend on the order of its sections. -/
theorem obstacle_of_perm (h : target.obstacle? source = none) :
    target.obstacle? { source with sections } = none := by
  have hmanaged : ({ source with sections } : Document).isManaged = source.isManaged := by
    have hempty : ({ source with sections } : Document).tracked.isEmpty = source.tracked.isEmpty := by
      rw [Bool.eq_iff_iff, List.isEmpty_iff, List.isEmpty_iff, ← List.length_eq_zero_iff,
        ← List.length_eq_zero_iff, (tracked_perm horder).length_eq]
    rw [isManaged, isManaged, hempty]
    rfl
  rw [← h, obstacle?, obstacle?, hmanaged]
  rfl

/-- Whether all sections are taken at once does not depend on the order of the source. -/
theorem takes_all_of_perm :
    target.takesAll { source with sections } = target.takesAll source := by
  have hcontains : ({ source with sections } : Document).names.contains = source.names.contains :=
    funext fun name => by
      rw [Bool.eq_iff_iff, List.contains_iff_mem, List.contains_iff_mem]
      exact ((tracked_perm horder).map _).mem_iff
  rw [takesAll, takesAll, hcontains]

end Order

/-- Between documents with comments, a target that has edits or sections which its source lacks takes from
each section of the source that no one edited what it has under the name of a section of its own that no
one edited, and so it does from the source of an update for the names that are wanted, which may be
repeated or unknown. All other sections keep everything but their place, and nothing else changes. What
comes out depends neither on the order of the source nor on that of the names. Sections have different
names, as they have in every document that was read. -/
theorem merges_by_name (hsidecar : target.sidecar = none) (hobstacle : target.obstacle? source = none)
    (hnodup : target.names.Nodup) (hsource : source.names.Nodup) :
    ((target.isModified = true ∨ ∃ name ∈ target.names, name ∉ source.names) →
      target.TakesEach source.Offers (target.apply source).target (target.apply source).isChanged ∧
      ∀ sections, sections.Perm source.sections →
        (target.apply { source with sections }).target = (target.apply source).target) ∧
    ∀ (cache : SourceCache) (names : List (Option Text)) (view : View), names ≠ [] →
      let run := target.update cache names (some source) view
      run.1 = .ok () ∧
      target.TakesEach (fun s c => some s.name ∈ names ∧ source.Offers s c) run.2.target run.2.isChanged ∧
      (∀ sections, sections.Perm source.sections →
        (target.update cache names (some { source with sections }) view).2.target = run.2.target) ∧
      ∀ names', (∀ name, name ∈ names' ↔ name ∈ names) →
        (target.update cache names' (some source) view).2.target = run.2.target := by
  have hsame := unambiguous_of_nodup hsource
  constructor
  · intro hedits
    have hall := takes_all_eq_false hedits
    have htook := took_of_apply hsidecar hobstacle hall hnodup hsource
    refine ⟨htook.takes_each hsame fun s _ c => ?_, fun sections horder => ?_⟩
    · rw [Offers, get_eq_some_iff hsource, and_assoc]
    · have htook' := took_of_apply hsidecar (obstacle_of_perm horder hobstacle)
        ((takes_all_of_perm horder).trans hall) hnodup (names_nodup_of_perm horder hsource)
      rw [htook.target_eq, htook'.target_eq]
      exact taking_congr hsame fun c => (tracked_perm horder).mem_iff
  · intro cache names view hnames
    obtain ⟨hok, htook⟩ := took_of_update hsidecar hobstacle hnodup hsource cache hnames view
    refine ⟨hok, htook.takes_each (unambiguous_named hsource names) fun s _ c => ?_,
      fun sections horder => ?_, fun names' hsame => ?_⟩
    · rw [Offers, get_eq_some_iff hsource, mem_named_iff hsource]
      constructor
      · rintro ⟨hname, ⟨hc, hcname⟩, hmodified⟩
        exact ⟨⟨hc, hcname.symm ▸ hname⟩, hcname, hmodified⟩
      · rintro ⟨⟨hc, hname⟩, hcname, hmodified⟩
        exact ⟨hcname ▸ hname, ⟨hc, hcname⟩, hmodified⟩
    · have hsource' := names_nodup_of_perm horder hsource
      obtain ⟨-, htook'⟩ := took_of_update hsidecar (obstacle_of_perm horder hobstacle) hnodup hsource'
        cache hnames view
      rw [htook.target_eq, htook'.target_eq]
      refine taking_congr (unambiguous_named hsource names) fun c => ?_
      rw [mem_named_iff hsource', mem_named_iff hsource, (tracked_perm horder).mem_iff]
    · have hnames' : names' ≠ [] := by
        obtain ⟨name, hname⟩ := List.exists_mem_of_ne_nil names hnames
        exact List.ne_nil_of_mem ((hsame name).2 hname)
      obtain ⟨-, htook'⟩ := took_of_update hsidecar hobstacle hnodup hsource cache hnames' view
      rw [htook.target_eq, htook'.target_eq]
      refine taking_congr (unambiguous_named hsource names) fun c => ?_
      rw [mem_named_iff hsource, mem_named_iff hsource, hsame]

/-- A document with a section `a` that comes from the file `f`, a line of its own, and an edited section
`b`. -/
def halfEdited : Document :=
  { Document.empty ['#'] none true with
    sections :=
      [.tracked ⟨1, 5, ['a'], ['0'], some ['f'], "old\n".toList, ['0']⟩, .plain ⟨6, 6, "own\n".toList⟩,
        .tracked ⟨7, 10, ['b'], ['0'], none, "mine\n".toList, ['1']⟩] }

/-- A source with more lines for both sections, in another order. -/
def longerPair : Document :=
  { Document.empty ['#'] none true with
    sections :=
      [.tracked ⟨1, 5, ['b'], ['2'], none, "new\nmore\n".toList, ['2']⟩,
        .tracked ⟨6, 10, ['a'], ['3'], none, "new\nmore\n".toList, ['3']⟩] }

/-- An edited document takes the section that was not edited, however the names are repeated and ordered.
The edited section after it moves by a line. -/
theorem half_edited_merges_by_name :
    let names := [some ['b'], none, some ['a'], some ['x'], some ['a']]
    let update (names : List (Option Text)) :=
      halfEdited.update (.empty none .empty) names (some longerPair) (filesOnly [])
    let applied := halfEdited.apply longerPair
    (halfEdited.sidecar = none ∧ halfEdited.obstacle? longerPair = none ∧ halfEdited.names.Nodup ∧
      longerPair.names.Nodup ∧ halfEdited.isModified = true ∧ names ≠ []) ∧
    halfEdited.TakesEach longerPair.Offers applied.target applied.isChanged ∧
    (update names).1 = .ok () ∧ (update names.reverse).2.target = (update names).2.target ∧
    (update names).2.target.sections =
      [.tracked ⟨1, 6, ['a'], ['3'], some ['f'], "new\nmore\n".toList, ['3']⟩,
        .plain ⟨7, 7, "own\n".toList⟩, .tracked ⟨8, 11, ['b'], ['0'], none, "mine\n".toList, ['1']⟩] := by
  intro names update applied
  have hobstacle : halfEdited.obstacle? longerPair = none := rfl
  have htarget : halfEdited.names.Nodup := by decide
  have hsource : longerPair.names.Nodup := by decide
  have hnames : names ≠ [] := by decide
  obtain ⟨happly, hupdate⟩ := merges_by_name rfl hobstacle htarget hsource
  obtain ⟨hok, -, -, horder⟩ := hupdate (.empty none .empty) names (filesOnly []) hnames
  exact ⟨⟨rfl, hobstacle, htarget, hsource, rfl, hnames⟩, (happly (.inl rfl)).1, hok,
    horder names.reverse fun name => List.mem_reverse, by decide +kernel⟩

end TrackedSections.Document
