import TrackedSections.Proofs.Merge.ByName
import TrackedSections.Proofs.Merge.Reachable

/-!
# All sections at once, or one by one

A target without edits, all of whose sections are in its source, takes the sections of the source as
they are. `at_once_agrees` compares this with taking the same sections one by one: each section of the
target ends with the same content and digests either way, but a section that takes another one by name
keeps the source that it names when that one names none, and one that is replaced with all others does
not.
-/

namespace TrackedSections

/-- A tracked section stays one and keeps its name when it is merged. -/
theorem Section.Merged.exists_tracked {Offers : Tracked → Tracked → Prop} {s : Tracked} {merged : Section}
    (h : Section.Merged Offers (.tracked s) merged) : ∃ t, merged = .tracked t ∧ t.name = s.name := by
  cases h with
  | kept first last hnone => exact ⟨_, rfl, rfl⟩
  | taken first last hoffer => exact ⟨_, rfl, rfl⟩

namespace Document

variable {target source : Document}

/-- A target takes all sections at once when it has no edits and its names are all in the source. -/
theorem takes_all_iff : target.takesAll source = true ↔
    target.isModified = false ∧ ∀ name ∈ target.names, name ∈ source.names := by
  simp only [takesAll, Bool.and_eq_true, Bool.not_eq_true', List.all_eq_true, List.contains_iff_mem]

/-- What a section has become is found under its name among the sections that were merged. -/
theorem find_of_merged {Offers : Tracked → Tracked → Prop} {sections merged : List Section}
    (h : List.Forall₂ (Section.Merged Offers) sections merged) {name : Text} {s : Tracked}
    (hs : (trackedOf sections).find? (·.name = name) = some s) :
    ∃ t, (trackedOf merged).find? (·.name = name) = some t ∧
      Section.Merged Offers (.tracked s) (.tracked t) := by
  induction h with
  | nil => cases hs
  | @cons old new olds news hmerged hrest ih =>
      cases old with
      | plain old =>
          cases hmerged with
          | plain _ first last => exact ih hs
      | tracked old =>
          obtain ⟨new, rfl, hnew⟩ := hmerged.exists_tracked
          change (old :: trackedOf olds).find? _ = _ at hs
          change ∃ t, (new :: trackedOf news).find? _ = _ ∧ _
          by_cases hname : old.name = name
          · rw [List.find?_cons_of_pos (by simpa using hname)] at hs
            obtain rfl := Option.some.inj hs
            rw [List.find?_cons_of_pos (by simpa [hnew] using hname)]
            exact ⟨new, rfl, hmerged⟩
          · rw [List.find?_cons_of_neg (by simpa using hname)] at hs
            rw [List.find?_cons_of_neg (by simpa [hnew] using hname)]
            exact ih hs

/-- Between documents with comments, a target that takes all sections of a source at once could as well
take them one by one, as far as contents and digests go: each section of the target ends with those of
the section of its name, none of which was edited. The source that it names is then the one that this
section names, while taking one by one keeps that of the target where this section names none. Sections
have different names, as they have in every document that was read. -/
theorem at_once_agrees (hsidecar : target.sidecar = none) (hobstacle : target.obstacle? source = none)
    (hall : target.takesAll source = true) (hnodup : target.names.Nodup) (hsource : source.names.Nodup)
    (haccepted : ∀ c ∈ source.tracked, c.isModified = false) :
    ∀ name ∈ target.names, ∃ s c taken merged, target.get? name = some s ∧ source.get? name = some c ∧
      (target.apply source).target.get? name = some taken ∧
      (target.applyEach source.tracked).1.get? name = some merged ∧
      taken.content = merged.content ∧ taken.current = merged.current ∧
      taken.accepted = merged.accepted ∧ taken.source = c.source ∧
      merged.source = c.source.or s.source ∧
      (taken.source = merged.source ↔ c.source.isSome = true ∨ s.source = none) := by
  intro name hname
  obtain ⟨hunmodified, hnames⟩ := takes_all_iff.1 hall
  obtain ⟨s, hs⟩ := exists_get_of_mem_names hname
  obtain ⟨c, hc⟩ := exists_get_of_mem_names (hnames name hname)
  have htaken : (target.apply source).target.get? name = some c := by
    rw [(apply_of_takes_all hsidecar hobstacle hall).1]
    exact hc
  have htook : target.Took ([] ++ source.tracked) _ _ :=
    (took_nil target).apply_each hsidecar hnodup (unambiguous_of_nodup hsource)
  have hmerges : target.TakesEach source.Offers _ _ := htook.takes_each (unambiguous_of_nodup hsource)
    fun s _ c => by rw [Offers, get_eq_some_iff hsource, and_assoc, List.nil_append]
  obtain ⟨merged, hmerged, hmerge⟩ := find_of_merged hmerges.sections hs
  obtain ⟨hmem, rfl⟩ := (get_eq_some_iff hnodup).1 hs
  have hunedited : s.isModified = false := edits_eq_nil_iff.1 ((unmodified_iff hsidecar).1 hunmodified) s hmem
  have hoffer : source.Offers s c := ⟨hc, hunedited, haccepted c (mem_tracked_of_get hc)⟩
  cases hmerge with
  | kept first last hnone => exact absurd hoffer (hnone c)
  | @taken _ c' first last hoffer' =>
      obtain rfl : c = c' := Option.some.inj (hc.symm.trans hoffer'.1)
      refine ⟨s, c, c, _, hs, hc, htaken, hmerged, rfl, rfl, rfl, rfl, rfl, ?_⟩
      cases c.source <;> cases s.source <;> simp

/-- A section that names a source takes one that names none, with all sections at once and one by one. -/
theorem sourced_target_agrees :
    let target := (ofText ['#'] none sourcedTarget).1
    let source := (ofText ['#'] none acceptedSource).1
    target.obstacle? source = none ∧ target.takesAll source = true ∧
      ∀ name ∈ target.names, ∃ s c taken merged, target.get? name = some s ∧ source.get? name = some c ∧
        (target.apply source).target.get? name = some taken ∧
        (target.applyEach source.tracked).1.get? name = some merged ∧
        taken.content = merged.content ∧ taken.current = merged.current ∧
        taken.accepted = merged.accepted ∧ taken.source = c.source ∧
        merged.source = c.source.or s.source ∧
        (taken.source = merged.source ↔ c.source.isSome = true ∨ s.source = none) := by
  intro target source
  have hlegible : target.Legible := legible_of_text ['#'] none sourcedTarget
  have hsource : source.Legible := legible_of_text ['#'] none acceptedSource
  have hobstacle : target.obstacle? source = none := by decide +kernel
  have hall : target.takesAll source = true := by decide +kernel
  have haccepted : ∀ c ∈ source.tracked, c.isModified = false := by decide +kernel
  exact ⟨hobstacle, hall, at_once_agrees hlegible.sidecar_eq_none hobstacle hall hlegible.nodup
    hsource.nodup haccepted⟩

/-- Taking all sections at once drops the source that the section of the target names, and taking them
one by one keeps it. -/
theorem all_at_once_drops_source :
    let target := (ofText ['#'] none sourcedTarget).1
    let source := (ofText ['#'] none acceptedSource).1
    target.sidecar = none ∧ target.obstacle? source = none ∧ target.takesAll source = true ∧
      (∀ c ∈ source.tracked, c.isModified = false) ∧
      ((target.apply source).target.get? ['s']).map (·.source) = some none ∧
      ((target.applyEach source.tracked).1.get? ['s']).map (·.source) = some (some ['f']) := by
  decide +kernel

end Document

end TrackedSections
