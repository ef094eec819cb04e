import TrackedSections.Proofs.Marker.Index

/-!
# Which sections an index keeps

Validation keeps the sections whose markers are `Complete`: a begin, an end and a hash, and no two of one kind.
The others are reported, and dropping them disturbs neither the order nor the markers of those that stay. Read
`validate_keeps_complete` first. Names come in the order of their first markers (`ListsInOrder`).
-/

namespace TrackedSections.MarkerIndex

/-- Markers that make a section: no two of one kind, and each kind that a section cannot do without. -/
structure Complete (ms : List Marker) : Prop where
  distinct : ms.Pairwise fun m other => m.kind ≠ other.kind
  start : ∃ m ∈ ms, m.kind = .start
  stop : ∃ m ∈ ms, m.kind = .stop
  hash : ∃ m ∈ ms, m.kind = .hash

/-- The place among some markers where a name comes first. -/
def firstPlace (ms : List Marker) (name : Text) : Nat := ms.findIdx (·.scope = name)

/-- `ListsInOrder ms p ns` says that `ns` are the names of the markers `ms` that satisfy `p`, in the order in
which they come first. -/
structure ListsInOrder (ms : List Marker) (p : Text → Prop) (ns : List Text) : Prop where
  mem_iff : ∀ name, name ∈ ns ↔ (∃ m ∈ ms, m.scope = name) ∧ p name
  ordered : ns.Pairwise fun name other => firstPlace ms name < firstPlace ms other

/-! ## Order -/

theorem first_place_lt {ms : List Marker} {name : Text} (h : name ∈ names ms) :
    firstPlace ms name < ms.length := by
  obtain ⟨m, hm, hscope⟩ := mem_names.1 h
  exact List.findIdx_lt_length.2 ⟨m, hm, by simpa using hscope⟩

/-- A marker that comes last does not move the names before it. -/
theorem first_place_append {ms : List Marker} {name : Text} (h : name ∈ names ms) (m : Marker) :
    firstPlace (ms ++ [m]) name = firstPlace ms name := by
  rw [firstPlace, List.findIdx_append, ← firstPlace, if_pos (first_place_lt h)]

/-- A name that was not there comes first with the marker that brings it. -/
theorem first_place_new {ms : List Marker} {m : Marker} (h : m.scope ∉ names ms) :
    firstPlace (ms ++ [m]) m.scope = ms.length := by
  have hnone : firstPlace ms m.scope = ms.length := by
    apply List.findIdx_eq_length.2
    intro other hother
    simpa using fun hscope => h (mem_names.2 ⟨other, hother, hscope⟩)
  rw [firstPlace, List.findIdx_append, ← firstPlace, hnone, if_neg (Nat.lt_irrefl _)]
  simp

/-- Names are in the order of their first markers. -/
theorem pairwise_names (ms : List Marker) :
    (names ms).Pairwise fun name other => firstPlace ms name < firstPlace ms other := by
  induction ms using List.reverseRecOn with
  | nil => exact List.Pairwise.nil
  | append_singleton ms m ih =>
      have hold : (names ms).Pairwise fun name other =>
          firstPlace (ms ++ [m]) name < firstPlace (ms ++ [m]) other := by
        refine ih.imp_of_mem fun hname hother hlt => ?_
        rwa [first_place_append hname, first_place_append hother]
      rw [names_append_singleton]
      split
      · rwa [List.append_nil]
      · next hnew =>
          refine List.pairwise_append.2 ⟨hold, List.pairwise_singleton _ _, ?_⟩
          intro name hname other hother
          obtain rfl := List.mem_singleton.1 hother
          rw [first_place_append hname, first_place_new hnew]
          exact first_place_lt hname

/-- Some of the names, as they come, are listed in order. -/
theorem lists_in_order_filter (ms : List Marker) {p : Text → Prop} {keep : Text → Bool}
    (hkeep : ∀ name, keep name = true ↔ p name) : ListsInOrder ms p ((names ms).filter keep) where
  mem_iff name := by rw [List.mem_filter, mem_names, hkeep]
  ordered := (pairwise_names ms).filter keep

/-! ## Defects -/

/-- The markers of a section have no defect exactly when they are complete. -/
theorem defect_eq_none_iff {ms : List Marker} : defect? (ms.map (·.kind)) = none ↔ Complete ms := by
  rw [defect_eq_none, List.Nodup, List.pairwise_map, List.mem_map, List.mem_map, List.mem_map]
  exact ⟨fun ⟨hdistinct, hstart, hstop, hhash⟩ => ⟨hdistinct, hstart, hstop, hhash⟩,
    fun h => ⟨h.distinct, h.start, h.stop, h.hash⟩⟩

/-- The group of a name has no defect if it is that of the whole file or makes a section. -/
theorem group_defect_eq_none_iff {name : Text} {ms : List Marker} :
    groupDefect? (name, ms) = none ↔ name = Marker.wholeFile ∨ Complete ms := by
  rw [groupDefect?, ← defect_eq_none_iff]
  by_cases h : name = Marker.wholeFile <;> simp [h]

/-- The names with defects are those that have one, as they come. -/
theorem map_fst_defects (ms : List Marker) :
    (ofList ms).defects.map (·.1) =
      (names ms).filter fun name => (groupDefect? (name, own ms name)).isSome := by
  rw [defects, groups_of_list, List.filterMap_map, List.map_filterMap]
  induction names ms with
  | nil => rfl
  | cons name ns ih =>
      rw [List.filterMap_cons, List.filter_cons, ih]
      cases h : groupDefect? (name, own ms name) <;> simp [h]

/-- A valid index has no defects. -/
theorem defects_validate (index : MarkerIndex) : index.validate.defects = [] := by
  refine List.filterMap_eq_nil_iff.2 fun group hgroup => ?_
  have hnone := (List.mem_filter.1 hgroup).2
  rw [Option.isNone_iff_eq_none.1 hnone, Option.map_none]

/-- Nothing is dropped from a valid index. -/
theorem validate_validate (index : MarkerIndex) : index.validate.validate = index.validate := by
  simp only [validate, List.filter_filter, Bool.and_self]

/-- A name is in an index if it is that of a group. -/
theorem contains_iff {index : MarkerIndex} {name : Text} :
    index.contains name = true ↔ name ∈ index.groups.map (·.1) := by
  rw [contains, List.lookup_isSome_iff]
  simp

theorem mem_valid_names {ms : List Marker} {name : Text} :
    name ∈ validNames ms ↔
      (∃ m ∈ ms, m.scope = name) ∧ (name = Marker.wholeFile ∨ Complete (own ms name)) := by
  rw [validNames, List.mem_filter, mem_names, Option.isNone_iff_eq_none, group_defect_eq_none_iff]

/-- After validation, an index of any markers holds the whole file, if it has markers, and the sections whose
markers are complete, each with all of its markers in the order in which they came. The sections that are kept
and those that are reported as dropped are in the order of their first markers, and validating again reports
and drops nothing. -/
theorem validate_keeps_complete (ms : List Marker) :
    let index := ofList ms
    let valid := index.validate
    (∀ name, valid.contains name = true ↔
      (∃ m ∈ ms, m.scope = name) ∧ (name = Marker.wholeFile ∨ Complete (own ms name))) ∧
    (∀ name, valid.contains name = true → valid.markers name = ms.filter (·.scope = name)) ∧
    ListsInOrder ms (fun name => name ≠ Marker.wholeFile ∧ Complete (own ms name)) valid.sections ∧
    ListsInOrder ms (fun name => name ≠ Marker.wholeFile ∧ ¬ Complete (own ms name))
      (index.defects.map (·.1)) ∧
    valid.defects = [] ∧ valid.validate = valid := by
  intro index valid
  have hcontains (name : Text) : valid.contains name = true ↔ name ∈ validNames ms := by
    rw [contains_iff, groups_validate]
    simp
  refine ⟨fun name => (hcontains name).trans mem_valid_names, fun name hname => ?_, ?_, ?_,
    defects_validate index, validate_validate index⟩
  · rw [markers, groups_validate, lookup_map ((hcontains name).1 hname), Option.getD_some, own]
  · rw [sections_validate, validNames, List.filter_filter]
    refine lists_in_order_filter ms fun name => ?_
    rw [Bool.and_eq_true, decide_eq_true_eq, Option.isNone_iff_eq_none, group_defect_eq_none_iff]
    exact and_congr_right fun hname => or_iff_right hname
  · rw [map_fst_defects]
    refine lists_in_order_filter ms fun name => ?_
    rw [Option.isSome_iff_ne_none, ne_eq, group_defect_eq_none_iff, not_or]

end TrackedSections.MarkerIndex
