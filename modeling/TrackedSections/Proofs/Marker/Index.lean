import Mathlib.Data.List.Induction
import TrackedSections.Marker.Index

/-!
# What an index holds

An index of markers is described by the list it was made from. Read `groups_of_list` first: its names
are those of the markers in order of first occurrence, and the group of a name is the sublist of
its markers. `groups_validate` and `get_validate` say the same of the names that are left when
those with defects are dropped.
-/

namespace TrackedSections.MarkerIndex

/-- The markers of a name among some markers. -/
def own (ms : List Marker) (name : Text) : List Marker := ms.filter (·.scope = name)

/-- The names of some markers in order of first occurrence. -/
def names (ms : List Marker) : List Text := (ms.map (·.scope)).eraseDups

/-- A name that comes last is new or makes no difference. -/
theorem names_append_singleton (ms : List Marker) (m : Marker) :
    names (ms ++ [m]) = names ms ++ if m.scope ∈ names ms then [] else [m.scope] := by
  have hremove : [m.scope].removeAll (ms.map (·.scope)) =
      if m.scope ∈ ms.map (·.scope) then [] else [m.scope] := by
    by_cases h : m.scope ∈ ms.map (·.scope)
    · rw [List.removeAll, List.filter_cons_of_neg (by simpa using h), if_pos h]
      rfl
    · rw [List.removeAll, List.filter_cons_of_pos (by simpa using h), if_neg h]
      rfl
  rw [names, List.map_append, List.eraseDups_append, List.map_singleton, hremove]
  have hmem : m.scope ∈ names ms ↔ m.scope ∈ ms.map (·.scope) := List.mem_eraseDups
  by_cases h : m.scope ∈ ms.map (·.scope)
  · rw [if_pos h, if_pos (hmem.2 h), List.eraseDups_nil, names]
  · rw [if_neg h, if_neg (mt hmem.1 h), List.eraseDups_cons, List.filter_nil, List.eraseDups_nil, names]

/-- The names of markers are those of some of them. -/
theorem mem_names {ms : List Marker} {name : Text} :
    name ∈ names ms ↔ ∃ m ∈ ms, m.scope = name := by
  simp [names]

/-- No name occurs twice. -/
theorem nodup_names (ms : List Marker) : (names ms).Nodup := by
  induction ms using List.reverseRecOn with
  | nil => simp [names]
  | append_singleton ms m ih =>
      rw [names_append_singleton]
      split
      · simpa using ih
      · next h =>
          rw [List.nodup_append]
          refine ⟨ih, by simp, ?_⟩
          rintro a ha b hb rfl
          exact h (List.mem_singleton.1 hb ▸ ha)

/-- Markers of one name before markers of others: their name comes first. -/
theorem names_append {ms ms' : List Marker} {name : Text} (hne : ms ≠ [])
    (hscope : ∀ m ∈ ms, m.scope = name) (hother : ∀ m ∈ ms', m.scope ≠ name) :
    names (ms ++ ms') = name :: names ms' := by
  cases ms with
  | nil => exact absurd rfl hne
  | cons m ms =>
      obtain ⟨hfirst, hrest⟩ := List.forall_mem_cons.1 hscope
      have hnone : (ms.map (·.scope)).filter (fun other => !other == name) = [] := by
        simpa [List.filter_eq_nil_iff] using hrest
      have hall : (ms'.map (·.scope)).filter (fun other => !other == name) =
          ms'.map (·.scope) := by
        simpa [List.filter_eq_self] using hother
      rw [names, List.cons_append, List.map_cons, hfirst, List.map_append, List.eraseDups_cons,
        List.filter_append, hnone, hall, List.nil_append, names]

/-- Markers of other names make no difference to those of a name. -/
theorem own_append_right {ms ms' : List Marker} {name : Text} (h : ∀ m ∈ ms', m.scope ≠ name) :
    own (ms ++ ms') name = own ms name := by
  have hnone : ms'.filter (·.scope = name) = [] := by
    simpa [List.filter_eq_nil_iff] using h
  rw [own, List.filter_append, hnone, List.append_nil, own]

/-- Markers of other names make no difference to those of a name. -/
theorem own_append_left {ms ms' : List Marker} {name : Text} (h : ∀ m ∈ ms, m.scope ≠ name) :
    own (ms ++ ms') name = own ms' name := by
  have hnone : ms.filter (·.scope = name) = [] := by
    simpa [List.filter_eq_nil_iff] using h
  rw [own, List.filter_append, hnone, List.nil_append, own]

/-- Markers that all have one name are those of that name. -/
theorem own_eq_self {ms : List Marker} {name : Text} (h : ∀ m ∈ ms, m.scope = name) :
    own ms name = ms := by
  simpa [own, List.filter_eq_self] using h

/-- Adding a marker to groups that are told apart by their names. -/
theorem push_into_map {ns : List Text} (hns : ns.Nodup) (f : Text → List Marker) (m : Marker) :
    pushInto m (ns.map fun name => (name, f name)) =
      if m.scope ∈ ns then
        ns.map fun name => (name, if name = m.scope then f name ++ [m] else f name)
      else ns.map (fun name => (name, f name)) ++ [(m.scope, [m])] := by
  induction ns with
  | nil => simp [pushInto]
  | cons name ns ih =>
      obtain ⟨hname, hns⟩ := List.nodup_cons.1 hns
      rw [List.map_cons, pushInto]
      by_cases h : name = m.scope
      · subst h
        have hrest : ∀ other ∈ ns, other ≠ m.scope := by
          rintro other hother rfl
          exact hname hother
        simp only [if_true, List.mem_cons_self, List.map_cons]
        congr 1
        exact List.map_congr_left fun other hother => by rw [if_neg (hrest other hother)]
      · have hmem : m.scope ∈ name :: ns ↔ m.scope ∈ ns := by simp [Ne.symm h]
        rw [if_neg h, ih hns]
        by_cases hin : m.scope ∈ ns <;> simp [hin, hmem, h]

/-- The groups of an index are the names of its markers, each with its markers. -/
theorem groups_of_list (ms : List Marker) :
    (ofList ms).groups = (names ms).map fun name => (name, own ms name) := by
  induction ms using List.reverseRecOn with
  | nil => rfl
  | append_singleton ms m ih =>
      have hstep : (ofList (ms ++ [m])).groups = pushInto m (ofList ms).groups := by
        simp [ofList, push]
      have hown : ∀ name, own (ms ++ [m]) name =
          if name = m.scope then own ms name ++ [m] else own ms name := by
        intro name
        by_cases h : m.scope = name
        · simp [own, h]
        · simp [own, h, Ne.symm h]
      rw [hstep, ih, push_into_map (nodup_names ms), names_append_singleton]
      by_cases h : m.scope ∈ names ms
      · simp [h, hown]
      · have hnone : own ms m.scope = [] := by
          simp only [own, List.filter_eq_nil_iff, decide_eq_true_eq]
          exact fun a ha hscope => h (mem_names.2 ⟨a, ha, hscope⟩)
        rw [if_neg h, if_neg h, List.map_append, List.map_singleton, hown, if_pos rfl, hnone]
        congr 1
        refine List.map_congr_left ?_
        intro name hname
        rw [hown, if_neg]
        rintro rfl
        exact h hname

/-- The names that can be tracked, and that of the whole file. -/
def validNames (ms : List Marker) : List Text :=
  (names ms).filter fun name => (groupDefect? (name, own ms name)).isNone

/-- Validation leaves the groups without defects as they are. -/
theorem groups_validate (ms : List Marker) :
    (ofList ms).validate.groups = (validNames ms).map fun name => (name, own ms name) := by
  rw [validate, groups_of_list, List.filter_map]
  rfl

/-- Looking up a name among names. -/
theorem lookup_map {ns : List Text} {name : Text} (h : name ∈ ns) (f : Text → List Marker) :
    (ns.map fun name => (name, f name)).lookup name = some (f name) := by
  induction ns with
  | nil => cases h
  | cons other ns ih =>
      rw [List.map_cons, List.lookup_cons]
      by_cases heq : name = other
      · subst heq
        simp
      · rw [beq_eq_false_iff_ne.2 heq]
        exact ih ((List.mem_cons.1 h).resolve_left heq)

/-- The markers of a name that can be tracked are found among all markers. -/
theorem get_validate {ms : List Marker} {name : Text} (h : name ∈ validNames ms)
    (kind : MarkerKind) :
    (ofList ms).validate.get? name kind = (own ms name).find? (·.kind = kind) := by
  rw [get?, markers, groups_validate, lookup_map h, Option.getD_some]

/-- The sections of a valid index are its names but that of the whole file. -/
theorem sections_validate (ms : List Marker) :
    (ofList ms).validate.sections = (validNames ms).filter (· ≠ Marker.wholeFile) := by
  rw [sections, groups_validate, List.map_map]
  congr 1
  exact List.map_id'' (fun _ => rfl) _

theorem mem_sections_validate {ms : List Marker} {name : Text} :
    name ∈ (ofList ms).validate.sections ↔ name ∈ validNames ms ∧ name ≠ Marker.wholeFile := by
  rw [sections_validate, List.mem_filter, decide_eq_true_eq]

/-- A list of kinds has no defect exactly when no kind is repeated and none that is required is absent. -/
theorem defect_eq_none {kinds : List MarkerKind} :
    defect? kinds = none ↔
      kinds.Nodup ∧ .start ∈ kinds ∧ .stop ∈ kinds ∧ .hash ∈ kinds := by
  have hrequired : requiredKinds.filter (· ∉ kinds) = [] ↔
      .start ∈ kinds ∧ .stop ∈ kinds ∧ .hash ∈ kinds := by
    simp [requiredKinds, List.filter_eq_nil_iff]
  rw [← hrequired, defect?]
  by_cases hnodup : kinds.Nodup
  · rw [if_neg (not_not_intro hnodup)]
    cases requiredKinds.filter (· ∉ kinds) <;> simp [hnodup]
  · simp [hnodup]

/-- In a list without two markers of one kind, each marker is found by its kind. -/
theorem find_of_nodup_kinds {ms : List Marker} (hnodup : (ms.map (·.kind)).Nodup) {m : Marker} (hm : m ∈ ms) :
    ms.find? (·.kind = m.kind) = some m := by
  induction ms with
  | nil => cases hm
  | cons first rest ih =>
      obtain ⟨hfirst, hrest⟩ := List.nodup_cons.1 hnodup
      rcases List.mem_cons.1 hm with rfl | hm
      · exact List.find?_cons_of_pos (by simp)
      · have hne : first.kind ≠ m.kind := fun heq => hfirst (List.mem_map.2 ⟨m, hm, heq.symm⟩)
        rw [List.find?_cons_of_neg (by simpa using hne), ih hrest hm]

end TrackedSections.MarkerIndex
