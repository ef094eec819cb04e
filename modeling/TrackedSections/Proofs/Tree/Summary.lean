import TrackedSections.Proofs.Failing
import TrackedSections.Proofs.Walk.Tour

/-!
# What a run makes of its results

A run settles its results: it ends with their summary or with the first failure that ends a run. Read
`concludes_of_settle` first, together with `ApplySummary.Tells` and `CheckSummary.Tells`, which say what a
summary has in its lists.
-/

namespace TrackedSections

namespace Results

variable {α S : Type}

/-- The failure that ends the run, if a result is one. -/
def stopOf : Except Failure α → Option Failure
  | .ok _ => none
  | .error failure => if failure.isExpected then none else some failure

/-- The first failure among the results that ends the run. -/
def stop? (results : Results α) : Option Failure := results.findSome? (stopOf ·.2)

/-- The files with a failure, and their failures. -/
def mishaps (results : Results α) : List Mishap :=
  results.filterMap fun r => match r.2 with
    | .ok _ => none
    | .error failure => some ⟨r.1, failure⟩

/-- The files with certain values. -/
def withValue (holds : α → Bool) (results : Results α) : List Path :=
  results.filterMap fun r => match r.2 with
    | .ok a => if holds a then some r.1 else none
    | .error _ => none

/-- What a run ends with: the summary of its results, or the first failure that ends it. -/
def settle (sum : Results α → S) (results : Results α) : Except Failure S :=
  match results.stop? with
  | none => .ok (sum results)
  | some failure => .error failure

/-- Recording a result in a summary adds it to the results, unless it ends the run. -/
def Records (sum : Results α → S) (record : S → Path → Except Failure α → Except Failure S) : Prop :=
  ∀ results path result, results.stop? = none →
    record (sum results) path result = settle sum (results ++ [(path, result)])

theorem stop_append (results more : Results α) :
    stop? (results ++ more) = (stop? results).or (stop? more) :=
  List.findSome?_append

@[simp] theorem stop_singleton (path : Path) (result : Except Failure α) :
    stop? [(path, result)] = stopOf result := by
  simp [stop?]

theorem mem_mishaps {results : Results α} {path : Path} {failure : Failure} :
    ⟨path, failure⟩ ∈ results.mishaps ↔ (path, .error failure) ∈ results := by
  rw [mishaps, List.mem_filterMap]
  constructor
  · rintro ⟨⟨q, result⟩, hr, hsome⟩
    cases result with
    | ok a => cases hsome
    | error failure' =>
        obtain ⟨rfl, rfl⟩ := Mishap.mk.inj (Option.some.inj hsome)
        exact hr
  · exact fun hr => ⟨_, hr, rfl⟩

theorem mem_with_value {holds : α → Bool} {results : Results α} {path : Path} :
    path ∈ results.withValue holds ↔ ∃ a, (path, .ok a) ∈ results ∧ holds a = true := by
  rw [withValue, List.mem_filterMap]
  constructor
  · rintro ⟨⟨q, result⟩, hr, hsome⟩
    cases result with
    | error failure => cases hsome
    | ok a =>
        simp only [Option.ite_none_right_eq_some, Option.some.injEq] at hsome
        obtain ⟨hholds, rfl⟩ := hsome
        exact ⟨a, hr, hholds⟩
  · rintro ⟨a, hr, hholds⟩
    exact ⟨_, hr, by simp [hholds]⟩

theorem mishaps_sublist (results : Results α) :
    (results.mishaps.map (·.path)).Sublist (results.map Prod.fst) := by
  induction results with
  | nil => exact .slnil
  | cons r rest ih =>
      obtain ⟨path, _ | a⟩ := r
      · exact ih.cons_cons path
      · exact ih.cons path

theorem with_value_sublist (holds : α → Bool) (results : Results α) :
    (results.withValue holds).Sublist (results.map Prod.fst) := by
  unfold withValue
  induction results with
  | nil => exact .slnil
  | cons r rest ih =>
      obtain ⟨path, _ | a⟩ := r
      · exact ih.cons path
      · cases hholds : holds a with
        | false => simpa [hholds] using ih.cons path
        | true => simpa [hholds] using ih.cons_cons path

/-- A file has one result when the files of the results are different. -/
theorem eq_of_distinct {results : Results α} (h : (results.map Prod.fst).Nodup) {path : Path}
    {result other : Except Failure α} (hresult : (path, result) ∈ results)
    (hother : (path, other) ∈ results) : result = other :=
  congrArg Prod.snd (List.inj_on_of_nodup_map h hresult hother rfl)

/-- A file is not in two lists of files with different values. -/
theorem ne_of_with_value {results : Results α} (h : (results.map Prod.fst).Nodup)
    {holds holds' : α → Bool} (hholds : ∀ a, holds a = true → ¬ holds' a = true) :
    ∀ path ∈ results.withValue holds, ∀ other ∈ results.withValue holds', path ≠ other := by
  rintro path hmem _ hmem' rfl
  obtain ⟨a, ha, hvalue⟩ := mem_with_value.1 hmem
  obtain ⟨b, hb, hvalue'⟩ := mem_with_value.1 hmem'
  obtain rfl := Except.ok.inj (eq_of_distinct h ha hb)
  exact hholds a hvalue hvalue'

/-- A file with a value has no failure. -/
theorem ne_of_mishap {results : Results α} (h : (results.map Prod.fst).Nodup) {holds : α → Bool} :
    ∀ path ∈ results.withValue holds, ∀ other ∈ results.mishaps.map (·.path), path ≠ other := by
  rintro path hmem _ hmem' rfl
  obtain ⟨a, ha, -⟩ := mem_with_value.1 hmem
  obtain ⟨mishap, hmishap, rfl⟩ := List.mem_map.1 hmem'
  cases eq_of_distinct h ha (mem_mishaps.1 hmishap)

theorem settle_of_none {sum : Results α → S} {results : Results α} (h : results.stop? = none) :
    results.settle sum = .ok (sum results) := by
  rw [settle, h]

theorem settle_of_some {sum : Results α → S} {results : Results α} {failure : Failure}
    (h : results.stop? = some failure) : results.settle sum = .error failure := by
  rw [settle, h]

/-- A failure that ends a run ends every longer one. -/
theorem stop_of_prefix {results longer : Results α} (hbegins : results <+: longer) {failure : Failure}
    (h : results.stop? = some failure) : longer.stop? = some failure := by
  obtain ⟨more, rfl⟩ := hbegins
  rw [stop_append, h, Option.some_or]

/-- A failure that ends the run is not an expected one. -/
theorem unexpected_of_stop {results : Results α} {failure : Failure}
    (h : results.stop? = some failure) :
    ∃ r ∈ results, r.2 = .error failure ∧ failure.isExpected = false := by
  obtain ⟨r, hr, hstop⟩ := List.exists_of_findSome?_eq_some h
  refine ⟨r, hr, ?_⟩
  cases hresult : r.2 with
  | ok a => simp [stopOf, hresult] at hstop
  | error failure' =>
      rw [hresult, stopOf] at hstop
      split at hstop
      · cases hstop
      · next hexpected =>
          obtain rfl := Option.some.inj hstop
          exact ⟨rfl, by simpa using hexpected⟩

end Results

/-- The summary of what applying documents came to. -/
def ApplySummary.ofResults (results : Results (Option Outcome)) : ApplySummary where
  created := results.withValue (· = some .created)
  updated := results.withValue (· = some .updated)
  skipped := results.withValue fun value => value = some .unchanged ∨ value = some .skipped
  mishaps := results.mishaps

/-- The summary of what reading documents came to. -/
def CheckSummary.ofResults (results : Results Document) : CheckSummary where
  checked := (results.withValue fun _ => true).length
  modified := results.withValue (·.isModified)
  unmanaged := results.withValue (!·.isManaged)
  mishaps := results.mishaps

theorem ApplySummary.records : Results.Records ofResults record := by
  intro results path result hstop
  cases result with
  | error failure =>
      by_cases hexpected : failure.isExpected = true <;>
        simp [record, Results.settle, Results.stop_append, hstop, Results.stopOf, hexpected, ofResults,
          Results.withValue, Results.mishaps]
  | ok value =>
      cases value with
      | none =>
          simp [record, Results.settle, Results.stop_append, hstop, Results.stopOf, ofResults,
            Results.withValue, Results.mishaps]
      | some outcome =>
          cases outcome <;>
            simp [record, add, Results.settle, Results.stop_append, hstop, Results.stopOf, ofResults,
              Results.withValue, Results.mishaps]

theorem CheckSummary.records : Results.Records ofResults record := by
  intro results path result hstop
  cases result with
  | error failure =>
      by_cases hexpected : failure.isExpected = true <;>
        simp [record, Results.settle, Results.stop_append, hstop, Results.stopOf, hexpected, ofResults,
          Results.withValue, Results.mishaps]
  | ok d =>
      cases hmodified : d.isModified <;> cases hmanaged : d.isManaged <;>
        simp [record, add, Results.settle, Results.stop_append, hstop, Results.stopOf, ofResults,
          Results.withValue, Results.mishaps, hmodified, hmanaged]

namespace ApplySummary

/-- All files in a summary. -/
def paths (summary : ApplySummary) : List Path :=
  summary.created ++ summary.updated ++ summary.skipped ++ summary.mishaps.map (·.path)

/-- A summary has each file in the one list that its result belongs to, and none of those that name no
target. -/
structure Tells (summary : ApplySummary) (results : Results (Option Outcome)) : Prop where
  created : ∀ path, path ∈ summary.created ↔ (path, .ok (some .created)) ∈ results
  updated : ∀ path, path ∈ summary.updated ↔ (path, .ok (some .updated)) ∈ results
  skipped : ∀ path, path ∈ summary.skipped ↔
    (path, .ok (some .unchanged)) ∈ results ∨ (path, .ok (some .skipped)) ∈ results
  mishaps : ∀ path failure, ⟨path, failure⟩ ∈ summary.mishaps ↔ (path, .error failure) ∈ results
  once : summary.paths.Nodup

end ApplySummary

/-- A summary counts the files that were read and names those that are modified or not managed, and it has
each failure once. -/
structure CheckSummary.Tells (summary : CheckSummary) (results : Results Document) : Prop where
  checked : summary.checked = (results.withValue fun _ => true).length
  modified : ∀ path, path ∈ summary.modified ↔ ∃ d, (path, .ok d) ∈ results ∧ d.isModified = true
  unmanaged : ∀ path, path ∈ summary.unmanaged ↔ ∃ d, (path, .ok d) ∈ results ∧ d.isManaged = false
  mishaps : ∀ path failure, ⟨path, failure⟩ ∈ summary.mishaps ↔ (path, .error failure) ∈ results
  once : (summary.mishaps.map (·.path)).Nodup

/-- A run ends with a summary that tells its results, or with the first failure among them that ends a
run. -/
def Concludes {α S : Type} (tells : S → Results α → Prop) (results : Results α)
    (outcome : Except Failure S) : Prop :=
  match results.stop? with
  | none => ∃ summary, outcome = .ok summary ∧ tells summary results
  | some failure => outcome = .error failure ∧ failure.EndsRun

/-- The summary of what applying documents came to tells it. -/
theorem ApplySummary.tells_of_results {results : Results (Option Outcome)}
    (hdistinct : (results.map Prod.fst).Nodup) : (ofResults results).Tells results := by
  have hcreated : ∀ path, path ∈ (ofResults results).created ↔
      (path, .ok (some .created)) ∈ results := by
    intro path
    simp [ofResults, Results.mem_with_value]
  have hupdated : ∀ path, path ∈ (ofResults results).updated ↔
      (path, .ok (some .updated)) ∈ results := by
    intro path
    simp [ofResults, Results.mem_with_value]
  have hskipped : ∀ path, path ∈ (ofResults results).skipped ↔
      (path, .ok (some .unchanged)) ∈ results ∨ (path, .ok (some .skipped)) ∈ results := by
    intro path
    simp [ofResults, Results.mem_with_value, and_or_left, exists_or]
  refine ⟨hcreated, hupdated, hskipped, fun _ _ => Results.mem_mishaps, ?_⟩
  have honce : ∀ holds, (results.withValue holds).Nodup := fun holds =>
    hdistinct.sublist (results.with_value_sublist holds)
  unfold paths
  simp only [List.nodup_append, List.mem_append]
  refine ⟨⟨⟨honce _, honce _, ?_⟩, honce _, ?_⟩, hdistinct.sublist results.mishaps_sublist, ?_⟩
  · exact Results.ne_of_with_value hdistinct (by simp)
  · rintro path (hmem | hmem)
    · exact Results.ne_of_with_value hdistinct (by simp) path hmem
    · exact Results.ne_of_with_value hdistinct (by simp) path hmem
  · rintro path ((hmem | hmem) | hmem)
    · exact Results.ne_of_mishap hdistinct path hmem
    · exact Results.ne_of_mishap hdistinct path hmem
    · exact Results.ne_of_mishap hdistinct path hmem

/-- The summary of what reading documents came to tells it. -/
theorem CheckSummary.tells_of_results {results : Results Document}
    (hdistinct : (results.map Prod.fst).Nodup) : (ofResults results).Tells results where
  checked := rfl
  modified path := by simp [ofResults, Results.mem_with_value]
  unmanaged path := by simp [ofResults, Results.mem_with_value]
  mishaps _ _ := Results.mem_mishaps
  once := hdistinct.sublist results.mishaps_sublist

/-- A run that ends as its results say concludes. -/
theorem concludes_of_settle {α S : Type} {tells : S → Results α → Prop} {sum : Results α → S}
    {results : Results α} (htells : tells (sum results) results)
    (hhandled : ∀ r ∈ results, ∀ failure, r.2 = .error failure → failure.Handled)
    {outcome : Except Failure S} (h : outcome = results.settle sum) :
    Concludes tells results outcome := by
  unfold Concludes
  cases hstop : results.stop? with
  | none => exact ⟨sum results, h.trans (Results.settle_of_none hstop), htells⟩
  | some failure =>
      obtain ⟨r, hr, hresult, hexpected⟩ := Results.unexpected_of_stop hstop
      refine ⟨h.trans (Results.settle_of_some hstop), ?_⟩
      exact (hhandled r hr failure hresult).resolve_left (by simp [hexpected])

end TrackedSections
