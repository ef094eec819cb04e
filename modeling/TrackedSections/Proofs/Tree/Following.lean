import TrackedSections.Proofs.Tree.Summary

/-!
# A run follows one that goes on

`Follows` compares a run that adds to a summary with one that goes on after every failure and notes the
results. It is proved along the text of the runs. Read `follows_visit_files_to` first, whose induction is
on the depth.
-/

namespace TrackedSections

open Effect Operation

namespace Effect

variable {ρ σ α β S : Type} {sum : Results α → S} {handle : Path → Effect ρ σ α}

/-- `real` does with a summary what `ideal` does with the results, until a failure ends the run. -/
def Follows (sum : Results α → S) (ideal : Results α → Effect ρ σ (Results α))
    (real : S → Effect ρ σ S) : Prop :=
  ∀ results env s results' s', outcome (ideal results) env s = (.ok results', s') →
    results <+: results' ∧ (results.stop? = none →
      (outcome (real (sum results)) env s).1 = results'.settle sum ∧
        (results'.stop? = none → (outcome (real (sum results)) env s).2 = s'))

theorem Follows.pure : Follows sum (pure : Results α → Effect ρ σ (Results α)) pure := by
  intro results env s results' s' h
  obtain ⟨hresults, rfl⟩ := Prod.mk.inj h
  obtain rfl := Except.ok.inj hresults
  exact ⟨List.prefix_refl _, fun hstop => ⟨(Results.settle_of_none hstop).symm, fun _ => rfl⟩⟩

/-- One stretch after another follows one stretch after another. -/
theorem Follows.bind {ideal ideal' : Results α → Effect ρ σ (Results α)} {real real' : S → Effect ρ σ S}
    (h : Follows sum ideal real) (h' : Follows sum ideal' real') :
    Follows sum (fun results => ideal results >>= ideal') fun summary => real summary >>= real' := by
  intro results env s results' s' hideal
  obtain ⟨between, s₁, hfirst, hsecond⟩ := ok_of_bind hideal
  obtain ⟨hbegins, hreal⟩ := h results env s between s₁ hfirst
  obtain ⟨hbegins', hreal'⟩ := h' between env s₁ results' s' hsecond
  refine ⟨hbegins.trans hbegins', fun hstop => ?_⟩
  obtain ⟨houtcome, hstate⟩ := hreal hstop
  cases hbetween : between.stop? with
  | none =>
      have hrun : outcome (real (sum results)) env s = (.ok (sum between), s₁) :=
        Prod.ext (houtcome.trans (Results.settle_of_none hbetween)) (hstate hbetween)
      rw [bind_of_ok hrun]
      exact hreal' hbetween
  | some failure =>
      have hlonger := Results.stop_of_prefix hbegins' hbetween
      rw [Results.settle_of_some hbetween] at houtcome
      rw [outcome_bind, Results.settle_of_some hlonger]
      generalize outcome (real (sum results)) env s = first at houtcome ⊢
      obtain ⟨result, s₂⟩ := first
      obtain rfl : result = .error failure := houtcome
      exact ⟨rfl, fun hnone => absurd (hnone.symm.trans hlonger) (by simp)⟩

/-- What both look at first makes no difference. -/
theorem Follows.after (x : Effect ρ σ β) {ideal : β → Results α → Effect ρ σ (Results α)}
    {real : β → S → Effect ρ σ S} (h : ∀ b, Follows sum (ideal b) (real b)) :
    Follows sum (fun results => x >>= fun b => ideal b results)
      fun summary => x >>= fun b => real b summary := by
  intro results env s results' s' hideal
  obtain ⟨b, s₁, hx, hrest⟩ := ok_of_bind hideal
  dsimp only
  rw [bind_of_ok hx]
  exact h b results env s₁ results' s' hrest

/-- One visit after another follows one visit after another. -/
theorem follows_fold {ideal : Results α → Path → Effect ρ σ (Results α)}
    {real : S → Path → Effect ρ σ S} (h : ∀ path, Follows sum (ideal · path) (real · path))
    (paths : List Path) :
    Follows sum (fun results => paths.foldlM ideal results) fun summary => paths.foldlM real summary := by
  induction paths with
  | nil => exact .pure
  | cons path rest ih => exact (h path).bind ih

/-- A visit that handles a file and records what that came to follows one that notes it. -/
theorem follows_note {visit : S → Path → Effect ρ σ S}
    {record : S → Path → Except Failure α → Except Failure S}
    (hvisit : ∀ summary path env s, outcome (visit summary path) env s =
      (record summary path (outcome (handle path) env s).1, (outcome (handle path) env s).2))
    (hrecord : Results.Records sum record) (path : Path) :
    Follows sum (note handle · path) (visit · path) := by
  intro results env s results' s' hnote
  rw [outcome_note] at hnote
  obtain ⟨hresults, rfl⟩ := Prod.mk.inj hnote
  obtain rfl := Except.ok.inj hresults
  refine ⟨List.prefix_append _ _, fun hstop => ?_⟩
  rw [hvisit]
  exact ⟨hrecord _ _ _ hstop, fun _ => rfl⟩

end Effect

/-- A run that looks into directories when their turn comes follows one that visits alike. -/
theorem Operation.follows_visit_files_to {α S : Type} {sum : Results α → S}
    {ideal : Results α → Path → Operation (Results α)} {real : S → Path → Operation S}
    (h : ∀ path, Follows sum (ideal · path) (real · path)) (depth : Nat) (path : Path) :
    Follows sum (visitFilesTo ideal depth · path) (visitFilesTo real depth · path) := by
  induction depth generalizing path with
  | zero => exact .pure
  | succ depth ih =>
      exact .after (look (Inspection.listing path)) fun found =>
        (follows_fold h found.1).bind (follows_fold ih found.2)

end TrackedSections
