import TrackedSections.Proofs.Failing
import TrackedSections.Walk

/-!
# The visits of a walk

A walk that looks into a directory only when its turn comes has no list of the files that it is to visit.
`Visits` says which file it visits at some time, with what it brings along and what the disk is then. Read
`disk_of_visits` first: what each visit keeps of the disk, the walk keeps. What one visit makes of the value
that it gets and all others leave is so of the value at the end (`value_of_visits`).
-/

namespace TrackedSections

open Effect

namespace Effect

variable {ρ σ α β : Type} {f : α → β → Effect ρ σ α} {env : ρ} {bs : List β} {a a' a'' : α}
  {s s' s'' : σ} {b : β} {p : σ → Prop} {r : α → Prop}

/-- The element of a list that has its turn in a fold, with the value and the state that it meets. -/
inductive Turn (f : α → β → Effect ρ σ α) (env : ρ) : List β → α → σ → β → α → σ → Prop where
  | here {b : β} {rest : List β} {a : α} {s : σ} : Turn f env (b :: rest) a s b a s
  | later {b c : β} {rest : List β} {a a' a'' : α} {s s' s'' : σ}
      (hfirst : outcome (f a b) env s = (.ok a', s')) (hrest : Turn f env rest a' s' c a'' s'') :
      Turn f env (b :: rest) a s c a'' s''

/-- What each turn keeps of the state, a fold keeps. -/
theorem state_of_turns
    (hturn : ∀ b a' s', Turn f env bs a s b a' s' → p s' → p (outcome (f a' b) env s').2) (hs : p s) :
    p (outcome (bs.foldlM f a) env s).2 := by
  induction bs generalizing a s with
  | nil => exact hs
  | cons b rest ih =>
      have hfirst := hturn b a s .here hs
      rw [List.foldlM_cons]
      refine of_bind hfirst fun a' s' h => ih (fun c a'' s'' hrest => ?_) ?_
      · exact hturn c a'' s'' (.later h hrest)
      · rw [h] at hfirst
        exact hfirst

/-- What all turns leave is so of the value at the end. -/
theorem value_of_fold (hkeep : ∀ b a s a' s', r a → outcome (f a b) env s = (.ok a', s') → r a') (ha : r a)
    (h : outcome (bs.foldlM f a) env s = (.ok a', s')) : r a' := by
  induction bs generalizing a s with
  | nil =>
      obtain rfl := Except.ok.inj (Prod.mk.inj h).1
      exact ha
  | cons b rest ih =>
      rw [List.foldlM_cons] at h
      obtain ⟨between, s₁, hfirst, hrest⟩ := ok_of_bind h
      exact ih (hkeep b a s between s₁ ha hfirst) hrest

/-- What one turn brings about and all others leave is so of the value at the end. -/
theorem value_of_turn (hturn : Turn f env bs a s b a' s')
    (hdone : ∀ after s'', outcome (f a' b) env s' = (.ok after, s'') → r after)
    (hkeep : ∀ b a s a' s', r a → outcome (f a b) env s = (.ok a', s') → r a')
    (h : outcome (bs.foldlM f a) env s = (.ok a'', s'')) : r a'' := by
  induction hturn with
  | here =>
      rw [List.foldlM_cons] at h
      obtain ⟨between, s₁, hfirst, hrest⟩ := ok_of_bind h
      exact value_of_fold hkeep (hdone between s₁ hfirst) hrest
  | later hfirst _ ih =>
      rw [List.foldlM_cons, bind_of_ok hfirst] at h
      exact ih hdone h

end Effect

namespace Operation

variable {α : Type} {visit : α → Path → Operation α} {host : Host} {depth : Nat} {a a' final : α}
  {path q : Path} {progress progress' progress'' : Progress} {p : Disk → Prop} {r : α → Prop}

/-- The walk through the directory at a path, and not more than some levels below it, visits the file at `q`
with a value and a progress. -/
inductive Visits (visit : α → Path → Operation α) (host : Host) :
    Nat → α → Path → Progress → Path → α → Progress → Prop where
  /-- The file is in the directory. -/
  | file {depth : Nat} {a a' : α} {path q : Path} {progress between progress' : Progress}
      {files directories : List Path}
      (hlisting : outcome (look (Inspection.listing path)) host progress =
        (.ok (files, directories), between))
      (hturn : Turn visit host files a between q a' progress') :
      Visits visit host (depth + 1) a path progress q a' progress'
  /-- All files in the directory were visited, and the file is below one of the directories in it. -/
  | deeper {depth : Nat} {a a₁ a₂ a' : α} {path directory q : Path}
      {progress between progress₁ progress₂ progress' : Progress} {files directories : List Path}
      (hlisting : outcome (look (Inspection.listing path)) host progress =
        (.ok (files, directories), between))
      (hfiles : outcome (files.foldlM visit a) host between = (.ok a₁, progress₁))
      (hturn : Turn (visitFilesTo visit depth) host directories a₁ progress₁ directory a₂ progress₂)
      (h : Visits visit host depth a₂ directory progress₂ q a' progress') :
      Visits visit host (depth + 1) a path progress q a' progress'

/-- What each visit keeps of the disk, a walk keeps. -/
theorem disk_of_visits
    (hvisit : ∀ q a' progress', Visits visit host depth a path progress q a' progress' →
      p progress'.disk → p (outcome (visit a' q) host progress').2.disk)
    (hp : p progress.disk) : p (outcome (visitFilesTo visit depth a path) host progress).2.disk := by
  induction depth generalizing a path progress with
  | zero => exact hp
  | succ depth ih =>
      rw [visitFilesTo]
      refine disk_of_bind (maintains_look _ host progress hp) fun (files, directories) between hlisting
        hbetween => ?_
      have hfold : p (outcome (files.foldlM visit a) host between).2.disk :=
        state_of_turns (p := fun progress : Progress => p progress.disk)
          (fun q a' progress' hturn => hvisit q a' progress' (.file hlisting hturn)) hbetween
      -- What is visited further down is visited by the whole walk, after the files here.
      refine disk_of_bind hfold fun a₁ progress₁ hfiles hp₁ => ?_
      exact state_of_turns (p := fun progress : Progress => p progress.disk)
        (fun directory a₂ progress₂ hturn hp₂ => ih (fun q a' progress' h =>
          hvisit q a' progress' (.deeper hlisting hfiles hturn h)) hp₂) hp₁

/-- What all visits leave is so of the value at the end of a walk. -/
theorem value_of_walk
    (hkeep : ∀ q a progress a' progress', r a →
      outcome (visit a q) host progress = (.ok a', progress') → r a') (ha : r a)
    (h : outcome (visitFilesTo visit depth a path) host progress = (.ok a', progress')) : r a' := by
  induction depth generalizing a path progress a' progress' with
  | zero =>
      obtain rfl := Except.ok.inj (Prod.mk.inj h).1
      exact ha
  | succ depth ih =>
      rw [visitFilesTo] at h
      obtain ⟨⟨files, directories⟩, between, -, h⟩ := ok_of_bind h
      obtain ⟨a₁, progress₁, hfiles, h⟩ := ok_of_bind h
      exact value_of_fold (fun directory a progress a' progress' => ih) (value_of_fold hkeep ha hfiles) h

/-- What one visit brings about and all others leave is so of the value at the end of a walk. -/
theorem value_of_visits (hvisits : Visits visit host depth a path progress q a' progress')
    (hdone : ∀ after progress'', outcome (visit a' q) host progress' = (.ok after, progress'') → r after)
    (hkeep : ∀ q a progress a' progress', r a →
      outcome (visit a q) host progress = (.ok a', progress') → r a')
    (h : outcome (visitFilesTo visit depth a path) host progress = (.ok final, progress'')) :
    r final := by
  have hwalk : ∀ depth directory a progress a' progress', r a →
      outcome (visitFilesTo visit depth a directory) host progress = (.ok a', progress') → r a' :=
    fun _ _ _ _ _ _ => value_of_walk hkeep
  induction hvisits generalizing final progress'' with
  | file hlisting hturn =>
      rw [visitFilesTo, bind_of_ok hlisting] at h
      obtain ⟨a₁, progress₁, hfiles, h⟩ := ok_of_bind h
      exact value_of_fold (hwalk _) (value_of_turn hturn hdone hkeep hfiles) h
  | deeper hlisting hfiles hturn _ ih =>
      rw [visitFilesTo, bind_of_ok hlisting] at h
      dsimp only at h
      rw [bind_of_ok hfiles] at h
      exact value_of_turn hturn (fun _ _ => ih hdone) (hwalk _) h

/-- A walk fails as its visits do, or at a path that no disk holds. -/
theorem fails_only_visit_files_to {p : Failure → Prop} (hnull : p .nullInPath)
    (hvisit : ∀ a q, FailsOnly p (visit a q)) (depth : Nat) (a : α) (path : Path) :
    FailsOnly p (visitFilesTo visit depth a path) := by
  induction depth generalizing a path with
  | zero => exact fails_only_pure a
  | succ depth ih =>
      have hlisting : FailsOnly p (Inspection.listing path) := by
        refine fails_only_guard hnull (fails_only_bind fails_only_read fun view => ?_)
        split <;> exact fails_only_pure _
      rw [visitFilesTo]
      exact fails_only_bind (fails_only_look hlisting) fun _ =>
        fails_only_bind (fails_only_fold hvisit _ a) fun a => fails_only_fold ih _ a

end Operation

end TrackedSections
