import TrackedSections.Document.Apply
import TrackedSections.Proofs.Document.Loading
import TrackedSections.Proofs.Document.Saving

/-!
# What may be planned for the target of a document

`Planned` says what must be so for a plan to be made, and `planned_of_plan` that nothing else is
planned. `report_apply` says that applying a document is to make a plan and to carry it out.
-/

namespace TrackedSections.Document

open Effect

/-- The comment prefix with which the target of a document is read. -/
def targetPrefix (source : Document) : Option Text :=
  if source.hasSidecar then none else some source.commentPrefix

theorem target_prefix_eq {source : Document} (h : source.sidecar = none) :
    source.targetPrefix = some source.commentPrefix := by
  simp [targetPrefix, hasSidecar, h]

/-- The plans for the target of a document, and when they are made. -/
inductive Planned (source : Document) (config : Config) (view : View) : Plan → Prop where
  /-- The document names no target, or it is not fit to create one. -/
  | skip : Planned source config view .skip
  /-- The target takes nothing or stays the same text. -/
  | keep : Planned source config view .keep
  /-- There is no file at the target. -/
  | create {written : Text} {path : Path} (htarget : source.target = some written)
      (hexpand : view.host.expand written = .ok path)
      (hfile : path.hasNull = true ∨ view.disk.isFile path = .ok false)
      (hmanaged : source.isManaged = true)
      (hmodified : source.hasSidecar = true → source.isModified = false) :
      Planned source config view (.create path)
  /-- The target takes something. -/
  | update {written : Text} {path : Path} {target : Document} {notices notices' : List Notice}
      (htarget : source.target = some written) (hexpand : view.host.expand written = .ok path)
      (hnull : path.hasNull = false) (hfile : view.disk.isFile path = .ok true)
      (hload : outcome (load path.toText source.targetPrefix config) view notices =
        (.ok target, notices'))
      (hchanged : (target.apply source).isChanged = true) :
      Planned source config view (.update path (target.apply source).target)

variable {source : Document} {config : Config} {view : View} {notices notices' : List Notice}
  {plan : Plan}

/-- What is planned for a target that does not exist. -/
theorem plan_creation_cases {path : Path}
    (h : outcome (source.planCreation path) view notices = (.ok plan, notices')) :
    plan = .skip ∨ (plan = .create path ∧ source.isManaged = true ∧
      (source.hasSidecar = true → source.isModified = false)) := by
  unfold planCreation at h
  split at h
  · obtain ⟨_, _, -, h⟩ := ok_of_bind h
    exact .inl (Except.ok.inj (Prod.mk.inj h).1).symm
  · next hsidecar =>
      split at h
      · obtain ⟨_, _, -, h⟩ := ok_of_bind h
        exact .inl (Except.ok.inj (Prod.mk.inj h).1).symm
      · next hmanaged =>
          refine .inr ⟨(Except.ok.inj (Prod.mk.inj h).1).symm, by simpa using hmanaged, ?_⟩
          simpa using hsidecar

/-- What is planned for a target that exists. -/
theorem plan_update_cases {path : Path}
    (h : outcome (source.planUpdate path config) view notices = (.ok plan, notices')) :
    plan = .keep ∨ ∃ target notices₁ notices₂,
      outcome (load path.toText source.targetPrefix config) view notices₁ =
        (.ok target, notices₂) ∧
      (target.apply source).isChanged = true ∧
      plan = .update path (target.apply source).target := by
  obtain ⟨target, notices₁, hload, h⟩ := ok_of_bind h
  obtain ⟨_, _, -, h⟩ := ok_of_bind h
  split at h
  · exact .inl (Except.ok.inj (Prod.mk.inj h).1).symm
  · next hchanged =>
      split at h
      · exact .inl (Except.ok.inj (Prod.mk.inj h).1).symm
      · exact .inr ⟨target, _, notices₁, hload, by simpa using hchanged,
          (Except.ok.inj (Prod.mk.inj h).1).symm⟩

/-- Nothing is planned that `Planned` does not describe. -/
theorem planned_of_plan (h : outcome (source.plan config) view notices = (.ok plan, notices')) :
    Planned source config view plan := by
  unfold Document.plan at h
  split at h
  · obtain ⟨_, _, -, h⟩ := ok_of_bind h
    obtain rfl := (Except.ok.inj (Prod.mk.inj h).1).symm
    exact .skip
  · next written htarget =>
      obtain ⟨path, _, hexpand, h⟩ := ok_of_bind h
      rw [Inspection.outcome_expand] at hexpand
      have hexpand := (Prod.mk.inj hexpand).1
      obtain ⟨found, _, hfound, h⟩ := ok_of_bind h
      have hanswer := Inspection.of_outcome_is_file hfound
      cases found with
      | true =>
          obtain ⟨hnull, hfile⟩ := hanswer.resolve_left (by simp)
          rcases plan_update_cases h with rfl | ⟨target, _, _, hload, hchanged, rfl⟩
          · exact .keep
          · exact .update htarget hexpand hnull hfile hload hchanged
      | false =>
          rcases plan_creation_cases h with rfl | ⟨rfl, hmanaged, hmodified⟩
          · exact .skip
          · exact .create htarget hexpand (hanswer.imp And.left And.right) hmanaged hmodified

theorem planned_of_report (h : ((source.plan config).report view).1 = .ok plan) :
    Planned source config view plan := by
  have hplan : outcome (source.plan config) view [] = (.ok plan, _) := Prod.ext h rfl
  exact planned_of_plan hplan

/-- Carrying out an update maintains what saving the target does. -/
theorem maintains_carry_out_update {p : Disk → Prop} {path : Path} {target : Document}
    (h : Operation.MaintainsDisk p target.save) :
    Operation.MaintainsDisk p (Plan.carryOut source (.update path target)) :=
  maintains_bind h fun _ => Operation.maintains_tell (.appliedToFile source.name path)

/-- Applying a document makes a plan and carries it out, or fails without a plan. -/
theorem report_apply (source : Document) (config : Config) (view : View) :
    (∃ failure notices, (source.plan config).report view = (.error failure, notices) ∧
      (Operation.apply source config).report view = ((.error failure, notices), view.disk)) ∨
    ∃ plan notices, (source.plan config).report view = (.ok plan, notices) ∧
      (Operation.apply source config).report view =
        (((outcome (plan.carryOut source) view.host ⟨view.disk, notices⟩).1.map
            fun _ => plan.outcome,
          (outcome (plan.carryOut source) view.host ⟨view.disk, notices⟩).2.notices),
          (outcome (plan.carryOut source) view.host ⟨view.disk, notices⟩).2.disk) := by
  rw [Operation.report_eq, Operation.apply, outcome_bind, Operation.outcome_look]
  rcases (source.plan config).report view with ⟨failure | plan, notices⟩
  · exact .inl ⟨failure, notices, rfl, rfl⟩
  · refine .inr ⟨plan, notices, rfl, ?_⟩
    dsimp only
    rw [List.nil_append, outcome_bind]
    rcases outcome (plan.carryOut source) view.host ⟨view.disk, notices⟩ with ⟨_ | _, progress⟩ <;>
      rfl

/-- What was applied with an outcome had a plan with that outcome, which was carried out. -/
theorem plan_of_outcome {result : Outcome}
    (h : ((Operation.apply source config).report view).1.1 = .ok result) :
    ∃ plan notices progress, Planned source config view plan ∧ plan.outcome = result ∧
      outcome (plan.carryOut source) view.host ⟨view.disk, notices⟩ = (.ok (), progress) ∧
      ((Operation.apply source config).report view).2 = progress.disk := by
  rcases report_apply source config view with ⟨failure, notices, -, hreport⟩ |
    ⟨plan, notices, hplan, hreport⟩
  · rw [hreport] at h
    cases h
  · rw [hreport] at h ⊢
    cases hcarry : outcome (plan.carryOut source) view.host ⟨view.disk, notices⟩ with
    | mk carried progress =>
        rw [hcarry] at h
        cases carried with
        | error failure => cases h
        | ok _ => exact ⟨plan, notices, progress, planned_of_plan hplan, Except.ok.inj h, hcarry, rfl⟩

/-- An update that was carried out saved the target. -/
theorem save_of_update {path : Path} {target : Document} {host : Host}
    {progress progress' : Progress}
    (h : outcome (Plan.carryOut source (.update path target)) host progress = (.ok (), progress')) :
    ∃ saved between, outcome target.save host progress = (.ok saved, between) ∧
      progress'.disk = between.disk := by
  obtain ⟨saved, between, hsave, htell⟩ := ok_of_bind h
  obtain rfl := (Prod.mk.inj htell).2
  exact ⟨saved, between, hsave, rfl⟩

/-- A creation that was carried out made the file first and then wrote what is created. -/
theorem steps_of_create {path : Path} {host : Host} {progress progress' : Progress}
    (h : outcome (Plan.carryOut source (.create path)) host progress = (.ok (), progress')) :
    ∃ isNew before between,
      outcome (Operation.createFile path.toText) host progress = (.ok isNew, before) ∧
      outcome (match source.sidecar with
        | some s => source.createWithSidecar s path
        | none => source.createWithSections path) host before = (.ok (), between) ∧
      progress'.disk = between.disk := by
  obtain ⟨isNew, before, hcreate, h⟩ := ok_of_bind h
  refine ⟨isNew, before, ?_⟩
  cases hsidecar : source.sidecar with
  | none | some s =>
      rw [hsidecar] at h
      obtain ⟨_, between, hdone, htell⟩ := ok_of_bind h
      obtain rfl := (Prod.mk.inj htell).2
      exact ⟨between, hcreate, hdone, rfl⟩

/-- A target that was created with sections was saved. -/
theorem save_of_sections {path : Path} {host : Host} {progress progress' : Progress}
    (h : outcome (source.createWithSections path) host progress = (.ok (), progress')) :
    ∃ saved, outcome (source.createdFrom path).save host progress = (.ok saved, progress') := by
  obtain ⟨saved, between, hsave, hpure⟩ := ok_of_bind h
  obtain rfl := (Prod.mk.inj hpure).2
  exact ⟨saved, hsave⟩

/-- A creation that was carried out saved what is created from the source. -/
theorem save_of_create (hsidecar : source.sidecar = none) {path : Path} {host : Host}
    {progress progress' : Progress}
    (h : outcome (Plan.carryOut source (.create path)) host progress = (.ok (), progress')) :
    ∃ before saved between, outcome (source.createdFrom path).save host before =
      (.ok saved, between) ∧ progress'.disk = between.disk := by
  obtain ⟨_, before, between, -, hcreate, hdisk⟩ := steps_of_create h
  rw [hsidecar] at hcreate
  obtain ⟨saved, hsave⟩ := save_of_sections hcreate
  exact ⟨before, saved, between, hsave, hdisk⟩

end TrackedSections.Document
