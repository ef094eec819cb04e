import Mathlib
import TrackedSections.Proofs.Tree.Places

/-!
# What a dry run tells

`Steady` says of an inspection that neither its outcome nor what it says depends on what was said before
it. A dry run is steady, so it comes to the same wherever it stands in a longer run. Read
`dry_run_foretells` first: a dry run leaves the disk, and a run that ends with an outcome ends with the
one that a dry run told.
-/

namespace TrackedSections

open Effect

/-! ## Inspections among others -/

namespace Inspection

variable {α β : Type}

/-- An inspection that comes to the same whatever was said before it. -/
def Steady (x : Inspection α) : Prop :=
  ∀ view notices, outcome x view notices = ((x.report view).1, notices ++ (x.report view).2)

theorem steady_pure (a : α) : Steady (pure a) := fun _ notices => by
  rw [report, ← outcome, outcome_pure, outcome_pure, List.append_nil]

theorem steady_throw (failure : Failure) : Steady (throw failure : Inspection α) := fun _ notices => by
  rw [report, ← outcome, outcome_throw, outcome_throw, List.append_nil]

theorem steady_read : Steady (read : Inspection View) := fun _ notices => by
  rw [report, ← outcome, outcome_read, outcome_read, List.append_nil]

theorem steady_tell_all (notices : List Notice) : Steady (tellAll notices) := fun _ _ => rfl

theorem steady_tell (notice : Notice) : Steady (tell notice) := fun _ _ => rfl

/-- Two steady inspections one after the other are steady. -/
theorem steady_bind {x : Inspection α} {f : α → Inspection β} (hx : Steady x)
    (hf : ∀ a, Steady (f a)) : Steady (x >>= f) := by
  intro view notices
  rw [report, ← outcome, outcome_bind, outcome_bind, hx view notices, hx view []]
  cases (x.report view).1 with
  | error failure => rfl
  | ok a =>
      dsimp only
      rw [hf a view, hf a view ([] ++ _), List.nil_append, List.append_assoc]

/-- What is done about a failure is steady when the rest is. -/
theorem steady_try_catch {x : Inspection α} {handle : Failure → Inspection α} (hx : Steady x)
    (hhandle : ∀ failure, Steady (handle failure)) : Steady (tryCatch x handle) := by
  intro view notices
  rw [report, ← outcome, outcome_try_catch, outcome_try_catch, hx view notices, hx view []]
  cases (x.report view).1 with
  | ok a => rfl
  | error failure =>
      dsimp only
      rw [hhandle failure view, hhandle failure view ([] ++ _), List.nil_append, List.append_assoc]

theorem steady_map (f : α → β) {x : Inspection α} (hx : Steady x) : Steady (f <$> x) :=
  steady_bind hx fun a => steady_pure (f a)

theorem steady_attempt {x : Inspection α} (hx : Steady x) : Steady (attempt x) :=
  steady_try_catch (steady_map Except.ok hx) fun failure => steady_pure (Except.error failure)

theorem steady_of_except (x : Except Failure α) : Steady (ofExcept x) := by
  cases x with
  | error failure => exact steady_throw failure
  | ok a => exact steady_pure a

theorem steady_expand (t : Text) : Steady (expand t) :=
  steady_bind steady_read fun _ => steady_of_except _

theorem steady_ask (question : Disk → Path → Except Refusal α) (p : Path) :
    Steady (ask question p) := by
  refine steady_bind steady_read fun view => ?_
  split
  · exact steady_pure _
  · exact steady_throw _

theorem steady_is_file (p : Path) : Steady (isFile p) := by
  unfold isFile
  split
  · exact steady_pure _
  · exact steady_ask Disk.isFile p

theorem steady_read_file (p : Path) : Steady (readFile p) := by
  unfold readFile
  split
  · exact steady_throw _
  · exact steady_ask Disk.read p

/-- An inspection that begins by checking something is steady when the rest is. -/
theorem steady_guard {c : Prop} [Decidable c] {failure : Failure} {rest : PUnit → Inspection β}
    (hrest : Steady (rest ⟨⟩)) : Steady (if c then throw failure >>= rest else rest ⟨⟩) := by
  split
  · exact steady_bind (steady_throw failure) fun _ => hrest
  · exact hrest

/-- Giving one failure or another is steady. -/
theorem steady_charge {c : Prop} [Decidable c] (failure failure' : Failure) :
    Steady (if c then throw failure else throw failure' : Inspection α) := by
  split <;> exact steady_throw _

theorem steady_open_file (path : Path) : Steady (openFile path) := by
  unfold openFile
  refine steady_guard ?_
  refine steady_bind steady_read fun view => ?_
  refine steady_bind (steady_bind steady_read fun _ => steady_pure _) fun file => ?_
  refine steady_guard ?_
  refine steady_bind (steady_attempt (steady_read_file path)) fun result => ?_
  split
  · exact steady_pure _
  · exact steady_charge _ _

end Inspection

open Inspection

theorem Sidecar.steady_load (path : Path) (content : Bytes) : Steady (Sidecar.load path content) := by
  refine steady_bind (steady_attempt (steady_read_file path)) fun result => ?_
  split
  · exact steady_of_except _
  · exact steady_charge _ _

namespace Document

theorem steady_of_octets (path : Path) (content : Bytes) (isReadOnly : Bool)
    (commentPrefix : Option Text) (config : Config) :
    Steady (ofOctets path content isReadOnly commentPrefix config) := by
  unfold ofOctets
  split
  · exact steady_throw _
  · exact steady_bind (steady_tell_all _) fun _ => steady_pure _

theorem steady_of_opened (path : Path) (content : Bytes) (isReadOnly : Bool)
    (commentPrefix : Option Text) (config : Config) :
    Steady (ofOpened path content isReadOnly commentPrefix config) := by
  refine steady_bind (steady_of_except _) fun sidecarPath => ?_
  refine steady_bind (steady_is_file sidecarPath) fun found => ?_
  split
  · exact steady_bind (Sidecar.steady_load sidecarPath content) fun _ => steady_pure _
  · exact steady_of_octets path content isReadOnly commentPrefix config

theorem steady_load (written : Text) (commentPrefix : Option Text) (config : Config) :
    Steady (load written commentPrefix config) := by
  refine steady_bind (steady_expand written) fun path => ?_
  refine steady_bind (steady_open_file path) fun opened => ?_
  have hrest := steady_of_opened path opened.1 opened.2 commentPrefix config
  dsimp only
  split
  · exact steady_bind (steady_tell _) fun _ => hrest
  · exact hrest

theorem steady_plan_creation (source : Document) (target : Path) :
    Steady (source.planCreation target) := by
  unfold planCreation
  split
  · exact steady_bind (steady_tell _) fun _ => steady_pure _
  · split
    · exact steady_bind (steady_tell _) fun _ => steady_pure _
    · exact steady_pure _

theorem steady_plan_update (source : Document) (path : Path) (config : Config) :
    Steady (source.planUpdate path config) := by
  refine steady_bind (steady_load _ _ config) fun target => ?_
  refine steady_bind (steady_tell_all _) fun _ => ?_
  split
  · exact steady_pure _
  · split <;> exact steady_pure _

/-- What is planned for a target does not depend on what was said before. -/
theorem steady_plan (source : Document) (config : Config) : Steady (source.plan config) := by
  unfold plan
  split
  · exact steady_bind (steady_tell _) fun _ => steady_pure _
  · refine steady_bind (steady_expand _) fun path => ?_
    refine steady_bind (steady_is_file path) fun found => ?_
    split
    · exact steady_plan_update source path config
    · exact steady_plan_creation source path

end Document

/-! ## A dry run and a real one -/

/-- What was told holds of a run from the disk `before` that ended with `result` and left the disk
`after`. An outcome of the run is the one that was told, and a failure that was told is the one that the
run ends with before it changes anything. -/
structure Foretells {α : Type} (told result : Except Failure α) (before after : Disk) : Prop where
  of_ok : ∀ a, result = .ok a → told = .ok a
  of_error : ∀ failure, told = .error failure → result = .error failure ∧ after = before

/-- What was told of a run that failed at once holds. -/
theorem Foretells.error {α : Type} (failure : Failure) (d : Disk) :
    Foretells (.error failure : Except Failure α) (.error failure) d d :=
  ⟨fun _ h => (nomatch h), fun _ h => ⟨h, rfl⟩⟩

/-- What was told holds of the outcome of a run with another form. -/
theorem Foretells.map {α β : Type} {told result : Except Failure α} {before after : Disk}
    (h : Foretells told result before after) (f : α → β) :
    Foretells (told.map f) (result.map f) before after := by
  constructor
  · intro b hb
    cases hresult : result with
    | error failure => simp [hresult, Except.map] at hb
    | ok a =>
        rw [hresult] at hb
        rw [h.of_ok a hresult, ← hb]
  · intro failure hfailure
    cases htold : told with
    | ok a => simp [htold, Except.map] at hfailure
    | error failure' =>
        rw [htold] at hfailure
        obtain rfl := Except.error.inj hfailure
        obtain ⟨hresult, hdisk⟩ := h.of_error failure' htold
        exact ⟨by rw [hresult]; rfl, hdisk⟩

/-- Looking at the disk gives the report of the inspection and leaves the disk. -/
theorem Operation.report_look {α : Type} (x : Inspection α) (view : View) :
    (Operation.look x).report view = (x.report view, view.disk) := by
  rw [report_eq, outcome_look, List.nil_append]

namespace Document

variable (source : Document) (config : Config)

/-- What is said of a plan adds to what was said, and nothing is said of a plan that does nothing. -/
theorem outcome_announce (plan : Plan) (view : View) (said : List Notice) : ∃ more,
    outcome (plan.announce source) view said = (.ok (), said ++ more) ∧
      (plan = .skip ∨ plan = .keep → more = []) := by
  cases plan with
  | skip | keep | create => exact ⟨[], by rw [List.append_nil]; rfl, fun _ => rfl⟩
  | update path target =>
      exact ⟨[.appliedToFile source.name path], rfl, fun h => by rcases h with h | h <;> cases h⟩

/-- A dry run and a real one make the same plan. The dry run tells its outcome and the real one carries it
out; without a plan both fail and the disk is as it was. -/
theorem dry_apply_cases (host : Host) (progress : Progress) (said : List Notice) :
    let dry := outcome (Inspection.dryApply source config) ⟨host, progress.disk⟩ said
    let run := outcome (Operation.apply source config) host progress
    (∃ failure notices, dry = (.error failure, said ++ notices) ∧
      run = (.error failure, ⟨progress.disk, progress.notices ++ notices⟩)) ∨
    ∃ (plan : Plan) (notices more : List Notice), dry = (.ok plan.outcome, said ++ notices ++ more) ∧
      run = outcome (do plan.carryOut source; pure plan.outcome) host
        ⟨progress.disk, progress.notices ++ notices⟩ ∧
      (plan = .skip ∨ plan = .keep → more = []) := by
  intro dry run
  have hdry : dry = outcome (Inspection.dryApply source config) ⟨host, progress.disk⟩ said := rfl
  have hrun : run = outcome (Operation.apply source config) host progress := rfl
  rw [Inspection.dryApply, outcome_bind, source.steady_plan config] at hdry
  rw [Operation.apply, outcome_bind, Operation.outcome_look] at hrun
  generalize (source.plan config).report ⟨host, progress.disk⟩ = planned at hdry hrun
  rcases planned with ⟨failure | plan, notices⟩
  · exact .inl ⟨failure, notices, hdry, hrun⟩
  · obtain ⟨more, hannounce, hnothing⟩ :=
      outcome_announce source plan ⟨host, progress.disk⟩ (said ++ notices)
    dsimp only at hdry
    rw [bind_of_ok hannounce, outcome_pure] at hdry
    exact .inr ⟨plan, notices, more, hdry, hrun, hnothing⟩

/-- A dry run foretells what applying the document comes to. -/
theorem dry_apply_foretells (host : Host) (progress : Progress) (said : List Notice) :
    Foretells (outcome (Inspection.dryApply source config) ⟨host, progress.disk⟩ said).1
      (outcome (Operation.apply source config) host progress).1 progress.disk
      (outcome (Operation.apply source config) host progress).2.disk := by
  rcases dry_apply_cases source config host progress said with ⟨failure, notices, hdry, hrun⟩ |
    ⟨plan, notices, more, hdry, hrun, -⟩
  · rw [hdry, hrun]
    exact .error failure progress.disk
  · refine ⟨fun result h => ?_, fun failure h => ?_⟩
    · rw [hrun] at h
      obtain ⟨_, _, -, hpure⟩ := ok_of_bind (Prod.ext h rfl)
      rw [hdry]
      exact (Prod.mk.inj hpure).1
    · rw [hdry] at h
      cases h

/-- A run of which nothing is to come does and says what a dry run does. -/
theorem apply_eq_dry_apply {view : View} {result : Outcome}
    (hresult : result = .skipped ∨ result = .unchanged)
    (h : ((Inspection.dryApply source config).report view).1 = .ok result) :
    (Operation.apply source config).report view =
      ((Inspection.dryApply source config).report view, view.disk) := by
  rw [Operation.report_eq]
  rw [Inspection.report, ← outcome] at h ⊢
  rcases dry_apply_cases source config view.host ⟨view.disk, []⟩ [] with
    ⟨failure, notices, hdry, -⟩ | ⟨plan, notices, more, hdry, hrun, hnothing⟩
  · rw [hdry] at h
    cases h
  · rw [hdry] at h
    have houtcome : plan.outcome = result := Except.ok.inj h
    have hidle : plan = .skip ∨ plan = .keep := by
      cases plan with
      | skip => exact .inl rfl
      | keep => exact .inr rfl
      | create target | update path target =>
          subst houtcome
          rcases hresult with hresult | hresult <;> cases hresult
    obtain rfl := hnothing hidle
    rw [hrun, hdry, List.append_nil]
    rcases hidle with rfl | rfl <;> rfl

end Document

/-- A dry run at a path foretells what applying the document there comes to. -/
theorem dry_apply_path_foretells (commentPrefix : Option Text) (config : Config) (path : Path)
    (view : View) (said : List Notice) :
    Foretells (outcome (Inspection.dryApplyPath commentPrefix config path) view said).1
      ((Operation.applyPath commentPrefix config path).report view).1.1 view.disk
      ((Operation.applyPath commentPrefix config path).report view).2 := by
  rw [Inspection.dryApplyPath, outcome_bind, Document.steady_load _ _ config view said,
    Operation.report_eq, Operation.applyPath, outcome_bind, Operation.outcome_look]
  rcases (Document.load path.toText commentPrefix config).report view with ⟨failure | source, notices⟩
  · exact .error failure view.disk
  · dsimp only
    split
    · exact ⟨fun _ h => h, fun _ h => by cases h⟩
    · rw [outcome_map, outcome_map]
      exact (source.dry_apply_foretells config view.host ⟨view.disk, _⟩ _).map some

/-- A dry run leaves the disk as it is and foretells the real run from there: what that ends with was told,
and what was to fail or to do nothing does no more than the dry run. A dry run over the files of a
directory leaves the disk as it is too, whatever fails. It gives every file its turn, each on that same
disk, and foretells for each of them what applying it comes to. -/
theorem dry_run_foretells (source : Document) (config : Config) (root : Text)
    (commentPrefix : Option Text) (view : View) :
    let dry := (Operation.look (Inspection.dryApply source config)).report view
    let run := (Operation.apply source config).report view
    let tree := (Operation.look (Inspection.dryApplyTree root commentPrefix config)).report view
    dry.2 = view.disk ∧ Foretells dry.1.1 run.1.1 view.disk run.2 ∧
    (dry.1.1 = .ok .skipped ∨ dry.1.1 = .ok .unchanged → run = dry) ∧
    tree.2 = view.disk ∧
    (∀ path paths, view.host.expand root = .ok path →
      (Inspection.walk path).report view = (.ok paths, []) →
      ∃ results : Results (Option Outcome), results.map Prod.fst = paths ∧
        tree.1.1 = results.settle ApplySummary.ofResults ∧
        ∀ r ∈ results, Foretells r.2
          ((Operation.applyPath commentPrefix config r.1).report view).1.1 view.disk
          ((Operation.applyPath commentPrefix config r.1).report view).2) := by
  intro dry run tree
  have hdry : dry = ((Inspection.dryApply source config).report view, view.disk) :=
    Operation.report_look _ view
  have htree : tree =
      ((Inspection.dryApplyTree root commentPrefix config).report view, view.disk) :=
    Operation.report_look _ view
  refine ⟨by rw [hdry], ?_, ?_, by rw [htree], ?_⟩
  · rw [hdry]
    exact source.dry_apply_foretells config view.host ⟨view.disk, []⟩ []
  · intro hidle
    rw [hdry] at hidle ⊢
    rcases hidle with hidle | hidle
    · exact source.apply_eq_dry_apply config (.inl rfl) hidle
    · exact source.apply_eq_dry_apply config (.inr rfl) hidle
  · intro path paths hroot hwalk
    obtain ⟨results, -, hpaths, hall, hsettle⟩ := Inspection.settle_of_walk
      (Inspection.dryApplyPath commentPrefix config)
      (fun path result => Foretells result
        ((Operation.applyPath commentPrefix config path).report view).1.1 view.disk
        ((Operation.applyPath commentPrefix config path).report view).2)
      ApplySummary.records
      (fun path said => dry_apply_path_foretells commentPrefix config path view said) hroot hwalk
    rw [htree]
    exact ⟨results, hpaths, hsettle, hall⟩

end TrackedSections
