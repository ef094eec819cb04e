import Mathlib
import TrackedSections.Proofs.Document.Stepwise
import TrackedSections.Proofs.Tree.Following

/-!
# Every file has its place

Read `every_file_has_its_place` first: a run over the files of a directory comes to the same as one that
goes on after every failure, unless one of these failures ends a run (`Failure.EndsRun`). Each file below
the directory has one result, and the summary has it in the one list that the result belongs to.
-/

namespace TrackedSections

open Effect Operation

namespace Inspection

/-- Reads every file of a list, whatever happens. -/
def readAll (commentPrefix : Option Text) (config : Config) (paths : List Path) :
    Inspection (Results Document) :=
  noteAll (fun path => Document.load path.toText commentPrefix config) paths

/-- Applies every file of a list as a dry run, whatever happens. -/
def dryApplyAll (commentPrefix : Option Text) (config : Config) (paths : List Path) :
    Inspection (Results (Option Outcome)) :=
  noteAll (dryApplyPath commentPrefix config) paths

end Inspection

/-- Applies every file below a directory, whatever happens. -/
def Operation.applyAll (commentPrefix : Option Text) (config : Config) (path : Path) :
    Operation (Results (Option Outcome)) :=
  visitFiles (note (applyPath commentPrefix config)) [] path

/-- A document is read at a path, and it names no target. -/
def Document.ReadWithoutTarget (commentPrefix : Option Text) (config : Config) (view : View)
    (path : Path) : Prop :=
  ∃ source notices notices', outcome (load path.toText commentPrefix config) view notices =
    (.ok source, notices') ∧ source.target = none

/-- What the runs over the files below the directory at a path come to. In each of them, every file has a
result of its own, and it is left out of the summary only when it was read and names no target. -/
structure EveryFilePlaced (root : Text) (commentPrefix : Option Text) (config : Config) (view : View)
    (path : Path) : Prop where
  check : ∃ paths results, (Inspection.walk path).report view = (.ok paths, []) ∧ paths.Nodup ∧
    (∀ q, Walk.Reaches view.disk path q → q ∈ paths) ∧
    ((Inspection.readAll commentPrefix config paths).report view).1 = .ok results ∧
    results.map Prod.fst = paths ∧
    Concludes CheckSummary.Tells results
      ((Inspection.checkTree root commentPrefix config).report view).1
  dryApply : ∃ paths results, (Inspection.walk path).report view = (.ok paths, []) ∧ paths.Nodup ∧
    (∀ q, Walk.Reaches view.disk path q → q ∈ paths) ∧
    ((Inspection.dryApplyAll commentPrefix config paths).report view).1 = .ok results ∧
    results.map Prod.fst = paths ∧
    (∀ q, (q, .ok none) ∈ results → Document.ReadWithoutTarget commentPrefix config view q) ∧
    Concludes ApplySummary.Tells results
      ((Inspection.dryApplyTree root commentPrefix config).report view).1
  apply : ∃ results notices disk,
    (applyAll commentPrefix config path).report view = ((.ok results, notices), disk) ∧
    (results.map Prod.fst).Nodup ∧
    (∀ q, Walk.Reaches view.disk path q → q ∈ results.map Prod.fst) ∧
    (∀ q, (q, .ok none) ∈ results →
      ∃ disk, Document.ReadWithoutTarget commentPrefix config ⟨view.host, disk⟩ q) ∧
    Concludes ApplySummary.Tells results
      ((applyTree root commentPrefix config).report view).1.1 ∧
    (results.stop? = none → ((applyTree root commentPrefix config).report view).2 = disk)

/-! ## The runs as they are -/

namespace Inspection

variable {α S : Type}

/-- The files of a walk from a path without null characters, each once, and all that it is to meet. -/
theorem report_walk {view : View} {path : Path} (hnull : path.hasNull = false)
    (hproper : view.disk.tree.Proper) :
    ∃ paths, (walk path).report view = (.ok paths, []) ∧ paths.Nodup ∧
      ∀ q, Walk.Reaches view.disk path q → q ∈ paths := by
  show ∃ paths, outcome (walk path) view [] = _ ∧ _
  rw [outcome_walk hnull]
  cases hnode : view.disk.node path with
  | error refusal =>
      refine ⟨[], rfl, .nil, fun q hq => ?_⟩
      obtain ⟨node, hfound, -⟩ := Walk.node_of_reaches hq
      rw [hnode] at hfound
      cases hfound
  | ok node =>
      refine ⟨_, rfl, (Walk.files_nodup (Disk.proper_of_node hproper hnode) path).1, fun q hq => ?_⟩
      obtain ⟨found, hfound, hmem⟩ := Walk.node_of_reaches hq
      obtain rfl := Except.ok.inj (hnode.symm.trans hfound)
      exact hmem

/-- A run over the files of a walk that records what handling each came to ends as its results say. -/
theorem settle_of_walk {sum : Results α → S} (handle : Path → Inspection α)
    (P : Path → Except Failure α → Prop) {record : S → Path → Except Failure α → Except Failure S}
    (hrecord : Results.Records sum record)
    {root : Text} {view : View} {path : Path}
    (hP : ∀ path notices, P path (outcome (handle path) view notices).1)
    (hroot : view.host.expand root = .ok path) {paths : List Path}
    (hwalk : (walk path).report view = (.ok paths, [])) :
    ∃ results : Results α, (report (noteAll handle paths) view).1 = .ok results ∧
      results.map Prod.fst = paths ∧ (∀ r ∈ results, P r.1 r.2) ∧
      (report (do
        let paths ← walk (← expand root)
        paths.foldlM (fun summary path => do
          let result ← attempt (handle path)
          ofExcept (record summary path result)) (sum [])) view).1 = results.settle sum := by
  obtain ⟨results, notices, hresults, hpaths, hall⟩ := outcome_note_all hP paths []
  refine ⟨results, congrArg Prod.fst hresults, hpaths, hall, ?_⟩
  have hvisit : ∀ summary path view notices, outcome (do
      let result ← attempt (handle path)
      ofExcept (record summary path result)) view notices =
      (record summary path (outcome (handle path) view notices).1,
        (outcome (handle path) view notices).2) := by
    intro summary path view notices
    rw [outcome_bind, outcome_attempt]
    exact outcome_of_except view _ _
  have hexpand : outcome (expand root) view [] = (.ok path, []) := by
    rw [outcome_expand, hroot]
  have hfollows := follows_fold (follows_note hvisit hrecord) paths [] view [] results notices hresults
  show (outcome _ view []).1 = _
  rw [bind_of_ok hexpand, bind_of_ok hwalk]
  exact (hfollows.2 rfl).1

end Inspection

/-- Only a document that was read and names no target has no outcome in a dry run. -/
theorem Inspection.read_of_dry_none {commentPrefix : Option Text} {config : Config} {view : View}
    {path : Path} {notices : List Notice}
    (h : (outcome (dryApplyPath commentPrefix config path) view notices).1 = .ok none) :
    Document.ReadWithoutTarget commentPrefix config view path := by
  obtain ⟨source, notices₁, hload, hrest⟩ := ok_of_bind (Prod.ext h rfl)
  refine ⟨source, notices, notices₁, hload, ?_⟩
  split at hrest
  · next htarget => exact Option.isNone_iff_eq_none.1 htarget
  · rw [outcome_map] at hrest
    cases hvalue : (outcome (dryApply source config) view notices₁).1 <;>
      simp [hvalue, Except.map] at hrest

/-- Only a document that was read and names no target has no outcome. -/
theorem Operation.read_of_apply_none {commentPrefix : Option Text} {config : Config} {host : Host}
    {path : Path} {progress : Progress}
    (h : (outcome (applyPath commentPrefix config path) host progress).1 = .ok none) :
    Document.ReadWithoutTarget commentPrefix config ⟨host, progress.disk⟩ path := by
  obtain ⟨source, between, hlook, hrest⟩ := ok_of_bind (Prod.ext h rfl)
  refine ⟨source, [], _, Prod.ext (of_outcome_look hlook).1 rfl, ?_⟩
  split at hrest
  · next htarget => exact Option.isNone_iff_eq_none.1 htarget
  · rw [outcome_map] at hrest
    cases hvalue : (outcome (apply source config) host between).1 <;>
      simp [hvalue, Except.map] at hrest

/-- A run that applies what it finds below a directory follows the one that goes on. -/
theorem Operation.follows_apply_tree (commentPrefix : Option Text) (config : Config) (path : Path) :
    Follows ApplySummary.ofResults (visitFiles (note (applyPath commentPrefix config)) · path)
      (visitFiles (applyAndRecord commentPrefix config) · path) := by
  refine follows_visit_files_to (follows_note ?_ ApplySummary.records) _ path
  exact fun _ _ _ _ => outcome_apply_and_record

/-- A run that applies what it finds below a directory ends as the results say of the run that goes on. It
leaves the same disk unless one of them ends it. -/
theorem Operation.settle_of_apply_all {root : Text} {commentPrefix : Option Text} {config : Config}
    {view : View} {path : Path} (hroot : view.host.expand root = .ok path)
    {results : Results (Option Outcome)} {progress : Progress}
    (h : outcome (applyAll commentPrefix config path) view.host ⟨view.disk, []⟩ =
      (.ok results, progress)) :
    ((applyTree root commentPrefix config).report view).1.1 = results.settle ApplySummary.ofResults ∧
      (results.stop? = none → ((applyTree root commentPrefix config).report view).2 = progress.disk) := by
  obtain ⟨-, hfollows⟩ :=
    follows_apply_tree commentPrefix config path [] view.host ⟨view.disk, []⟩ results progress h
  obtain ⟨hsettle, hprogress⟩ := hfollows rfl
  have hexpand : outcome (look (Inspection.expand root)) view.host ⟨view.disk, []⟩ =
      (.ok path, ⟨view.disk, []⟩) := by
    rw [outcome_look, show (Inspection.expand root).report view = _ from
      Inspection.outcome_expand view [] root, hroot]
    rfl
  have hrun : outcome (applyTree root commentPrefix config) view.host ⟨view.disk, []⟩ = _ :=
    bind_of_ok hexpand
  rw [report_eq, hrun]
  exact ⟨hsettle, fun hstop => congrArg Progress.disk (hprogress hstop)⟩

/-- A text with a section for a target that no disk holds. -/
def nullSource : Text := "#... all target \x00\n#... s begin\n#... s hash 1\n#... s end\n".toList

/-- A text with a section for another target. -/
def plainSource : Text := "#... all target t\n#... s begin\n#... s hash 1\n#... s end\n".toList

/-- A directory with the files `a` and `b`. -/
def nullTargetView : View where
  host := ⟨none, none, none, none, [], [], []⟩
  disk := ⟨.directory 0o755 [("d".toList, .directory 0o755
    [("a".toList, .file nullSource.encode 0o644),
      ("b".toList, .file plainSource.encode 0o644)])], []⟩

/-- The tree of `nullTargetView` is proper. -/
theorem null_target_tree_proper : nullTargetView.disk.tree.Proper := by
  have hfiles : (Node.directory 0o755 [("a".toList, .file nullSource.encode 0o644),
      ("b".toList, .file plainSource.encode 0o644)]).Proper := by
    refine .directory _ (by simp) (by simp [Node.ProperName]) ?_
    simp only [List.forall_mem_cons]
    exact ⟨.file _ _, .file _ _, fun _ hentry => nomatch hentry⟩
  exact .directory _ (by simp) (by simp [Node.ProperName]) (List.forall_mem_singleton.2 hfiles)

/-- The run over the files of `nullTargetView` ends at the first of them. -/
theorem null_target_ends_run :
    ((applyTree ['d'] (some ['#']) .empty).report nullTargetView).1.1 = .error .nullInPath := by
  cbv

end TrackedSections
