import TrackedSections.CommandLine.Execution
import TrackedSections.Proofs.Merge.Reachable

/-!
# Commands that only look

Some commands only show something, and an update that prints and a dry run only tell what another
command would do. Read `execute_leaves_disk` first: whatever the arguments, a run of such a command
leaves every file, directory and permission bit as it is, also when it fails.
-/

namespace TrackedSections.CommandLine

open TrackedSections.Effect TrackedSections.Operation

/-- The commands that write nothing: those that show something, an update that prints, and a dry
run. -/
def Command.isInspection : Command → Bool
  | .info _ | .query _ _ | .check _ => true
  | .update _ _ _ printsOnly => printsOnly
  | .apply _ isDry => isDry
  | .compile _ _ | .delete _ _ => false

section

variable {p : Disk → Prop}

/-- Replying to a failure changes nothing. -/
theorem maintains_answered {x : Operation Reply} (hx : MaintainsDisk p x) :
    MaintainsDisk p (Operation.answered x) := by
  refine maintains_try_catch hx fun failure => ?_
  split
  · exact maintains_pure _
  · exact maintains_throw _

/-- An update that prints comes to a reply, never to a target that is to be written. -/
theorem updated_of_printing {settings : Settings} {written : Text} {input : Argument}
    {sections : List Argument} {view : View} {notices notices' : List Notice} {result : Updated}
    (h : outcome (updated settings written input sections true) view notices
      = (.ok result, notices')) : ∃ reply, result = .done reply := by
  unfold updated at h
  obtain ⟨config, _, -, h⟩ := ok_of_bind h
  obtain ⟨target, _, -, h⟩ := ok_of_bind h
  obtain ⟨input?, _, -, h⟩ := ok_of_bind h
  cases input? with
  | none => exact ⟨upToDate, (Except.ok.inj (Prod.mk.inj h).1).symm⟩
  | some taken =>
      obtain ⟨seen, _, -, h⟩ := ok_of_bind h
      obtain ⟨_, _, -, h⟩ := ok_of_bind h
      obtain ⟨_, _, -, h⟩ := ok_of_bind h
      exact ⟨_, (Except.ok.inj (Prod.mk.inj h).1).symm⟩

/-- An update that prints changes nothing. -/
theorem maintains_printing_update (settings : Settings) (written : Text) (input : Argument)
    (sections : List Argument) :
    MaintainsDisk p (update settings written input sections true) := by
  refine maintains_answered fun host progress hp => ?_
  refine disk_of_bind (maintains_look _ host progress hp) fun result progress' hlook hp' => ?_
  rw [outcome_look] at hlook
  obtain ⟨reply, rfl⟩ := updated_of_printing (Prod.ext (Prod.mk.inj hlook).1 rfl)
  exact hp'

/-- A command that only looks maintains every property of the disk. -/
theorem Command.maintains_inspection {command : Command} (h : command.isInspection = true)
    (settings : Settings) : MaintainsDisk p (command.run settings) := by
  unfold Command.run
  cases command with
  | compile file wantsSidecar => cases h
  | delete file name => cases h
  | info file => exact maintains_look _
  | query file sections => exact maintains_look _
  | check directory => exact maintains_look _
  | update target input sections printsOnly =>
      obtain rfl : printsOnly = true := h
      exact maintains_printing_update settings target input sections
  | apply file isDry =>
      obtain rfl : isDry = true := h
      dsimp only
      rw [if_pos rfl]
      exact maintains_look _

end

/-- A run whose arguments ask for a command that only looks, for help or for nothing that can be done
leaves the disk, whether it ends with a reply of success, with one of failure, or with a failure. -/
theorem execute_leaves_disk (arguments : List Text) (view : View)
    (h : ∀ invocation, Invocation.read arguments = .ok invocation →
      invocation.command.isInspection = true) :
    (execute arguments view).disk = view.disk := by
  unfold execute
  cases hread : Invocation.read arguments with
  | error stop => cases stop <;> rfl
  | ok invocation =>
      have hdisk : ((invocation.command.run invocation.settings).report view).2 = view.disk :=
        Command.maintains_inspection (p := (· = view.disk)) (h invocation hread)
          invocation.settings view.host ⟨view.disk, []⟩ rfl
      dsimp only
      generalize (invocation.command.run invocation.settings).report view = result at hdisk ⊢
      obtain ⟨⟨outcome, notices⟩, disk⟩ := result
      cases outcome <;> exact hdisk

/-- The arguments of an update of the file `t` that prints, with a configuration that is not there. -/
def printingArguments : List Text :=
  ["--syntax", "#", "--config", "c", "update", "-p", "t"].map String.toList

/-- An update that prints a file whose section is replaced does not write it. -/
theorem printed_update_leaves_file :
    let view := Document.filesOnly [(['t'], Document.sourcedTarget), (['f'], Document.acceptedSource)]
    let run := execute printingArguments view
    (∀ invocation, Invocation.read printingArguments = .ok invocation →
      invocation.command.isInspection = true) ∧
    run.exitCode.toOption = some 0 ∧ run.output ≠ Document.sourcedTarget ∧ run.disk = view.disk := by
  intro view run
  have hread : (Invocation.read printingArguments).toOption.all (·.command.isInspection) = true := by
    decide +kernel
  have hlooks : ∀ invocation, Invocation.read printingArguments = .ok invocation →
      invocation.command.isInspection = true := by
    intro invocation h
    rw [h] at hread
    exact hread
  obtain ⟨hexit, houtput⟩ : run.exitCode.toOption = some 0 ∧ run.output ≠ Document.sourcedTarget := by
    decide +kernel
  exact ⟨hlooks, hexit, houtput, execute_leaves_disk printingArguments view hlooks⟩

end TrackedSections.CommandLine
