import TrackedSections.Proofs.Disk.Proper
import TrackedSections.Proofs.Document.Creation
import TrackedSections.Tree

/-!
# Applying a document step by step

Whatever applying a document does to the disk is a series of changes at paths without null characters,
and only at some of these something is written (`Document.Writes`, `Plan.Writes`). Read
`Plan.maintains_carry_out` first: a property that such changes keep is kept by the whole, whether it
fails or not.
-/

namespace TrackedSections

open Effect Operation

/-- A property of disks that is kept by writing and by setting permission bits at the paths that are
`written`, and by touching and making directories at all paths. -/
structure Disk.KeptAt (p : Disk → Prop) (written : Path → Prop) : Prop where
  write : ∀ {path : Path} {content : Bytes} {d d' : Disk}, written path → path.hasNull = false →
    p d → d.write path content = .ok d' → p d'
  changeMode : ∀ {path : Path} {mode : Nat} {d d' : Disk}, written path → path.hasNull = false →
    p d → d.changeMode path mode = .ok d' → p d'
  touch : ∀ {path : Path} {d d' : Disk}, path.hasNull = false → p d → d.touch path = .ok d' → p d'
  makeDirectory : ∀ {path : Path} {d d' : Disk}, path.hasNull = false → p d →
    d.makeDirectory path = .ok d' → p d'

variable {p : Disk → Prop} {written : Path → Prop}

/-- What every step keeps is kept wherever something is written. -/
theorem Disk.kept_at_of_step (hstep : ∀ d d' : Disk, p d → d.Step d' → p d') :
    Disk.KeptAt p fun _ => True where
  write _ hnull hd h := hstep _ _ hd (.write hnull h)
  changeMode _ hnull hd h := hstep _ _ hd (.changeMode hnull h)
  touch hnull hd h := hstep _ _ hd (.touch hnull h)
  makeDirectory hnull hd h := hstep _ _ hd (.makeDirectory hnull h)

section Look

variable {α β : Type} {host : Host} {progress : Progress}

/-- What holds of the disk before a look holds after it, and then after each way to go on from what the
look gives. -/
theorem Operation.disk_of_look_bind {x : Inspection α} {f : α → Operation β} (hp : p progress.disk)
    (hf : ∀ a progress', (x.report ⟨host, progress.disk⟩).1 = .ok a → progress'.disk = progress.disk →
      p (outcome (f a) host progress').2.disk) :
    p (outcome (look x >>= f) host progress).2.disk := by
  refine disk_of_bind (maintains_look x host progress hp) fun a progress' h _ => ?_
  obtain ⟨hanswer, hdisk⟩ := of_outcome_look h
  exact hf a progress' hanswer hdisk

/-- A look at a value that was computed before tells what it is. -/
theorem Operation.maintains_look_of_except_bind {x : Except Failure α} {f : α → Operation β}
    (hf : ∀ a, x = .ok a → MaintainsDisk p (f a)) :
    MaintainsDisk p (look (Inspection.ofExcept x) >>= f) := by
  refine fun host progress hp => disk_of_look_bind hp fun a progress' h hdisk => ?_
  have hx : x = .ok a :=
    (congrArg Prod.fst (Inspection.outcome_of_except ⟨host, progress.disk⟩ [] x)).symm.trans h
  have hp' : p progress'.disk := hdisk ▸ hp
  exact hf a hx host progress' hp'

end Look

/-- The paths that saving a document writes to. -/
inductive Document.Writes (d : Document) : Path → Prop where
  | file {path : Path} (hpath : d.path = some path) (hreadOnly : d.isReadOnly = false) :
      Writes d path
  | sidecar {s : Sidecar} (hsidecar : d.sidecar = some s) : Writes d s.path

/-- The paths that carrying out a plan for a source writes to. -/
inductive Plan.Writes (source : Document) : Plan → Path → Prop where
  | target {path : Path} : Writes source (.create path) path
  | sidecar {s : Sidecar} {path sidecarPath : Path} (hsidecar : source.sidecar = some s)
      (hpath : Sidecar.pathFor path = .ok sidecarPath) : Writes source (.create path) sidecarPath
  | update {path written : Path} {target : Document} (hwrites : target.Writes written) :
      Writes source (.update path target) written

section Steps

variable (hkept : Disk.KeptAt p written)
include hkept

theorem Operation.maintains_write_file {path : Path} (hpath : written path) (content : Bytes) :
    MaintainsDisk p (writeFile path content) :=
  maintains_change fun hnull _ _ hd h => hkept.write hpath hnull hd h

theorem Operation.maintains_mode_step {path : Path} (hpath : written path) (permissions : Int) :
    MaintainsDisk p (setPermissions path permissions) :=
  maintains_set_permissions fun hnull _ _ _ hd h => hkept.changeMode hpath hnull hd h

theorem Operation.maintains_creation_step (name : Text) : MaintainsDisk p (createFile name) :=
  maintains_create_file (fun _ _ _ hnull hd h => hkept.makeDirectory hnull hd h)
    (fun _ _ _ hnull hd h => hkept.touch hnull hd h) name

/-- Saving a sidecar is a write to its path. -/
theorem Sidecar.maintains_save {s : Sidecar} (hpath : written s.path) : MaintainsDisk p s.save := by
  unfold save
  split
  · exact maintains_throw _
  · exact maintains_explain (maintains_write_file hkept hpath _)

namespace Document

/-- Permission bits are set or left. -/
theorem maintains_permissions {path : Path} (hpath : written path) (permissions : Option Int) :
    MaintainsDisk p (match permissions with
      | some permissions => setPermissions path permissions
      | none => pure ()) := by
  cases permissions with
  | none => exact maintains_pure _
  | some permissions => exact maintains_mode_step hkept hpath permissions

/-- Saving a document, with or without a sidecar, is a series of steps. -/
theorem maintains_save_steps {d : Document} (hwrites : ∀ q, d.Writes q → written q) :
    MaintainsDisk p d.save := by
  have hsave : ∀ path, written path → MaintainsDisk p (do d.saveTo path; pure path) := by
    intro path hpath
    refine maintains_bind (maintains_bind (maintains_explain ?_) fun _ => ?_) fun _ =>
      maintains_pure _
    · unfold saveContent
      split
      · next hsidecar =>
          exact maintains_bind (maintains_write_file hkept hpath _) fun _ =>
            Sidecar.maintains_save hkept (hwrites _ (.sidecar hsidecar))
      · exact maintains_write_file hkept hpath _
    · exact maintains_permissions hkept hpath d.permissions
  unfold save
  split
  · exact maintains_throw _
  · next path hpath =>
      cases hreadOnly : d.isReadOnly with
      | true => exact maintains_throw _
      | false => exact hsave path (hwrites path (.file hpath hreadOnly))

/-- Creating a file with its sidecar is a series of steps. -/
theorem maintains_create_with_sidecar (source : Document) (s : Sidecar) {target : Path}
    (htarget : written target)
    (hsidecar : ∀ sidecarPath, Sidecar.pathFor target = .ok sidecarPath → written sidecarPath) :
    MaintainsDisk p (source.createWithSidecar s target) := by
  refine maintains_bind (maintains_explain (maintains_write_file hkept htarget s.content)) fun _ => ?_
  refine maintains_look_of_except_bind fun sidecarPath hpath => ?_
  have hrest : ∀ created : Sidecar, created.path = sidecarPath → MaintainsDisk p (do
      created.accept.save
      match s.permissions with
      | some permissions => setPermissions target permissions
      | none => pure ()) := fun created hcreated =>
    maintains_bind (Sidecar.maintains_save hkept (hcreated ▸ hsidecar sidecarPath hpath)) fun _ =>
      maintains_permissions hkept htarget s.permissions
  dsimp only
  split
  · exact hrest _ rfl
  · exact maintains_bind (maintains_look _) fun _ => hrest _ rfl

end Document

/-- Carrying out a plan is a series of steps. -/
theorem Plan.maintains_carry_out {source : Document} {plan : Plan}
    (hwrites : ∀ q, plan.Writes source q → written q) : MaintainsDisk p (plan.carryOut source) := by
  cases plan with
  | skip => exact maintains_pure _
  | keep => exact maintains_pure _
  | create target =>
      refine maintains_bind (maintains_creation_step hkept target.toText) fun _ => ?_
      have htell : ∀ _ : Unit, MaintainsDisk p (tell (.appliedToCreate source.name target)) :=
        fun _ => maintains_tell _
      dsimp only
      split
      · next s hsidecar =>
          exact maintains_bind (source.maintains_create_with_sidecar hkept s (hwrites _ .target)
            fun _ hpath => hwrites _ (.sidecar hsidecar hpath)) htell
      · refine maintains_bind (maintains_bind (Document.maintains_save_steps hkept fun q hq => ?_)
          fun _ => maintains_pure _) htell
        cases hq with
        | file hpath _ =>
            obtain rfl := Option.some.inj hpath
            exact hwrites _ .target
        | sidecar hsidecar => cases hsidecar
  | update path target =>
      exact maintains_bind (Document.maintains_save_steps hkept fun q hq => hwrites q (.update hq))
        fun _ => maintains_tell _

end Steps

/-- Applying the document at a path is a series of steps. -/
theorem Operation.maintains_apply_path (hstep : ∀ d d' : Disk, p d → d.Step d' → p d')
    (commentPrefix : Option Text) (config : Config) (path : Path) :
    MaintainsDisk p (applyPath commentPrefix config path) := by
  refine maintains_bind (maintains_look _) fun source => ?_
  split
  · exact maintains_pure _
  · refine maintains_map ?_
    exact maintains_bind (maintains_look _) fun plan =>
      maintains_bind (Plan.maintains_carry_out (Disk.kept_at_of_step hstep) fun _ _ => trivial)
        fun _ => maintains_pure _

/-- Handling a file of a directory records what applying its document comes to. -/
theorem Operation.outcome_apply_and_record {commentPrefix : Option Text} {config : Config}
    {summary : ApplySummary} {path : Path} {host : Host} {progress : Progress} :
    outcome (applyAndRecord commentPrefix config summary path) host progress =
      (summary.record path (outcome (applyPath commentPrefix config path) host progress).1,
        (outcome (applyPath commentPrefix config path) host progress).2) := by
  rw [applyAndRecord, bind_of_ok (outcome_attempt _ _ _)]
  exact outcome_look_of_except _ host _

end TrackedSections
