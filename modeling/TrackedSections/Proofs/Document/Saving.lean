import TrackedSections.Document.Save
import TrackedSections.Proofs.Disk.Overwriting
import TrackedSections.Proofs.Effect

/-!
# What saving a document does to the disk

`MaintainsDisk` says of an operation that it keeps a property of the disk, whether it fails or not. Read
`save_overwrites` first: saving a document without a sidecar to a file that exists leaves a disk
on which that file has its old content or the text of the document, and nothing else changed but
permission bits.
-/

namespace TrackedSections

open Effect

namespace Operation

variable {α β : Type} {p : Disk → Prop}

/-- An operation maintains a property of the disk, whether it fails or not. -/
abbrev MaintainsDisk (p : Disk → Prop) (x : Operation α) : Prop :=
  Maintains (fun progress : Progress => p progress.disk) x

/-- What holds of the disk after a step, and after each way to go on from a value that the step gives,
holds after both. -/
theorem disk_of_bind {x : Operation α} {f : α → Operation β} {host : Host} {progress : Progress}
    (hx : p (outcome x host progress).2.disk)
    (hf : ∀ a progress', outcome x host progress = (.ok a, progress') → p progress'.disk →
      p (outcome (f a) host progress').2.disk) :
    p (outcome (x >>= f) host progress).2.disk := by
  refine of_bind (p := fun progress : Progress => p progress.disk) hx fun a progress' h => ?_
  rw [h] at hx
  exact hf a progress' h hx

/-- The report of an operation is its outcome, and the disk is that of the progress. -/
theorem report_eq (x : Operation α) (view : View) :
    x.report view = (((outcome x view.host ⟨view.disk, []⟩).1,
      (outcome x view.host ⟨view.disk, []⟩).2.notices),
      (outcome x view.host ⟨view.disk, []⟩).2.disk) :=
  rfl

/-- A report of success is an outcome that does not fail, with the disk of its progress. -/
theorem ok_of_report {x : Operation α} {view : View} {a : α} (h : (x.report view).1.1 = .ok a) :
    ∃ progress, outcome x view.host ⟨view.disk, []⟩ = (.ok a, progress) ∧
      (x.report view).2 = progress.disk :=
  ⟨_, Prod.ext h rfl, rfl⟩

theorem maintains_tell (notice : Notice) : MaintainsDisk p (tell notice) :=
  maintains_modify fun _ h => h

/-- The outcome of a look at the disk, which does not change. -/
theorem outcome_look (x : Inspection α) (host : Host) (progress : Progress) :
    outcome (look x) host progress =
      ((x.report ⟨host, progress.disk⟩).1,
        { progress with
          notices := progress.notices ++ (x.report ⟨host, progress.disk⟩).2 }) := by
  rw [look, outcome_bind, outcome_get]
  dsimp only
  rw [outcome_bind, outcome_read]
  dsimp only
  rw [outcome_bind, outcome_set]
  dsimp only
  cases (x.report ⟨host, progress.disk⟩).1 <;> rfl

/-- The outcome of an attempt is a value. -/
theorem outcome_attempt (x : Operation α) (host : Host) (progress : Progress) :
    outcome (attempt x) host progress =
      (.ok (outcome x host progress).1, (outcome x host progress).2) := by
  rw [attempt, outcome_try_catch, outcome_map]
  rcases outcome x host progress with ⟨_ | a, progress'⟩ <;> rfl

theorem maintains_look (x : Inspection α) : MaintainsDisk p (look x) := by
  intro host progress h
  rw [outcome_look]
  exact h

/-- A change of the disk maintains what the action at its path does. No disk is changed at a path with
null characters. -/
theorem maintains_change {action : Disk → Path → Except Refusal Disk} {path : Path}
    (h : path.hasNull = false → ∀ d d', p d → action d path = .ok d' → p d') :
    MaintainsDisk p (change action path) := by
  intro host progress hp
  rw [change]
  split
  · exact hp
  · next hnull =>
      rw [outcome_bind, outcome_get]
      dsimp only
      cases haction : action progress.disk path with
      | error refusal => exact hp
      | ok d' => exact h (by simpa using hnull) _ _ hp haction

/-- A change of the disk that does not fail is what its action does. -/
theorem disk_of_change {action : Disk → Path → Except Refusal Disk} {path : Path} {host : Host}
    {progress progress' : Progress}
    (h : outcome (change action path) host progress = (.ok (), progress')) :
    action progress.disk path = .ok progress'.disk := by
  unfold change at h
  split at h
  · cases h
  · rw [outcome_bind, outcome_get] at h
    dsimp only at h
    cases haction : action progress.disk path with
    | error refusal => simp [haction] at h
    | ok d' =>
        rw [haction] at h
        obtain rfl := (Prod.mk.inj h).2
        rfl

/-- A change of the disk that does not fail is at a path without null characters. -/
theorem no_null_of_change {action : Disk → Path → Except Refusal Disk} {path : Path} {host : Host}
    {progress progress' : Progress}
    (h : outcome (change action path) host progress = (.ok (), progress')) :
    path.hasNull = false := by
  unfold change at h
  split at h
  · cases h
  · next hnull => simpa using hnull

/-- Explaining a failure does nothing to an operation that does not fail. -/
theorem ok_of_explain {reason : Failure → Failure} {x : Operation α} {host : Host}
    {progress progress' : Progress} {a : α}
    (h : outcome (explain reason x) host progress = (.ok a, progress')) :
    outcome x host progress = (.ok a, progress') := by
  rw [explain, outcome_try_catch] at h
  cases hx : outcome x host progress with
  | mk first between =>
      rw [hx] at h
      cases first with
      | ok b => exact h
      | error failure =>
          dsimp only at h
          split at h <;> cases h

/-- Explaining a failure maintains what the explained operation does. -/
theorem maintains_explain {reason : Failure → Failure} {x : Operation α} (h : MaintainsDisk p x) :
    MaintainsDisk p (explain reason x) := by
  refine maintains_try_catch h ?_
  intro failure
  split <;> exact maintains_throw _

/-- Setting permission bits maintains what doing so on the disk does. -/
theorem maintains_set_permissions {path : Path} {permissions : Int}
    (h : path.hasNull = false → ∀ d d' mode, p d → d.changeMode path mode = .ok d' → p d') :
    MaintainsDisk p (setPermissions path permissions) := by
  unfold setPermissions
  split
  · next mode hmode =>
      refine maintains_bind (maintains_explain (maintains_change fun hnull d d' => ?_)) fun _ =>
        maintains_tell _
      exact h hnull d d' mode
  · split
    · split <;> exact maintains_throw _
    · exact maintains_throw _

end Operation

namespace Document

open Operation

variable {p : Disk → Prop}

/-- Saving a document without a sidecar to a path maintains what writing its text there and setting
permission bits do. -/
theorem maintains_save_to {d : Document} (hsidecar : d.sidecar = none) {path : Path}
    (hwrite : ∀ e e', p e → e.write path d.write.encode = .ok e' → p e')
    (hmode : ∀ e e' mode, p e → e.changeMode path mode = .ok e' → p e') :
    MaintainsDisk p (d.saveTo path) := by
  refine maintains_bind (maintains_explain ?_) fun _ => ?_
  · rw [saveContent, hsidecar]
    exact maintains_change fun _ => hwrite
  · cases d.permissions with
    | none => exact maintains_pure _
    | some permissions => exact maintains_set_permissions fun _ => hmode

/-- Saving a document without a sidecar maintains what writing its text to its path and setting
permission bits there do. -/
theorem maintains_save {d : Document} (hsidecar : d.sidecar = none) {path : Path}
    (hpath : d.path = some path)
    (hwrite : ∀ e e', p e → e.write path d.write.encode = .ok e' → p e')
    (hmode : ∀ e e' mode, p e → e.changeMode path mode = .ok e' → p e') :
    MaintainsDisk p d.save := by
  have hsave : MaintainsDisk p (do d.saveTo path; pure path) :=
    maintains_bind (maintains_save_to hsidecar hwrite hmode) fun _ => maintains_pure _
  rw [save, hpath]
  dsimp only
  split
  · exact maintains_bind (maintains_throw _) fun _ => hsave
  · exact hsave

/-- Saving a document without a sidecar to a file that exists leaves its old content there or the text
of the document, and changes nothing else but permission bits. -/
theorem save_overwrites {d : Document} (hsidecar : d.sidecar = none) {path : Path}
    (hpath : d.path = some path) {before : Disk} {place : List Text} {old : Bytes}
    (hlocate : before.locate path = .ok place) (hplace : before.faceAt place = some (some old)) :
    MaintainsDisk (fun e => before.Overwritten e place old ∨
      before.Overwritten e place d.write.encode) d.save := by
  refine maintains_save hsidecar hpath (fun e e' h hwrite => ?_) (fun e e' mode h hmode => ?_)
  · rcases h with h | h <;> exact .inr (h.write hplace hlocate hwrite)
  · exact h.imp (·.change_mode hplace hlocate hmode) (·.change_mode hplace hlocate hmode)

/-- A document without a sidecar that was saved to a path without a failure was written there, and then
permission bits may have been set. -/
theorem disk_of_save {d : Document} (hsidecar : d.sidecar = none) {path : Path}
    (hpath : d.path = some path) {host : Host} {progress progress' : Progress} {saved : Path}
    (hwrite : path.hasNull = false →
      ∀ e, progress.disk.write path d.write.encode = .ok e → p e)
    (hmode : ∀ e e' mode, p e → e.changeMode path mode = .ok e' → p e')
    (h : outcome d.save host progress = (.ok saved, progress')) : p progress'.disk := by
  unfold save at h
  rw [hpath] at h
  dsimp only at h
  split at h
  · obtain ⟨_, _, hthrow, -⟩ := ok_of_bind h
    cases hthrow
  · obtain ⟨_, progress₁, hsave, hpure⟩ := ok_of_bind h
    obtain ⟨_, between, hcontent, hrest⟩ := ok_of_bind hsave
    have hcontent := ok_of_explain hcontent
    unfold saveContent at hcontent
    rw [hsidecar] at hcontent
    have hbetween : p between.disk :=
      hwrite (no_null_of_change hcontent) _ (disk_of_change hcontent)
    obtain rfl := (Prod.mk.inj hpure).2
    cases hpermissions : d.permissions with
    | none =>
        rw [hpermissions] at hrest
        exact (maintains_pure (p := fun progress : Progress => p progress.disk) ()).of_outcome
          hbetween hrest
    | some permissions =>
        rw [hpermissions] at hrest
        exact (maintains_set_permissions fun _ => hmode).of_outcome hbetween hrest

end Document

end TrackedSections
