import TrackedSections.Proofs.Disk.Growing
import TrackedSections.Proofs.Document.Planning
import TrackedSections.Proofs.Path

/-!
# What is on disk after a file was created or saved with its sidecar

Read `reads_of_written` first: a file and its sidecar that were written one after the other are both
read back. A file that was created has a directory where its path starts (`has_start_of_create_file`), so
that what is written to it afterwards is read back as well.
-/

namespace TrackedSections

open Effect

namespace Operation

variable {α : Type} {p : Disk → Prop} {host : Host} {progress progress' : Progress} {path : Path}

/-- An attempt maintains what the attempted operation does. -/
theorem maintains_attempt {x : Operation α} (h : MaintainsDisk p x) : MaintainsDisk p (attempt x) :=
  maintains_try_catch (maintains_map h) fun _ => maintains_pure _

/-- Making a directory maintains what the disk operation does. -/
theorem maintains_make_directory
    (hmake : path.hasNull = false → ∀ d d', p d → d.makeDirectory path = .ok d' → p d') :
    MaintainsDisk p (makeDirectory path) := by
  refine maintains_bind (maintains_attempt (maintains_change hmake)) ?_
  intro result
  split
  · exact maintains_pure _
  · exact maintains_throw _
  · refine maintains_bind (maintains_look _) fun found => ?_
    split
    · exact maintains_throw _
    · exact maintains_pure _

/-- Making directories maintains what making the directory of a path or one above it does. -/
theorem maintains_make_directories (path : Path)
    (hmake : ∀ q : Path, q.Covers path → q.hasNull = false →
      ∀ d d', p d → d.makeDirectory q = .ok d' → p d') :
    MaintainsDisk p (makeDirectories path) := by
  have hself : MaintainsDisk p (makeDirectory path) :=
    maintains_make_directory (hmake path (.refl path))
  rw [makeDirectories]
  refine maintains_bind (maintains_attempt hself) ?_
  intro result
  split
  · split
    · exact maintains_throw _
    · next hnames =>
        have habove : MaintainsDisk p (makeDirectories path.parent) :=
          maintains_make_directories path.parent fun q hq =>
            hmake q (hq.trans path.covers_parent)
        exact maintains_bind habove fun _ => hself
  · exact maintains_throw _
  · exact maintains_pure _
termination_by path.names.length
decreasing_by
  have := List.length_pos_iff.2 ‹¬path.names = []›
  simp only [Path.parent, List.length_dropLast]
  omega

/-- Creating a file maintains what making directories and touching a path do. -/
theorem maintains_create_file
    (hmake : ∀ d d' q, q.hasNull = false → p d → d.makeDirectory q = .ok d' → p d')
    (htouch : ∀ d d' q, q.hasNull = false → p d → d.touch q = .ok d' → p d') (written : Text) :
    MaintainsDisk p (createFile written) := by
  refine maintains_bind (maintains_look _) fun path => ?_
  refine maintains_bind (maintains_look _) fun found => ?_
  split
  · exact maintains_pure _
  · refine maintains_bind (maintains_explain ?_) fun _ => maintains_pure _
    exact maintains_bind (maintains_make_directories path.parent fun q _ hnull d d' =>
      hmake d d' q hnull) fun _ => maintains_change fun hnull d d' => htouch d d' path hnull

/-- Directories are made from a path without names only where one stands already. -/
theorem has_start_of_make_directories (hnames : path.names = [])
    (h : outcome (makeDirectories path) host progress = (.ok (), progress')) :
    progress.disk.HasStart path := by
  refine Classical.byContradiction fun hmissing => ?_
  have hnode : progress.disk.tree.at? (progress.disk.start path) = none := by
    cases hnode : progress.disk.tree.at? (progress.disk.start path) with
    | none => rfl
    | some node => exact absurd ⟨node, hnode⟩ hmissing
  obtain ⟨anchor, names⟩ := path
  obtain rfl : names = [] := hnames
  have hlocate : progress.disk.locate ⟨anchor, []⟩ = .ok (progress.disk.start ⟨anchor, []⟩) := by
    have hlimit : ¬ Disk.pathLimit ≤ (Path.mk anchor []).toText.encode.length := by
      cases anchor <;> decide
    rw [Disk.locate, if_neg hlimit]
    rfl
  have hmake : progress.disk.makeDirectory ⟨anchor, []⟩ = .error .notFound := by
    rw [Disk.makeDirectory, Disk.slot, hlocate]
    simp only [hnode]
  have hchange : outcome (change (·.makeDirectory ·) ⟨anchor, []⟩) host progress =
      (.error (.refused .notFound ⟨anchor, []⟩), progress) := by
    rw [change, if_neg (by simp [Path.hasNull]), outcome_bind, outcome_get]
    dsimp only
    rw [hmake]
    rfl
  have hattempt : ∀ x : Operation Unit,
      outcome x host progress = (.error (.refused .notFound ⟨anchor, []⟩), progress) →
      outcome (attempt x) host progress =
        (.ok (.error (.refused .notFound ⟨anchor, []⟩)), progress) := by
    intro x hx
    rw [outcome_attempt, hx]
  have hdirectory : outcome (makeDirectory ⟨anchor, []⟩) host progress =
      (.error (.refused .notFound ⟨anchor, []⟩), progress) := by
    rw [makeDirectory, bind_of_ok (hattempt _ hchange)]
    rfl
  rw [makeDirectories, bind_of_ok (hattempt _ hdirectory)] at h
  cases h

/-- A look that gives an answer gives that of the inspection and leaves the disk. -/
theorem of_outcome_look {x : Inspection α} {a : α}
    (h : outcome (look x) host progress = (.ok a, progress')) :
    (x.report ⟨host, progress.disk⟩).1 = .ok a ∧ progress'.disk = progress.disk := by
  rw [outcome_look] at h
  obtain ⟨hanswer, rfl⟩ := Prod.mk.inj h
  exact ⟨hanswer, rfl⟩

/-- A look at the value of a computation changes nothing. -/
theorem outcome_look_of_except (x : Except Failure α) (host : Host) (progress : Progress) :
    outcome (look (Inspection.ofExcept x)) host progress = (x, progress) := by
  have hreport : (Inspection.ofExcept x).report ⟨host, progress.disk⟩ = (x, []) :=
    Inspection.outcome_of_except _ [] x
  rw [outcome_look, hreport, List.append_nil]

/-- A look at a value that was computed before gives it. -/
theorem of_look_of_except {x : Except Failure α} {a : α}
    (h : outcome (look (Inspection.ofExcept x)) host progress = (.ok a, progress')) :
    x = .ok a ∧ progress'.disk = progress.disk := by
  obtain ⟨hanswer, hdisk⟩ := of_outcome_look h
  exact ⟨(congrArg Prod.fst (Inspection.outcome_of_except _ [] x)).symm.trans hanswer, hdisk⟩

/-- A look at what a written path is expanded to gives that path. -/
theorem of_look_expand {written : Text}
    (h : outcome (look (Inspection.expand written)) host progress = (.ok path, progress')) :
    host.expand written = .ok path ∧ progress'.disk = progress.disk := by
  obtain ⟨hanswer, hdisk⟩ := of_outcome_look h
  exact ⟨(congrArg Prod.fst (Inspection.outcome_expand ⟨host, progress.disk⟩ [] written)).symm.trans
    hanswer, hdisk⟩

/-- A look for a file gives the answer of the disk, and there is no file at a path that no disk holds. -/
theorem of_look_is_file {answer : Bool}
    (h : outcome (look (Inspection.isFile path)) host progress = (.ok answer, progress')) :
    ((path.hasNull = true ∧ answer = false) ∨
      (path.hasNull = false ∧ progress.disk.isFile path = .ok answer)) ∧
      progress'.disk = progress.disk := by
  obtain ⟨hanswer, hdisk⟩ := of_outcome_look h
  have hfile : outcome (Inspection.isFile path) ⟨host, progress.disk⟩ [] = (.ok answer, _) :=
    Prod.ext hanswer rfl
  exact ⟨Inspection.of_outcome_is_file hfile, hdisk⟩

/-- A look at a file gives what the disk has there. -/
theorem of_look_read_file {content : Bytes}
    (h : outcome (look (Inspection.readFile path)) host progress = (.ok content, progress')) :
    progress.disk.read path = .ok content ∧ progress'.disk = progress.disk := by
  obtain ⟨hanswer, hdisk⟩ := of_outcome_look h
  have hread := (congrArg Prod.fst (Inspection.outcome_read_file ⟨host, progress.disk⟩ [] path)).symm.trans
    hanswer
  dsimp only at hread
  split at hread
  · cases hread
  · cases hcontent : progress.disk.read path with
    | error refusal =>
        rw [hcontent] at hread
        cases hread
    | ok found =>
        rw [hcontent] at hread
        exact ⟨congrArg Except.ok (Except.ok.inj hread), hdisk⟩

/-- A look at where a path leads gives the path without `..` that it is resolved to. -/
theorem of_look_resolve {resolved : Path}
    (h : outcome (look (Inspection.resolve path)) host progress = (.ok resolved, progress')) :
    resolved = Path.resolve ⟨.slash, progress.disk.workdir⟩ path ∧ progress'.disk = progress.disk := by
  obtain ⟨hanswer, hdisk⟩ := of_outcome_look h
  have hresolve : (outcome (Inspection.resolve path) ⟨host, progress.disk⟩ []).1 = .ok resolved := hanswer
  unfold Inspection.resolve at hresolve
  split at hresolve
  · cases hresolve
  · exact ⟨(Except.ok.inj hresolve).symm, hdisk⟩

/-- A path where something is made to exist starts where something stands, if its directory does. -/
theorem has_start_of_touch {d d' : Disk} (h : d.touch path = .ok d')
    (hparent : path.parent.names = [] → d.HasStart path.parent) : d.HasStart path := by
  rcases Disk.of_touch h with ⟨_, _, hslot, -⟩ | ⟨_, hslot, -⟩
  · obtain ⟨hp, hnode⟩ := Disk.of_slot_taken hslot
    exact Disk.has_start_of_locate hp hnode
  · obtain ⟨-, directory, hdirectory, -⟩ := Disk.of_slot_free hslot
    refine Disk.HasStart.of_anchor (p := path.parent) ?_ rfl
    by_cases hnames : path.parent.names = []
    · exact hparent hnames
    · exact Disk.has_start_of_ne_nil hdirectory hnames

/-- A file is created where there is one already, or its directory is made and it is touched. -/
theorem create_file_cases {written : Text} {isNew : Bool}
    (h : outcome (createFile written) host progress = (.ok isNew, progress')) :
    ∃ path, host.expand written = .ok path ∧ path.hasNull = false ∧
      ((progress'.disk = progress.disk ∧ progress.disk.isFile path = .ok true) ∨
        ∃ before between : Progress, before.disk = progress.disk ∧
          outcome (makeDirectories path.parent) host before = (.ok (), between) ∧
          between.disk.touch path = .ok progress'.disk) := by
  obtain ⟨path, progress₁, hlook, h⟩ := ok_of_bind h
  obtain ⟨hexpand, hdisk₁⟩ := of_look_expand hlook
  obtain ⟨found, progress₂, hlook, h⟩ := ok_of_bind h
  obtain ⟨hfound, hdisk₂⟩ := of_look_is_file hlook
  refine ⟨path, hexpand, ?_⟩
  cases found with
  | true =>
      rw [if_pos rfl] at h
      obtain rfl := (Prod.mk.inj h).2
      obtain ⟨hnull, hfile⟩ := hfound.resolve_left (by simp)
      rw [hdisk₁] at hfile
      exact ⟨hnull, .inl ⟨hdisk₂.trans hdisk₁, hfile⟩⟩
  | false =>
      rw [if_neg Bool.false_ne_true] at h
      obtain ⟨_, progress₃, hcreate, h⟩ := ok_of_bind h
      obtain rfl := (Prod.mk.inj h).2
      obtain ⟨_, between, hmake, htouch⟩ := ok_of_bind (ok_of_explain hcreate)
      exact ⟨no_null_of_change htouch, .inr ⟨progress₂, between, hdisk₂.trans hdisk₁, hmake,
        disk_of_change htouch⟩⟩

/-- Once a file was created, its path has no null characters and starts where something stands. -/
theorem has_start_of_create_file {written : Text} (hexpand : host.expand written = .ok path)
    {isNew : Bool} (h : outcome (createFile written) host progress = (.ok isNew, progress')) :
    path.hasNull = false ∧ progress'.disk.HasStart path := by
  obtain ⟨path', hexpand', hnull, hcases⟩ := create_file_cases h
  obtain rfl : path = path' := Except.ok.inj (hexpand.symm.trans hexpand')
  refine ⟨hnull, ?_⟩
  rcases hcases with ⟨hdisk, hfile⟩ | ⟨before, between, -, hmake, htouch⟩
  · obtain ⟨content, hread⟩ := Disk.read_of_is_file hfile
    rw [hdisk]
    exact Disk.has_start_of_read hread
  · refine (Disk.grows_of_touch htouch).has_start (has_start_of_touch htouch fun hnames => ?_)
    have hstart := has_start_of_make_directories hnames hmake
    exact (maintains_make_directories path.parent fun _ _ _ _ _ hd hmake =>
      (Disk.grows_of_make_directory hmake).has_start hd).of_outcome hstart hmake

/-- Permission bits that were set are those that the number stands for. -/
theorem change_mode_of_set_permissions {permissions : Int}
    (h : outcome (setPermissions path permissions) host progress = (.ok (), progress')) :
    ∃ mode, Permissions.mode permissions = .ok mode ∧
      progress.disk.changeMode path mode = .ok progress'.disk := by
  unfold setPermissions at h
  split at h
  · next mode hmode =>
      obtain ⟨_, between, hchange, htell⟩ := ok_of_bind h
      obtain rfl := (Prod.mk.inj htell).2
      exact ⟨mode, hmode, disk_of_change (ok_of_explain hchange)⟩
  · split at h
    · split at h <;> cases h
    · cases h

end Operation

namespace Sidecar

/-- A file and its sidecar are written one after the other, and then permission bits of the file may be
set. -/
inductive WrittenBeside (s : Sidecar) (path : Path) (content : Bytes) (d : Disk) : Disk → Prop where
  /-- The content is written, and then the sidecar. -/
  | files {between after : Disk} {t : Text} (hwrite : s.write = .ok t)
      (hcontent : d.write path content = .ok between)
      (hsidecar : between.write s.path t.encode = .ok after) :
      WrittenBeside s path content d after
  /-- The permission bits of the file are set. -/
  | mode {after after' : Disk} {mode : Nat} (h : WrittenBeside s path content d after)
      (hmode : after.changeMode path mode = .ok after') : WrittenBeside s path content d after'

variable {s : Sidecar} {path : Path} {content : Bytes} {host : Host} {progress progress' : Progress}

/-- The sidecar of a file has the anchor of the file. -/
theorem anchor_of_path_for {sidecarPath : Path} (h : pathFor path = .ok sidecarPath) :
    sidecarPath.anchor = path.anchor := by
  unfold pathFor at h
  split at h
  · cases h
  · obtain rfl := Except.ok.inj h
    rfl

/-- The sidecar of a file has a null character in its path when the file has. -/
theorem has_null_of_path_for {sidecarPath : Path}
    (h : pathFor path = .ok sidecarPath) : sidecarPath.hasNull = path.hasNull := by
  unfold pathFor at h
  split at h
  · cases h
  · next hne =>
      obtain rfl := Except.ok.inj h
      have hextension : extension.contains '\x00' = false := by decide
      have hnames := Disk.names_of_ne_nil hne
      have hname : (path.name ++ extension).contains '\x00' = path.name.contains '\x00' := by
        rw [List.contains_append, hextension, Bool.or_false]
      rw [Path.hasNull, Path.hasNull, hnames]
      simp only [List.dropLast_concat, List.any_append, List.any_cons, List.any_nil, hname]

/-- A file and its sidecar that were written are both read back. -/
theorem WrittenBeside.reads {d d' : Disk} (h : s.WrittenBeside path content d d')
    (hstart : d.HasStart path) (hpath : pathFor path = .ok s.path) :
    d'.read path = .ok content ∧ ∃ t, s.write = .ok t ∧ d'.read s.path = .ok t.encode := by
  induction h with
  | @files between after t hwrite hcontent hsidecar =>
      have hread := Disk.read_of_write hcontent hstart
      have hbetween := (Disk.has_start_of_write hcontent hstart).of_anchor (anchor_of_path_for hpath)
      exact ⟨Disk.read_of_write_ne hsidecar hread (Disk.locate_sidecar_ne hpath hread).symm, t, hwrite,
        Disk.read_of_write hsidecar hbetween⟩
  | mode h hmode ih =>
      obtain ⟨hread, t, hwrite, hsidecar⟩ := ih
      have hsame := Disk.read_eq_of_change_mode hread hmode
      exact ⟨(hsame path).trans hread, t, hwrite, (hsame s.path).trans hsidecar⟩

/-- The working directory is the same after a file and its sidecar were written. -/
theorem WrittenBeside.workdir_eq {d d' : Disk} (h : s.WrittenBeside path content d d') :
    d'.workdir = d.workdir := by
  induction h with
  | files hwrite hcontent hsidecar =>
      exact (Disk.workdir_of_write hsidecar).trans (Disk.workdir_of_write hcontent)
  | mode h hmode ih => exact (Disk.workdir_of_change_mode hmode).trans ih

/-- Files are files still after a file and its sidecar were written. -/
theorem WrittenBeside.is_file {d d' : Disk} (h : s.WrittenBeside path content d d')
    (hstart : d.HasStart path) (hpath : pathFor path = .ok s.path) {other : Path}
    (hother : d.isFile other = .ok true) : d'.isFile other = .ok true := by
  induction h with
  | files hwrite hcontent hsidecar =>
      exact Disk.is_file_of_write hsidecar (Disk.is_file_of_write hcontent hother)
  | mode h hmode ih =>
      obtain ⟨old, hread⟩ := Disk.read_of_is_file ih
      have hsame := Disk.read_eq_of_change_mode (h.reads hstart hpath).1 hmode other
      exact Disk.is_file_of_read (hsame.trans hread)

/-- A sidecar that was saved was written to its path. -/
theorem write_of_save (h : outcome s.save host progress = (.ok (), progress')) :
    s.path.hasNull = false ∧ ∃ t, s.write = .ok t ∧
      progress.disk.write s.path t.encode = .ok progress'.disk := by
  unfold save at h
  split at h
  · cases h
  · next t hwrite =>
      have h := Operation.ok_of_explain h
      exact ⟨Operation.no_null_of_change h, t, hwrite, Operation.disk_of_change h⟩

/-- A file and its sidecar stay written when permissions are set afterwards, which stand for permission bits
then. -/
theorem WrittenBeside.of_permissions {d : Disk} {permissions : Option Int}
    (hfiles : s.WrittenBeside path content d progress.disk)
    (h : outcome (match permissions with
      | some permissions => Operation.setPermissions path permissions
      | none => pure ()) host progress = (.ok (), progress')) :
    s.WrittenBeside path content d progress'.disk ∧
      ∀ n ∈ permissions, ∃ mode, Permissions.mode n = .ok mode := by
  cases permissions with
  | none =>
      obtain rfl := (Prod.mk.inj h).2
      exact ⟨hfiles, fun n hn => nomatch hn⟩
  | some permissions =>
      obtain ⟨mode, hmode, hchange⟩ := Operation.change_mode_of_set_permissions h
      exact ⟨hfiles.mode hchange, fun n hn => ⟨mode, Option.some.inj hn ▸ hmode⟩⟩

/-- A sidecar that is saved after the content of its file was written is written with it. -/
theorem written_of_content {d : Disk} {permissions : Option Int}
    (hcontent : d.write path content = .ok progress.disk)
    (h : outcome (do
      s.save
      match permissions with
      | some permissions => Operation.setPermissions path permissions
      | none => pure ()) host progress = (.ok (), progress')) :
    s.path.hasNull = false ∧ s.WrittenBeside path content d progress'.disk ∧
      ∀ n ∈ permissions, ∃ mode, Permissions.mode n = .ok mode := by
  obtain ⟨_, between, hsave, hrest⟩ := ok_of_bind h
  obtain ⟨hnull, t, hwrite, hsaved⟩ := write_of_save hsave
  exact ⟨hnull, (WrittenBeside.files hwrite hcontent hsaved).of_permissions hrest⟩

end Sidecar

namespace Document

variable {source : Document} {s : Sidecar} {path : Path} {host : Host}
  {progress progress' : Progress}

/-- The text of a document without a sidecar is read from where it was saved. -/
theorem read_of_save {d : Document} (hsidecar : d.sidecar = none) (hpath : d.path = some path)
    (hstart : progress.disk.HasStart path) {saved : Path}
    (h : outcome d.save host progress = (.ok saved, progress')) :
    progress'.disk.read path = .ok d.write.encode :=
  disk_of_save (p := fun e => e.read path = .ok d.write.encode) hsidecar hpath
    (fun _ _ hwrite => Disk.read_of_write hwrite hstart)
    (fun _ _ _ h hmode => Disk.read_of_change_mode h hmode) h

/-- A document with a sidecar that was saved was written with it. -/
theorem written_of_save {d : Document} (hsidecar : d.sidecar = some s) (hpath : d.path = some path)
    {saved : Path} (h : outcome d.save host progress = (.ok saved, progress')) :
    s.path.hasNull = false ∧ s.WrittenBeside path s.content progress.disk progress'.disk := by
  unfold save at h
  rw [hpath] at h
  dsimp only at h
  split at h
  · obtain ⟨_, _, hthrow, -⟩ := ok_of_bind h
    cases hthrow
  · obtain ⟨_, progress₁, hsave, hpure⟩ := ok_of_bind h
    obtain rfl := (Prod.mk.inj hpure).2
    obtain ⟨_, between, hcontent, hrest⟩ := ok_of_bind hsave
    have hcontent := Operation.ok_of_explain hcontent
    unfold saveContent at hcontent
    rw [hsidecar] at hcontent
    obtain ⟨_, progress₂, hfile, hcontent⟩ := ok_of_bind hcontent
    obtain ⟨hnull, t, hwrite, hsaved⟩ := Sidecar.write_of_save hcontent
    have hfiles := Sidecar.WrittenBeside.files hwrite (Operation.disk_of_change hfile) hsaved
    exact ⟨hnull, (hfiles.of_permissions hrest).1⟩

/-- The sidecar `created` of a target that is created at `path` from a source with the sidecar `s`. It accepts
the content and names the file that the source was read from in the directory with names `workdir`. -/
structure CreatedFor (source : Document) (s : Sidecar) (path : Path) (workdir : List Text)
    (created : Sidecar) : Prop where
  path_eq : Sidecar.pathFor path = .ok created.path
  no_null : path.hasNull = false
  sidecar_no_null : created.path.hasNull = false
  accepted_eq : created.accepted = s.current
  target_eq : created.target = none
  source_eq : ∀ place, source.path = some place →
    created.source = some (Path.resolve ⟨.slash, workdir⟩ place).toText
  mode_eq : ∀ n ∈ created.permissions, ∃ mode, Permissions.mode n = .ok mode

/-- What is created from a source with a sidecar is written with a sidecar that has the digest of the
content. -/
theorem written_of_create (h : outcome (source.createWithSidecar s path) host progress =
    (.ok (), progress')) : ∃ created, CreatedFor source s path progress.disk.workdir created ∧
      created.WrittenBeside path s.content progress.disk progress'.disk := by
  obtain ⟨_, progress₁, hcontent, h⟩ := ok_of_bind h
  have hcontent := Operation.ok_of_explain hcontent
  obtain ⟨sidecarPath, progress₂, hlook, h⟩ := ok_of_bind h
  obtain ⟨hpath, hdisk₂⟩ := Operation.of_look_of_except hlook
  have hno := Operation.no_null_of_change hcontent
  have hcontent := Operation.disk_of_change hcontent
  have hworkdir := Disk.workdir_of_write hcontent
  rw [← hdisk₂] at hcontent hworkdir
  -- Where the source is from is only looked up.
  cases hsource : source.path with
  | none =>
      rw [hsource] at h
      obtain ⟨hnull, hwritten, hmode⟩ := Sidecar.written_of_content hcontent h
      refine ⟨_, ⟨hpath, hno, hnull, rfl, rfl, fun place hplace => ?_, hmode⟩, hwritten⟩
      cases hsource.symm.trans hplace
  | some place =>
      rw [hsource] at h
      obtain ⟨origin, progress₃, hlook, h⟩ := ok_of_bind h
      obtain ⟨rfl, hdisk₃⟩ := Operation.of_look_resolve hlook
      rw [hworkdir] at h
      rw [← hdisk₃] at hcontent
      obtain ⟨hnull, hwritten, hmode⟩ := Sidecar.written_of_content hcontent h
      refine ⟨_, ⟨hpath, hno, hnull, rfl, rfl, fun place' hplace => ?_, hmode⟩, hwritten⟩
      obtain rfl := Option.some.inj (hsource.symm.trans hplace)
      rfl

end Document

end TrackedSections
