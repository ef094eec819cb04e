import TrackedSections.Proofs.Disk.Absolute
import TrackedSections.Proofs.Document.Creation
import TrackedSections.Proofs.Merge.Reachable

/-!
# Pulling a whole file from its source

A target with a sidecar takes all of the content of the source that the sidecar names. Read `pull_file` first:
when the source is named by the absolute path of its place and can be read, pulling is to apply it. What was
pulled is saved to the files that are there already (`saved_to_files`), unless the target must not be written.
-/

namespace TrackedSections

open Effect

/-! ## Saving to files that are there -/

namespace Disk

variable {d : Disk} {path : Path}

/-- A path to a file is taken by it. -/
theorem slot_of_is_file (h : d.isFile path = .ok true) :
    ∃ place content mode, d.slot path = .ok (.taken place (.file content mode)) := by
  obtain ⟨content, hread⟩ := read_of_is_file h
  obtain ⟨place, hp, hplace⟩ := locate_of_read hread
  obtain ⟨mode, -, hslot⟩ := slot_of_face hp hplace
  exact ⟨place, content, mode, hslot⟩

/-- A file that is there can be written to. -/
theorem exists_write (h : d.isFile path = .ok true) (content : Bytes) :
    ∃ d', d.write path content = .ok d' := by
  obtain ⟨place, old, mode, hslot⟩ := slot_of_is_file h
  exact ⟨_, by rw [write, hslot]⟩

/-- The permission bits of a file that is there can be set. -/
theorem exists_change_mode (h : d.isFile path = .ok true) (mode : Nat) :
    ∃ d', d.changeMode path mode = .ok d' := by
  obtain ⟨place, content, old, hslot⟩ := slot_of_is_file h
  exact ⟨_, by rw [changeMode, hslot]⟩

end Disk

namespace Operation

variable {α : Type} {host : Host} {progress progress' : Progress} {path : Path}

/-- A change that the disk does not refuse is made. -/
theorem outcome_change {action : Disk → Path → Except Refusal Disk} {d' : Disk}
    (hnull : path.hasNull = false) (h : action progress.disk path = .ok d') :
    outcome (change action path) host progress = (.ok (), { progress with disk := d' }) := by
  rw [change, hnull, if_neg Bool.false_ne_true, outcome_bind, outcome_get]
  dsimp only
  rw [h]
  rfl

/-- Nothing is explained where nothing fails. -/
theorem outcome_explain {reason : Failure → Failure} {x : Operation α} {a : α}
    (h : outcome x host progress = (.ok a, progress')) :
    outcome (explain reason x) host progress = (.ok a, progress') := by
  rw [explain, outcome_try_catch, h]

/-- The permission bits of a file that is there are set to those that a number stands for. -/
theorem exists_set_permissions {permissions : Int} {mode : Nat}
    (hmode : Permissions.mode permissions = .ok mode) (hnull : path.hasNull = false)
    (hfile : progress.disk.isFile path = .ok true) :
    ∃ progress', outcome (setPermissions path permissions) host progress = (.ok (), progress') := by
  obtain ⟨d', hchange⟩ := Disk.exists_change_mode hfile mode
  have hset : outcome (change (·.changeMode · mode) path) host progress =
      (.ok (), { progress with disk := d' }) := outcome_change hnull hchange
  rw [setPermissions, hmode]
  dsimp only
  exact ⟨_, bind_of_ok (outcome_explain hset)⟩

end Operation

namespace Sidecar

/-- Whether a sidecar can be written does not depend on the digest that it accepts. -/
theorem exists_write {s : Sidecar} {t : Text} (h : s.write = .ok t) (accepted : Text) (content : Bytes) :
    ∃ t', ({ s with accepted, content } : Sidecar).write = .ok t' := by
  unfold write at h ⊢
  dsimp only at h ⊢
  -- Only the numbers may be too long to be written.
  cases hpermissions : s.permissions with
  | none =>
      rw [hpermissions] at h
      cases hversion : integerEntry "syntaxversion" s.formatVersion with
      | error failure =>
          rw [hversion] at h
          cases h
      | ok line => exact ⟨_, rfl⟩
  | some n =>
      rw [hpermissions] at h
      cases hentry : integerEntry "permissions" n with
      | error failure =>
          simp only [hentry] at h
          cases h
      | ok permissions =>
          cases hversion : integerEntry "syntaxversion" s.formatVersion with
          | error failure =>
              simp only [hentry, hversion] at h
              cases h
          | ok line =>
              simp only [hentry]
              exact ⟨_, rfl⟩

end Sidecar

namespace Document

variable {d target source : Document} {s : Sidecar} {path : Path} {view : View}

/-- A document with a sidecar that can be written is saved where its files are already, if it may be written and
its permissions stand for permission bits. -/
theorem saved_to_files {t : Text} (hsidecar : d.sidecar = some s) (hpath : d.path = some path)
    (hreadOnly : d.isReadOnly = false) (hwrite : s.write = .ok t) (hnull : path.hasNull = false)
    (hsidecarNull : s.path.hasNull = false) (hfile : view.disk.isFile path = .ok true)
    (hbeside : view.disk.isFile s.path = .ok true)
    (hmode : ∀ n ∈ d.permissions, ∃ mode, Permissions.mode n = .ok mode) :
    (d.save.report view).1.1 = .ok path := by
  obtain ⟨between, hbetween⟩ := Disk.exists_write hfile s.content
  obtain ⟨after, hafter⟩ := Disk.exists_write (Disk.is_file_of_write hbetween hbeside) t.encode
  have hcontent : outcome (Operation.writeFile path s.content) view.host ⟨view.disk, []⟩ =
      (.ok (), ⟨between, []⟩) := Operation.outcome_change hnull hbetween
  have hsave : outcome s.save view.host ⟨between, []⟩ = (.ok (), ⟨after, []⟩) := by
    rw [Sidecar.save, hwrite]
    exact Operation.outcome_explain (Operation.outcome_change hsidecarNull hafter)
  have hboth : outcome (d.saveContent path) view.host ⟨view.disk, []⟩ = (.ok (), ⟨after, []⟩) := by
    rw [saveContent, hsidecar]
    exact (bind_of_ok hcontent).trans hsave
  have hthere := Disk.is_file_of_write hafter (Disk.is_file_of_write hbetween hfile)
  obtain ⟨progress, hall⟩ : ∃ progress,
      outcome (d.saveTo path) view.host ⟨view.disk, []⟩ = (.ok (), progress) := by
    rw [saveTo, bind_of_ok (Operation.outcome_explain hboth)]
    cases hpermissions : d.permissions with
    | none => exact ⟨_, rfl⟩
    | some permissions =>
        obtain ⟨mode, hmode⟩ := hmode permissions hpermissions
        exact Operation.exists_set_permissions hmode hnull hthere
  show (outcome d.save view.host ⟨view.disk, []⟩).1 = _
  rw [save, hpath]
  dsimp only
  rw [hreadOnly, if_neg Bool.false_ne_true, bind_of_ok hall]
  rfl

/-! ## Taking the content of a source -/

/-- A target whose file was not edited takes all that a source accepts, unless it accepts the same. -/
theorem apply_sidecar_cases (hsidecar : target.sidecar = some s) (source : Document) :
    ((target.apply source).isChanged = false ∧ (target.apply source).target = target) ∨
      ∃ theirs, source.sidecar = some theirs ∧ s.isModified = false ∧ theirs.isModified = false ∧
        s.accepted ≠ theirs.accepted ∧ (target.apply source).isChanged = true ∧
        (target.apply source).target =
          { target with
            sidecar := some { s with content := theirs.content, accepted := theirs.accepted } } := by
  unfold apply
  split
  · exact .inl ⟨rfl, rfl⟩
  · next hobstacle =>
      obtain ⟨theirs, htheirs⟩ := Option.isSome_iff_exists.1
        (sidecar_of_obstacle hobstacle (by rw [hasSidecar, hsidecar]; rfl))
      rw [hsidecar, htheirs]
      dsimp only
      unfold applySidecar
      split
      · exact .inl ⟨rfl, rfl⟩
      · next hmine =>
          split
          · exact .inl ⟨rfl, rfl⟩
          · next hunmodified =>
              split
              · exact .inl ⟨rfl, rfl⟩
              · next hne =>
                  exact .inr ⟨theirs, rfl, Bool.eq_false_iff.2 hmine, Bool.eq_false_iff.2 hunmodified,
                    hne, rfl, rfl⟩

/-- Where neither file was edited, a target takes the content of a source when they accept different
digests. -/
theorem apply_sidecar_iff {theirs : Sidecar} (hsidecar : target.sidecar = some s)
    (htheirs : source.sidecar = some theirs) (hmine : s.isModified = false)
    (hunmodified : theirs.isModified = false) :
    (target.apply source).isChanged = true ↔ s.accepted ≠ theirs.accepted := by
  have hobstacle : target.obstacle? source = none := by
    rw [obstacle?, if_pos (by rw [hasSidecar, hsidecar]; rfl), if_pos (by rw [hasSidecar, htheirs]; rfl)]
  rw [apply, hobstacle, hsidecar, htheirs]
  dsimp only
  rw [applySidecar, if_neg (by simp [hmine]), if_neg (by simp [hunmodified])]
  split
  · next hsame => exact iff_of_false Bool.false_ne_true (not_not.2 hsame)
  · next hne => exact iff_of_true rfl hne

end Document

namespace Pulling

variable {source : Document} {view : View} {place : List Text}

/-- A source that is named by the absolute path of its place is read from there, whatever the target. -/
theorem outcome_source_place (pull : Pull) (excuse : Failure → Notice) {given : Option Text} {config : Config}
    {notices : List Notice} (hcache : pull.cache = .empty given config)
    (hplace : Disk.IsPlace place)
    (hload : (Document.load (Path.ofPlace place).toText given config).report view = (.ok source, notices)) :
    ∃ pull', outcome (source? (Path.ofPlace place).toText excuse) view pull = (.ok (some source), pull') ∧
      pull'.isChanged = pull.isChanged := by
  have hexpand (notices : List Notice) :
      outcome (Inspection.expand (Path.ofPlace place).toText) view notices =
        (.ok (Path.ofPlace place), notices) := by
    rw [Inspection.outcome_expand, Disk.expand_place hplace]
  have hpath : outcome (sourcePath (Path.ofPlace place).toText pull.target) view [] =
      (.ok (Path.ofPlace place), []) := by
    rw [sourcePath, bind_of_ok (hexpand [])]
    split <;> rfl
  have hkey : outcome (SourceCache.key (Path.ofPlace place).toText) view [] =
      (.ok (Path.ofPlace place), []) := bind_of_ok (hexpand [])
  have hget : (do pull.cache.get (← sourcePath (Path.ofPlace place).toText pull.target).toText :
      Inspection (Document × SourceCache)).report view =
        (.ok (source, ⟨given, config, [(Path.ofPlace place, source)]⟩), notices) := by
    have hload : outcome (Document.load (Path.ofPlace place).toText given config) view [] =
      (.ok source, notices) := hload
    refine (bind_of_ok hpath).trans ?_
    rw [hcache, SourceCache.get, bind_of_ok hkey]
    exact bind_of_ok hload
  rw [source?, outcome_bind, outcome_get]
  dsimp only
  rw [outcome_bind, outcome_look, hget]
  exact ⟨_, rfl, rfl⟩

end Pulling

/-- A target whose sidecar names the absolute path of a source that can be read takes what it can from it. -/
theorem Document.pull_file {target source : Document} {s : Sidecar} {view : View} {place : List Text}
    {given : Option Text} {config : Config} {notices : List Notice}
    (hsidecar : target.sidecar = some s) (hmodified : s.isModified = false)
    (hplace : Disk.IsPlace place) (hsource : s.source = some (Path.ofPlace place).toText)
    (hload : (Document.load (Path.ofPlace place).toText given config).report view = (.ok source, notices))
    (wanted : List (Option Text)) :
    (target.update (.empty given config) wanted none view).1 = .ok () ∧
      (target.update (.empty given config) wanted none view).2.target = (target.apply source).target ∧
      (target.update (.empty given config) wanted none view).2.isChanged =
        (target.apply source).isChanged := by
  obtain ⟨pull, hread, hchanged⟩ := Pulling.outcome_source_place
    ⟨target, .empty given config, false, []⟩ (.sidecarSourceFailed (Path.ofPlace place).toText) rfl hplace
    hload
  have hwritten : (Path.ofPlace place).toText = '/' :: Text.joinWith ['/'] place := rfl
  rw [hwritten] at hread hsource
  rw [Pulling.update_sidecar_eq hsidecar, Pulling.pullSidecar, outcome_bind, outcome_get]
  dsimp only
  rw [if_neg (by simp [hmodified]), hsource]
  dsimp only
  rw [bind_of_ok hread]
  dsimp only
  rw [Pulling.merge, outcome_modify, hchanged, Bool.false_or]
  exact ⟨rfl, rfl, rfl⟩

end TrackedSections
