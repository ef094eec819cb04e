import TrackedSections.Document.Compile
import TrackedSections.Proofs.Disk.Absolute
import TrackedSections.Proofs.Document.Creation
import TrackedSections.Proofs.Sidecar

/-!
# Accepting a file in its sidecar

Read `accepted_of_compile` first: once the file at a path was accepted in its sidecar, the sidecar that stands
beside it has the digest of its content, and nothing else changed. What a sidecar is read as depends on its path
only in that it remembers it (`Sidecar.read_of_read`), so the sidecar may be read by another path later.
-/

namespace TrackedSections

open Effect

/-- A sidecar is read by another path as it is read by one. -/
theorem Sidecar.read_of_read {path : Path} {content octets : Bytes} {s : Sidecar}
    (h : read path content octets = .ok s) (other : Path) :
    read other content octets = .ok { s with path := other } := by
  unfold read at h ⊢
  split at h
  · cases h
  · split at h
    · cases h
    · cases h
    · unfold ofTable at h ⊢
      dsimp only at h ⊢
      split at h
      · obtain rfl := Except.ok.inj h
        rfl
      · cases h

/-- The content of the file at a place is the one that the sidecar beside it accepts. -/
structure Disk.Accepted (d : Disk) (place : List Text) (content : Bytes) : Prop where
  face_eq : d.faceAt place = some (some content)
  beside_eq : ∃ (octets : Bytes) (s : Sidecar), d.faceAt (Disk.beside place) = some (some octets) ∧
    s.accepted = Digest.ofBytes content ∧
    ∀ path : Path, Sidecar.read path content octets = .ok { s with path := path }

namespace Sidecar

/-- What a look for a sidecar at a path finds, for a file with a given content: none, or one that can be
loaded. -/
inductive Found (view : View) (path : Path) (content : Bytes) : Option Sidecar → Prop where
  | missing (hfile : ((Inspection.isFile path).report view).1 = .ok false) : Found view path content none
  | loaded {s : Sidecar} (hfile : ((Inspection.isFile path).report view).1 = .ok true)
      (hload : ((load path content).report view).1 = .ok s) : Found view path content (some s)

variable {view : View} {path : Path} {content : Bytes} {s : Sidecar}

/-- A sidecar that is found is read from a file. -/
theorem Found.read_eq (h : Found view path content (some s)) : ∃ octets,
    path.hasNull = false ∧ view.disk.read path = .ok octets ∧ read path content octets = .ok s := by
  cases h with
  | loaded hfile hload =>
      have hanswer : outcome (Inspection.isFile path) view [] = (.ok true, _) := Prod.ext hfile rfl
      have hloaded : outcome (load path content) view [] = (.ok s, _) := Prod.ext hload rfl
      obtain ⟨hnull, -⟩ := (Inspection.of_outcome_is_file hanswer).resolve_left (by simp)
      obtain ⟨octets, hread, hs⟩ := Document.read_of_outcome_load hloaded
      exact ⟨octets, hnull, hread, hs⟩

/-- A sidecar that is read from a file is found. -/
theorem found_of_read {octets : Bytes} (hnull : path.hasNull = false)
    (hread : view.disk.read path = .ok octets) (hs : read path content octets = .ok s) :
    Found view path content (some s) := by
  refine .loaded ?_ ?_
  · show (outcome (Inspection.isFile path) view []).1 = _
    rw [Inspection.outcome_is_file, hnull, Disk.is_file_of_read hread]
    rfl
  · show (outcome (load path content) view []).1 = _
    rw [Document.outcome_load_of_read hnull hread, hs]

/-- The sidecar that is found, or else a new one, is for the content of the file at its path. -/
theorem Found.get_d_eq {before : Option Sidecar} (h : Found view path content before) (name : Text) :
    (before.getD (.new path name content)).path = path ∧
      (before.getD (.new path name content)).content = content := by
  cases before with
  | none => exact ⟨rfl, rfl⟩
  | some s =>
      obtain ⟨_, -, -, hs⟩ := h.read_eq
      obtain ⟨hpath, hcontent, -⟩ := of_read hs
      exact ⟨hpath, hcontent⟩

/-- The sidecar is written to a path, and the disk is `d'` then. -/
def WrittenTo (s : Sidecar) (path : Path) (d d' : Disk) : Prop :=
  path.hasNull = false ∧ ∃ t, s.write = .ok t ∧ d.write path t.encode = .ok d'

end Sidecar

namespace Operation

variable {host : Host} {progress progress' : Progress} {named : Text} {changed : Bool} {path : Path}

/-- The sidecar of a file is the one that is found, or there is none and a new one is written, which accepts the
content. -/
theorem for_file_cases {s : Sidecar} (h : outcome (Sidecar.forFile path) host progress = (.ok s, progress')) :
    ∃ sidecarPath content, Sidecar.pathFor path = .ok sidecarPath ∧
      progress.disk.read path = .ok content ∧
      ((progress'.disk = progress.disk ∧
          Sidecar.Found ⟨host, progress.disk⟩ sidecarPath content (some s)) ∨
        (Sidecar.Found ⟨host, progress.disk⟩ sidecarPath content none ∧
          s = (Sidecar.new sidecarPath path.name content).accept ∧
          s.WrittenTo sidecarPath progress.disk progress'.disk)) := by
  obtain ⟨content, progress₁, hlook, h⟩ := ok_of_bind h
  obtain ⟨hread, hdisk₁⟩ := of_look_read_file (ok_of_explain hlook)
  obtain ⟨sidecarPath, progress₂, hlook, h⟩ := ok_of_bind h
  obtain ⟨hpath, hdisk₂⟩ := of_look_of_except hlook
  obtain ⟨found, progress₃, hlook, h⟩ := ok_of_bind h
  obtain ⟨hfound, hdisk₃⟩ := of_outcome_look hlook
  -- All looks are at one disk.
  rw [hdisk₂, hdisk₁] at hfound
  have hdisk := hdisk₃.trans (hdisk₂.trans hdisk₁)
  refine ⟨sidecarPath, content, hpath, hread, ?_⟩
  cases found with
  | true =>
      rw [if_pos rfl] at h
      obtain ⟨hload, hdisk₄⟩ := of_outcome_look h
      rw [hdisk] at hload
      exact .inl ⟨hdisk₄.trans hdisk, .loaded hfound hload⟩
  | false =>
      rw [if_neg Bool.false_ne_true] at h
      obtain ⟨_, progress₄, hsave, h⟩ := ok_of_bind h
      obtain ⟨_, progress₅, htell, hpure⟩ := ok_of_bind h
      obtain rfl := (Prod.mk.inj htell).2
      obtain ⟨rfl, rfl⟩ : _ ∧ _ := ⟨Except.ok.inj (Prod.mk.inj hpure).1, (Prod.mk.inj hpure).2⟩
      have hwritten := Sidecar.write_of_save hsave
      rw [hdisk] at hwritten
      exact .inr ⟨.missing hfound, rfl, hwritten⟩

/-- A file that is accepted in its sidecar has one already that accepts its content, or its sidecar is written,
which is the one that it had or a new one, with the content accepted. -/
theorem compile_sidecar_cases
    (h : outcome (compileSidecar named) host progress = (.ok changed, progress')) :
    ∃ path sidecarPath content before, host.expand named = .ok path ∧
      Sidecar.pathFor path = .ok sidecarPath ∧ progress.disk.read path = .ok content ∧
      Sidecar.Found ⟨host, progress.disk⟩ sidecarPath content before ∧
      ((changed = false ∧ progress'.disk = progress.disk ∧
          ∃ s, before = some s ∧ s.accepted = Digest.ofBytes content) ∨
        (changed = true ∧ (∀ s, before = some s → s.accepted ≠ Digest.ofBytes content) ∧
          (before.getD (.new sidecarPath path.name content)).accept.WrittenTo sidecarPath progress.disk
            progress'.disk)) := by
  obtain ⟨path, progress₁, hlook, h⟩ := ok_of_bind h
  obtain ⟨hexpand, hdisk₁⟩ := of_look_expand hlook
  obtain ⟨sidecarPath, progress₂, hlook, h⟩ := ok_of_bind h
  obtain ⟨hpath, hdisk₂⟩ := of_look_of_except hlook
  obtain ⟨existed, progress₃, hlook, h⟩ := ok_of_bind h
  obtain ⟨hexisted, hdisk₃⟩ := of_outcome_look hlook
  have hdisk := hdisk₃.trans (hdisk₂.trans hdisk₁)
  rw [hdisk₂, hdisk₁] at hexisted
  obtain ⟨s, progress₄, hfile, h⟩ := ok_of_bind h
  obtain ⟨sidecarPath', content, hpath', hread, hcases⟩ := for_file_cases hfile
  obtain rfl := Except.ok.inj (hpath.symm.trans hpath')
  rw [hdisk] at hread hcases
  rcases hcases with ⟨hdisk₄, hfound⟩ | ⟨hfound, rfl, hwritten⟩
  · refine ⟨path, sidecarPath, content, some s, hexpand, hpath, hread, hfound, ?_⟩
    obtain ⟨octets, -, -, hs⟩ := hfound.read_eq
    obtain ⟨hplace, hcontent, -⟩ := Sidecar.of_read hs
    have hcurrent : s.current = Digest.ofBytes content := congrArg Digest.ofBytes hcontent
    obtain rfl : existed = true := by
      cases hfound with
      | loaded hthere => exact Except.ok.inj (hexisted.symm.trans hthere)
    rw [if_neg (by simp)] at h
    split at h
    · next hchange =>
        obtain ⟨_, progress₅, hsave, hpure⟩ := ok_of_bind h
        obtain ⟨hchanged, rfl⟩ := Prod.mk.inj hpure
        have hwritten := Sidecar.write_of_save hsave
        have hsame : s.accept.path = sidecarPath := hplace
        rw [hdisk₄, hsame] at hwritten
        refine .inr ⟨(Except.ok.inj hchanged).symm, fun s' hs' haccepted => ?_, hwritten⟩
        rw [← Option.some.inj hs'] at haccepted
        simp [Sidecar.change, haccepted, hcurrent] at hchange
    · next hunchanged =>
        obtain ⟨hchanged, rfl⟩ := Prod.mk.inj h
        have haccepted : s.accepted = s.current := by simpa [Sidecar.change] using hunchanged
        exact .inl ⟨(Except.ok.inj hchanged).symm, hdisk₄, s, rfl, haccepted.trans hcurrent⟩
  · refine ⟨path, sidecarPath, content, none, hexpand, hpath, hread, hfound, ?_⟩
    obtain rfl : existed = false := by
      cases hfound with
      | missing hnone => exact Except.ok.inj (hexisted.symm.trans hnone)
    obtain ⟨hchanged, rfl⟩ := Prod.mk.inj h
    exact .inr ⟨(Except.ok.inj hchanged).symm, fun s hs => (nomatch hs), hwritten⟩

/-- After a file was accepted in its sidecar, the sidecar that it had is found with the content accepted, or a
new one if it had none. The answer is whether that is a change, and nothing else changes than what stands at the
path of the sidecar. -/
theorem found_of_compile (h : outcome (compileSidecar named) host progress = (.ok changed, progress')) :
    ∃ path sidecarPath content before, host.expand named = .ok path ∧
      Sidecar.pathFor path = .ok sidecarPath ∧ progress.disk.read path = .ok content ∧
      Sidecar.Found ⟨host, progress.disk⟩ sidecarPath content before ∧
      (changed = true ↔ ∀ s, before = some s → s.accepted ≠ Digest.ofBytes content) ∧
      progress.disk.ChangesOnly (· = sidecarPath) (fun _ => False) progress'.disk ∧
      progress'.disk.read path = .ok content ∧
      Sidecar.Found ⟨host, progress'.disk⟩ sidecarPath content
        (some (before.getD (.new sidecarPath path.name content)).accept) := by
  obtain ⟨path, sidecarPath, content, before, hexpand, hpath, hread, hfound, hcases⟩ :=
    compile_sidecar_cases h
  refine ⟨path, sidecarPath, content, before, hexpand, hpath, hread, hfound, ?_⟩
  rcases hcases with ⟨hchanged, hdisk, s, rfl, haccepted⟩ | ⟨hchanged, hstale, hnull, t, hwrite, hwritten⟩
  · obtain ⟨octets, -, -, hs⟩ := hfound.read_eq
    obtain ⟨-, hcontent, hmodified⟩ := Sidecar.of_read hs
    have hcurrent : s.accepted = s.current := haccepted.trans (congrArg Digest.ofBytes hcontent.symm)
    -- What accepts its content already stays as it is.
    have hsame : s.accept = s := by
      have hunmodified : s.isModified = false := by simpa [hcurrent] using hmodified
      rw [Sidecar.accept, ← hcurrent, ← hunmodified]
    rw [hdisk, Option.getD_some, hsame]
    refine ⟨?_, .refl _ _ _, hread, hfound⟩
    rw [hchanged]
    exact iff_of_false Bool.false_ne_true fun hall => hall s rfl haccepted
  · obtain ⟨hplace, hcontent⟩ := hfound.get_d_eq path.name
    have hstart := (Disk.has_start_of_read hread).of_anchor (Sidecar.anchor_of_path_for hpath)
    refine ⟨iff_of_true hchanged hstale, Disk.changes_of_write rfl hwritten,
      Disk.read_of_write_ne hwritten hread (Disk.locate_sidecar_ne hpath hread).symm, ?_⟩
    refine Sidecar.found_of_read hnull (Disk.read_of_write hwritten hstart) ?_
    rw [Sidecar.read_write hwrite sidecarPath content]
    generalize before.getD (.new sidecarPath path.name content) = s at hplace hcontent
    subst hplace hcontent
    simp [Sidecar.accept, Sidecar.finalize, Sidecar.current]

/-- A file that was accepted in its sidecar is accepted by what stands beside it, and nothing else changed than
what stands there. -/
theorem accepted_of_compile {place : List Text}
    (h : outcome (compileSidecar named) host progress = (.ok changed, progress'))
    (hexpand : host.expand named = .ok path) (hp : progress.disk.locate path = .ok place) :
    ∃ content, progress.disk.faceAt place = some (some content) ∧
      progress'.disk.Accepted place content ∧
      (place ≠ [] ∧ ∀ name ∈ (Disk.beside place).getLast?, name.encode.length ≤ Disk.nameLimit) ∧
      progress.disk.Keeps progress'.disk ∧
      ∀ other, other ≠ Disk.beside place → progress'.disk.faceAt other = progress.disk.faceAt other := by
  obtain ⟨path', sidecarPath, content, before, hexpand', hpath, hread, hbefore, -, hchanges, hread',
    hafter⟩ := found_of_compile h
  obtain rfl := Except.ok.inj (hexpand.symm.trans hexpand')
  obtain ⟨place', hp', hface⟩ := Disk.locate_of_read hread
  obtain rfl := Except.ok.inj (hp.symm.trans hp')
  obtain ⟨octets, -, hoctets, hs⟩ := hafter.read_eq
  obtain ⟨other, hother, hotherFace⟩ := Disk.locate_of_read hoctets
  obtain ⟨rfl, hne⟩ := Disk.locate_beside hpath hread' (hchanges.keeps.locate_eq hp) hother
  have hface' : ∀ other, other ≠ Disk.beside place →
      progress'.disk.faceAt other = progress.disk.faceAt other := by
    intro other hother'
    refine hchanges.face_eq fun p hpath' hlocate => hother' ?_
    subst hpath'
    exact Except.ok.inj (hlocate.symm.trans hother)
  have haccepted : (before.getD (.new sidecarPath path.name content)).current = Digest.ofBytes content :=
    congrArg Digest.ofBytes (hbefore.get_d_eq path.name).2
  exact ⟨content, hface, ⟨(hface' _ (Disk.beside_ne hne.1).symm).trans hface, octets, _, hotherFace,
    haccepted, Sidecar.read_of_read hs⟩, hne, hchanges.keeps, hface'⟩

end Operation

end TrackedSections
