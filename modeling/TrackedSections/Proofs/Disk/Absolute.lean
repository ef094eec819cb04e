import Mathlib.Data.List.Induction
import TrackedSections.Proofs.Disk.Frame
import TrackedSections.Proofs.Disk.Locating
import TrackedSections.Proofs.Path

/-!
# Absolute paths of places

A place is the list of names that leads to it from the root. Read `resolve_of_locate` first: as there are no
links, dropping each `..` together with the name before it gives the absolute path of the place that a path
leads to. That absolute path leads to the place from every working directory (`locate_place`), and it stays
what it is when it is resolved again (`resolve_place`).
-/

namespace TrackedSections

namespace Path

/-- The absolute path of a place. -/
def ofPlace (place : List Text) : Path := ⟨.slash, place⟩

theorem step_names_append (start first second : List Text) :
    stepNames start (first ++ second) = stepNames (stepNames start first) second := by
  induction first generalizing start with
  | nil => rfl
  | cons name rest ih =>
      rw [List.cons_append, stepNames, stepNames]
      split <;> exact ih _

end Path

namespace Disk

/-- A name that an entry of a directory may have. -/
structure EntryName (name : Text) : Prop where
  ne_nil : name ≠ []
  ne_dot : name ≠ ['.']
  ne_up : name ≠ ['.', '.']
  no_slash : '/' ∉ name
  no_null : '\x00' ∉ name
  length_le : name.encode.length ≤ nameLimit

/-- A list of names that entries may have. -/
def IsPlace (place : List Text) : Prop := ∀ name ∈ place, EntryName name

/-- There is a working directory, and it is at a place. -/
structure HasWorkdir (d : Disk) : Prop where
  is_place : IsPlace d.workdir
  stands : ∃ node, d.tree.at? d.workdir = some node

variable {d d' : Disk} {p : Path} {tree : Node} {start names place : List Text}

theorem HasWorkdir.has_start (h : d.HasWorkdir) (p : Path) : d.HasStart p := by
  unfold HasStart start
  split
  · exact ⟨d.tree, by cases d.tree <;> rfl⟩
  · exact h.stands

/-- The root may be the working directory. -/
theorem has_workdir_root (tree : Node) : HasWorkdir ⟨tree, []⟩ :=
  ⟨fun _ hname => absurd hname List.not_mem_nil, tree, by cases tree <;> rfl⟩

theorem HasWorkdir.of_keeps (h : d.HasWorkdir) (hkeeps : d.Keeps d') : d'.HasWorkdir := by
  obtain ⟨node, hnode⟩ := h.stands
  obtain ⟨node', hnode', -⟩ := hkeeps.kept _ node hnode
  rw [← hkeeps.workdir_eq] at hnode'
  exact ⟨hkeeps.workdir_eq ▸ h.is_place, node', hnode'⟩

/-! ## What a place is written as -/

theorem IsPlace.normal (h : IsPlace place) : (Path.ofPlace place).Normal := fun name hname =>
  ⟨(h name hname).ne_nil, (h name hname).ne_dot, (h name hname).no_slash⟩

theorem IsPlace.no_null (h : IsPlace place) : (Path.ofPlace place).hasNull = false := by
  refine List.any_eq_false.2 fun name hname => ?_
  simpa using (h name hname).no_null

/-- The names of a place lead straight down. -/
theorem IsPlace.step_names (h : IsPlace place) (start : List Text) :
    Path.stepNames start place = start ++ place := by
  induction place generalizing start with
  | nil => exact (List.append_nil start).symm
  | cons name rest ih =>
      obtain ⟨hname, hrest⟩ := List.forall_mem_cons.1 h
      rw [Path.stepNames, if_neg hname.ne_up, ih hrest, List.append_assoc, List.singleton_append]

/-- An absolute path of a place is resolved to itself. -/
theorem resolve_place (h : IsPlace place) (base : Path) :
    Path.resolve base (.ofPlace place) = .ofPlace place := by
  have habsolute : Path.absolute base (.ofPlace place) = .ofPlace place := rfl
  rw [Path.resolve, habsolute, Path.ofPlace, h.step_names, List.nil_append]

/-- An absolute path of a place is read from what it is written as. -/
theorem expand_place (h : IsPlace place) (host : Host) :
    host.expand (Path.ofPlace place).toText = .ok (.ofPlace place) :=
  Host.expand_to_text h.normal fun htilde => nomatch htilde.1

/-! ## Where names lead -/

/-- Following names on a disk is to drop each `..` with the name before it. -/
theorem step_names_of_follow (h : follow tree start names = .ok place) :
    Path.stepNames start names = place := by
  induction names generalizing start with
  | nil => exact Except.ok.inj h
  | cons name rest ih =>
      obtain ⟨-, -, -, ⟨hup, hrest⟩ | ⟨hup, -, -, hrest⟩⟩ := follow_cons_cases h
      · rw [Path.stepNames, if_pos hup]
        exact ih hrest
      · rw [Path.stepNames, if_neg hup]
        exact ih hrest

/-- Names that may be written lead from a place to a place. -/
theorem IsPlace.of_follow (hstart : IsPlace start)
    (hnames : ∀ name ∈ names, (name ≠ [] ∧ name ≠ ['.'] ∧ '/' ∉ name) ∧ '\x00' ∉ name)
    (h : follow tree start names = .ok place) : IsPlace place := by
  induction names generalizing start with
  | nil =>
      obtain rfl := Except.ok.inj h
      exact hstart
  | cons name rest ih =>
      obtain ⟨⟨⟨hne, hdot, hslash⟩, hnull⟩, hrest⟩ := List.forall_mem_cons.1 hnames
      obtain ⟨-, -, -, ⟨-, h⟩ | ⟨hup, hlength, -, h⟩⟩ := follow_cons_cases h
      · exact ih (fun n hn => hstart n (List.dropLast_subset _ hn)) hrest h
      · refine ih (fun n hn => ?_) hrest h
        rcases List.mem_append.1 hn with hn | hn
        · exact hstart n hn
        · obtain rfl := List.mem_singleton.1 hn
          exact ⟨hne, hdot, hup, hslash, hnull, hlength⟩

/-- A path that was read leads to a place. -/
theorem IsPlace.of_locate (hworkdir : IsPlace d.workdir) (hnormal : p.Normal)
    (hnull : p.hasNull = false) (h : d.locate p = .ok place) : IsPlace place := by
  have hstart : IsPlace (d.start p) := by
    unfold Disk.start
    split
    · exact fun name hname => nomatch hname
    · exact hworkdir
  refine hstart.of_follow (fun name hname => ⟨hnormal name hname, ?_⟩) (follow_of_locate h)
  simpa using List.any_eq_false.1 hnull name hname

/-- A path is resolved to the absolute path of the place that it leads to. -/
theorem resolve_of_locate (hworkdir : IsPlace d.workdir) (h : d.locate p = .ok place) :
    Path.resolve ⟨.slash, d.workdir⟩ p = .ofPlace place := by
  have hfollow := follow_of_locate h
  unfold start at hfollow
  unfold Path.resolve Path.absolute
  cases habsolute : p.isAbsolute with
  | true =>
      rw [habsolute, if_pos rfl] at hfollow
      rw [if_pos rfl, step_names_of_follow hfollow]
      rfl
  | false =>
      rw [habsolute, if_neg Bool.false_ne_true] at hfollow
      have hnames : (Path.join ⟨.slash, d.workdir⟩ p).names = d.workdir ++ p.names := by
        rw [Path.join, habsolute]
        rfl
      rw [if_neg Bool.false_ne_true, hnames, Path.step_names_append, hworkdir.step_names,
        List.nil_append, step_names_of_follow hfollow]
      rfl

/-- The names of a place where something stands lead to it from the root. -/
theorem follow_place (h : IsPlace place) (hstands : ∃ node, tree.at? place = some node) :
    follow tree [] place = .ok place := by
  induction place using List.reverseRecOn with
  | nil => rfl
  | append_singleton above name ih =>
      obtain ⟨node, hnode⟩ := hstands
      obtain ⟨mode, entries, hdirectory⟩ := Node.directory_of_at_concat hnode
      have hname := h name (by simp)
      have habove := ih (fun n hn => h n (List.mem_append_left _ hn)) ⟨_, hdirectory⟩
      rw [follow_append, habove]
      simp [follow, hdirectory, hname.ne_up, Nat.not_lt.2 hname.length_le, hnode]

/-- The absolute path of a place where something stands leads there, unless it is too long. -/
theorem locate_place (h : IsPlace place) (hstands : ∃ node, d.tree.at? place = some node)
    (hlimit : (Path.ofPlace place).toText.encode.length < pathLimit) :
    d.locate (.ofPlace place) = .ok place := by
  rw [locate, if_neg (Nat.not_le.2 hlimit)]
  exact follow_place h hstands

/-- A file is read from the absolute path of its place. -/
theorem read_place (h : IsPlace place) {content : Bytes}
    (hface : d.faceAt place = some (some content))
    (hlimit : (Path.ofPlace place).toText.encode.length < pathLimit) :
    d.read (.ofPlace place) = .ok content := by
  obtain ⟨node, hnode, -⟩ := Option.map_eq_some_iff.1 hface
  exact read_of_face (locate_place h ⟨node, hnode⟩ hlimit) hface

/-! ## The place of a sidecar -/

theorem path_for_place (h : place ≠ []) :
    Sidecar.pathFor (.ofPlace place) = .ok (.ofPlace (beside place)) := by
  have hnames : (Path.ofPlace place).names ≠ [] := h
  rw [Sidecar.pathFor, if_neg hnames]
  rfl

/-- The absolute path of a file is short enough if that of its sidecar is. -/
theorem limit_of_beside (h : place ≠ [])
    (hlimit : (Path.ofPlace (beside place)).toText.encode.length < pathLimit) :
    (Path.ofPlace place).toText.encode.length < pathLimit := by
  obtain ⟨above, name, rfl⟩ := (List.eq_nil_or_concat place).resolve_left h
  rw [List.concat_eq_append] at hlimit ⊢
  have htext : (Path.ofPlace (beside (above ++ [name]))).toText =
      (Path.ofPlace (above ++ [name])).toText ++ Sidecar.extension := by
    rw [beside_concat]
    exact congrArg ('/' :: ·) (Text.join_with_concat ['/'] name Sidecar.extension above)
  rw [htext, Text.encode, List.flatMap_append, List.length_append] at hlimit
  exact Nat.lt_of_le_of_lt (Nat.le_add_right _ _) hlimit

/-- The path of the sidecar of a file leads to the place beside that of the file, unless it is too long. -/
theorem locate_sidecar {sidecarPath : Path} {content : Bytes} (hpath : Sidecar.pathFor p = .ok sidecarPath)
    (hread : d.read p = .ok content) (hp : d.locate p = .ok place) (hbeside : IsPlace (beside place))
    (hstands : ∃ node, d.tree.at? (beside place) = some node)
    (hlimit : sidecarPath.toText.encode.length < pathLimit) : d.locate sidecarPath = .ok (beside place) := by
  unfold Sidecar.pathFor at hpath
  split at hpath
  · cases hpath
  · next hne =>
      obtain rfl := Except.ok.inj hpath
      obtain ⟨above, habove, rfl⟩ := place_of_read hread hp hne
      rw [beside_concat] at hbeside hstands ⊢
      obtain ⟨node, hnode⟩ := hstands
      obtain ⟨mode, entries, hdirectory⟩ := Node.directory_of_at_concat hnode
      have hname := hbeside (p.name ++ Sidecar.extension) (by simp)
      have hfollow : follow d.tree (d.start p) p.names.dropLast = .ok above := habove
      rw [locate, if_neg (Nat.not_le.2 hlimit)]
      show follow d.tree (d.start p) (p.names.dropLast ++ [p.name ++ Sidecar.extension]) = _
      rw [follow_append, hfollow]
      simp [follow, hdirectory, hname.ne_up, Nat.not_lt.2 hname.length_le, hnode]

/-- The sidecar of a file that can be looked up is at a place, as the file is. -/
theorem IsPlace.beside (h : IsPlace place) (hne : place ≠ [])
    (hlength : ∀ name ∈ (beside place).getLast?, name.encode.length ≤ nameLimit) :
    IsPlace (beside place) := by
  obtain ⟨above, name, rfl⟩ := (List.eq_nil_or_concat place).resolve_left hne
  rw [List.concat_eq_append] at h hlength ⊢
  rw [beside_concat] at hlength ⊢
  have hname := h name (by simp)
  have hslash : '/' ∉ Sidecar.extension ∧ '\x00' ∉ Sidecar.extension := by decide
  intro n hn
  rcases List.mem_append.1 hn with hn | hn
  · exact h n (List.mem_append_left _ hn)
  · obtain rfl := List.mem_singleton.1 hn
    have hlong : ∀ short : Text, short.length < 12 → name ++ Sidecar.extension ≠ short := by
      intro short hshort hsame
      have hsum := congrArg List.length hsame
      rw [List.length_append, length_extension] at hsum
      omega
    refine ⟨hlong _ (by decide), hlong _ (by decide), hlong _ (by decide), ?_, ?_, hlength _ (by simp)⟩
    · exact fun hmem => (List.mem_append.1 hmem).elim hname.no_slash hslash.1
    · exact fun hmem => (List.mem_append.1 hmem).elim hname.no_null hslash.2

end Disk

end TrackedSections
