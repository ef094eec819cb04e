import TrackedSections.Proofs.Disk.Creating
import TrackedSections.Sidecar

/-!
# A file and its neighbours

`d.Grows d'` says that whatever stands somewhere on `d` stands there on `d'`. Read `write_cases_file`
first: a write overwrites a file or lets the disk grow. So it is read back if there is a directory where
its path starts (`read_of_write`), and it spares all files in other places (`read_of_write_ne`), such as
that of a sidecar (`locate_sidecar_ne`).
-/

namespace TrackedSections

namespace Node

/-- Names are looked up one stretch after the other. -/
theorem at_append (tree : Node) (first second : List Text) :
    tree.at? (first ++ second) = (tree.at? first).bind (·.at? second) := by
  induction first generalizing tree with
  | nil => cases tree <;> rfl
  | cons name rest ih =>
      cases tree with
      | file content mode => rfl
      | directory mode entries =>
          cases hchild : entries.lookup name with
          | none => simp [at?, hchild]
          | some child => rw [List.cons_append, at_of_lookup hchild, at_of_lookup hchild, ih]

/-- What is looked up in a directory is one of its entries. -/
theorem lookup_of_at_singleton {mode : Nat} {entries : List (Text × Node)} {name : Text} {child : Node}
    (h : (directory mode entries).at? [name] = some child) : entries.lookup name = some child := by
  obtain ⟨_, _, found, hdirectory, hlookup, hfound⟩ := of_at_cons h
  obtain rfl := (Node.directory.inj hdirectory).2
  rw [hlookup]
  exact hfound

/-- What has something below it is a directory. -/
theorem directory_of_at_concat {tree : Node} {names : List Text} {name : Text} {node : Node}
    (h : tree.at? (names ++ [name]) = some node) :
    ∃ mode entries, tree.at? names = some (.directory mode entries) := by
  rw [at_append] at h
  obtain ⟨above, habove, hbelow⟩ := Option.bind_eq_some_iff.1 h
  cases above with
  | file content mode => cases hbelow
  | directory mode entries => exact ⟨mode, entries, habove⟩

/-- What is above a directory is one. -/
theorem directory_of_at_drop_last {tree : Node} {names : List Text} {mode : Nat}
    {entries : List (Text × Node)} (h : tree.at? names = some (.directory mode entries)) :
    ∃ mode entries, tree.at? names.dropLast = some (.directory mode entries) := by
  rcases List.eq_nil_or_concat names with rfl | ⟨names, name, rfl⟩
  · exact ⟨mode, entries, h⟩
  · rw [List.concat_eq_append] at h ⊢
    rw [List.dropLast_concat]
    exact directory_of_at_concat h

end Node

namespace Disk

variable {d d' : Disk} {p q : Path} {content other : Bytes} {place : List Text}

/-- The place where a path starts: the root or the working directory. -/
def start (d : Disk) (p : Path) : List Text := if p.isAbsolute then [] else d.workdir

/-- Something stands where a path starts. The working directory may be missing. -/
def HasStart (d : Disk) (p : Path) : Prop := ∃ node, d.tree.at? (d.start p) = some node

/-- A disk on which everything stands that stands on another one. -/
structure Grows (d d' : Disk) : Prop where
  workdir_eq : d'.workdir = d.workdir
  face_eq : ∀ names face, d.faceAt names = some face → d'.faceAt names = some face

/-- A disk that does not change grows by nothing. -/
theorem Grows.refl (d : Disk) : d.Grows d := ⟨rfl, fun _ _ h => h⟩

/-- A disk on which there is a file or a directory wherever there is one on another disk. -/
structure Keeps (d d' : Disk) : Prop where
  workdir_eq : d'.workdir = d.workdir
  kept : ∀ names node, d.tree.at? names = some node →
    ∃ node', d'.tree.at? names = some node' ∧ node'.isDirectory = node.isDirectory

theorem Keeps.refl (d : Disk) : d.Keeps d := ⟨rfl, fun _ node h => ⟨node, h, rfl⟩⟩

theorem Keeps.trans {d'' : Disk} (h : d.Keeps d') (h' : d'.Keeps d'') : d.Keeps d'' := by
  refine ⟨h'.workdir_eq.trans h.workdir_eq, ?_⟩
  intro names node hnode
  obtain ⟨node', hnode', hkind⟩ := h.kept names node hnode
  obtain ⟨node'', hnode'', hkind'⟩ := h'.kept names node' hnode'
  exact ⟨node'', hnode'', hkind'.trans hkind⟩

/-- Names lead where they led before as long as nothing is missing. -/
theorem Keeps.locate_eq (h : d.Keeps d') (hp : d.locate p = .ok place) : d'.locate p = .ok place := by
  unfold locate at hp ⊢
  rw [h.workdir_eq]
  split at hp
  · cases hp
  · next hlimit =>
      rw [if_neg hlimit]
      exact follow_of_more h.kept hp

/-- Nothing is missing from a disk that grew. -/
theorem Grows.keeps (h : d.Grows d') : d.Keeps d' := by
  refine ⟨h.workdir_eq, ?_⟩
  intro names node hnode
  have hface := h.face_eq names node.face (by rw [faceAt, hnode]; rfl)
  obtain ⟨node', hnode', hsame⟩ := Option.map_eq_some_iff.1 hface
  exact ⟨node', hnode', Node.is_directory_of_face hsame⟩

/-- Nothing is missing when a file is overwritten. -/
theorem Overwritten.keeps (h : d.Overwritten d' place content)
    (hplace : d.faceAt place = some (some other)) : d.Keeps d' := by
  refine ⟨h.workdir_eq, ?_⟩
  intro names node hnode
  have hkind := h.kind_eq hplace names
  unfold faceAt at hkind
  rw [hnode] at hkind
  obtain ⟨face, hface, hsome⟩ := Option.map_eq_some_iff.1 hkind
  obtain ⟨node', hnode', rfl⟩ := Option.map_eq_some_iff.1 hface
  refine ⟨node', hnode', ?_⟩
  cases node <;> cases node' <;> first | rfl | cases hsome

/-- Names lead where they led before on a disk that grew. -/
theorem Grows.locate_eq (h : d.Grows d') (hp : d.locate p = .ok place) :
    d'.locate p = .ok place :=
  h.keeps.locate_eq hp

/-- What was read before is read from a disk that grew. -/
theorem Grows.read_eq (h : d.Grows d') (hread : d.read p = .ok content) :
    d'.read p = .ok content := by
  obtain ⟨place, hp, hplace⟩ := locate_of_read hread
  exact read_of_face (h.locate_eq hp) (h.face_eq place _ hplace)

/-- A path starts where it started on a disk that keeps what stands. -/
theorem Keeps.has_start (h : d.Keeps d') (hd : d.HasStart p) : d'.HasStart p := by
  obtain ⟨node, hnode⟩ := hd
  obtain ⟨node', hnode', -⟩ := h.kept _ node hnode
  refine ⟨node', ?_⟩
  rw [start, h.workdir_eq]
  exact hnode'

theorem Grows.has_start (h : d.Grows d') (hd : d.HasStart p) : d'.HasStart p :=
  h.keeps.has_start hd

theorem Overwritten.has_start (h : d.Overwritten d' place content)
    (hplace : d.faceAt place = some (some other)) (hd : d.HasStart p) : d'.HasStart p :=
  (h.keeps hplace).has_start hd

/-- Paths with the same anchor start in the same place. -/
theorem HasStart.of_anchor (h : d.HasStart p) (hanchor : q.anchor = p.anchor) : d.HasStart q := by
  unfold HasStart start Path.isAbsolute at *
  rw [hanchor]
  exact h

/-- In a free place there is nothing. Either its directory is missing, and nothing changes when something is
put there, or the directory has no such name yet, and the path leads to what is put there. -/
theorem slot_free_cases (h : d.slot p = .ok (.free place)) : d.tree.at? place = none ∧
    ((∀ new, d.put place new = d) ∨ ∃ directory mode entries, place = directory ++ [p.name] ∧
      d.tree.at? directory = some (.directory mode entries) ∧
      ∀ new, (d.put place new).locate p = .ok place) := by
  obtain ⟨hp, directory, hparent, rfl⟩ := of_slot_free h
  cases hdirectory : d.tree.at? directory with
  | none =>
      refine ⟨?_, .inl fun new => by rw [put, Node.put_of_missing hdirectory]⟩
      rw [Node.at_append, hdirectory]
      rfl
  | some above =>
      cases above with
      | file other mode =>
          obtain ⟨-, -, hlast⟩ := locate_eq_follow hp hparent
          simp [follow, hdirectory] at hlast
      | directory mode entries =>
          have hput (new : Node) := locate_of_put hp hparent hdirectory new
          exact ⟨(hput (.file [] 0)).1, .inr ⟨directory, mode, entries, rfl, hdirectory,
            fun new => (hput new).2⟩⟩

/-- A disk grows by what is put in a free place. -/
theorem grows_of_slot_free (h : d.slot p = .ok (.free place)) (new : Node) :
    d.Grows (d.put place new) := by
  obtain ⟨hfree, hsame | ⟨directory, mode, entries, rfl, hdirectory, -⟩⟩ := slot_free_cases h
  · rw [hsame]
    exact .refl d
  · refine ⟨rfl, ?_⟩
    intro names face hface
    obtain ⟨node, hnode, rfl⟩ := Option.map_eq_some_iff.1 hface
    obtain ⟨node', hnode', hsame⟩ := Node.face_of_put_new hdirectory hfree new hnode
    rw [faceAt, put, hnode', Option.map_some, hsame]

/-- A write overwrites the file at its path, or the disk grows. -/
theorem write_cases_file (h : d.write p content = .ok d') :
    d.Grows d' ∨ ∃ place old, d.locate p = .ok place ∧ d.faceAt place = some (some old) ∧
      d.Overwritten d' place content := by
  rcases of_write h with ⟨place, old, mode, hslot, -⟩ | ⟨place, hslot, rfl⟩
  · obtain ⟨hp, hnode⟩ := of_slot_taken hslot
    have hplace : d.faceAt place = some (some old) := by
      rw [faceAt, hnode]
      rfl
    exact .inr ⟨place, old, hp, hplace, (Overwritten.refl hplace).write hplace hp h⟩
  · exact .inl (grows_of_slot_free hslot _)

/-- A path starts where it started when something is written. -/
theorem has_start_of_write (h : d.write p content = .ok d') (hd : d.HasStart q) :
    d'.HasStart q := by
  rcases write_cases_file h with hgrows | ⟨place, old, -, hplace, hover⟩
  · exact hgrows.has_start hd
  · exact hover.has_start hplace hd

/-- A disk grows when something is touched. -/
theorem grows_of_touch (h : d.touch p = .ok d') : d.Grows d' := by
  rcases of_touch h with ⟨_, _, -, rfl⟩ | ⟨place, hslot, rfl⟩
  · exact .refl _
  · exact grows_of_slot_free hslot _

/-- A disk grows when a directory is made. -/
theorem grows_of_make_directory (h : d.makeDirectory p = .ok d') : d.Grows d' := by
  obtain ⟨place, hslot, rfl⟩ := of_make_directory h
  exact grows_of_slot_free hslot _

/-- Names lead from where something stands to where something stands. -/
theorem exists_of_follow {tree : Node} {start names : List Text}
    (hstart : ∃ node, tree.at? start = some node) (h : follow tree start names = .ok place) :
    ∃ node, tree.at? place = some node := by
  induction names generalizing start with
  | nil =>
      obtain rfl := Except.ok.inj h
      exact hstart
  | cons name rest ih =>
      obtain ⟨mode, entries, hnode, ⟨-, h⟩ | ⟨-, -, hchild, h⟩⟩ := follow_cons_cases h
      · obtain ⟨mode', entries', habove⟩ := Node.directory_of_at_drop_last hnode
        exact ih ⟨_, habove⟩ h
      · exact ih hchild h

/-- Where a path leads is where its names lead from its start. -/
theorem follow_of_locate (hp : d.locate p = .ok place) :
    follow d.tree (d.start p) p.names = .ok place := by
  unfold locate at hp
  split at hp
  · cases hp
  · exact hp

/-- A path with names that leads somewhere starts where something stands. -/
theorem has_start_of_ne_nil (hp : d.locate p = .ok place) (hne : p.names ≠ []) : d.HasStart p := by
  have hfollow := follow_of_locate hp
  obtain ⟨name, rest, hnames⟩ := List.exists_cons_of_ne_nil hne
  rw [hnames, follow] at hfollow
  cases hstart : d.tree.at? (d.start p) with
  | none => simp [hstart] at hfollow
  | some first => exact ⟨first, hstart⟩

/-- A path that leads to where something stands starts where something stands. -/
theorem has_start_of_locate (hp : d.locate p = .ok place) {node : Node}
    (hnode : d.tree.at? place = some node) : d.HasStart p := by
  by_cases hnames : p.names = []
  · have hfollow := follow_of_locate hp
    rw [hnames] at hfollow
    obtain rfl := Except.ok.inj hfollow
    exact ⟨node, hnode⟩
  · exact has_start_of_ne_nil hp hnames

/-- A path to a file starts where something stands. -/
theorem has_start_of_read (hread : d.read p = .ok content) : d.HasStart p := by
  obtain ⟨place, hp, hplace⟩ := locate_of_read hread
  obtain ⟨node, hnode, -⟩ := Option.map_eq_some_iff.1 hplace
  exact has_start_of_locate hp hnode

/-- What is written is read back. -/
theorem read_of_write (h : d.write p content = .ok d') (hd : d.HasStart p) :
    d'.read p = .ok content := by
  rcases write_cases h with hread | ⟨-, hp⟩
  · exact hread
  · unfold write slot at h
    rw [hp] at h
    cases hparent : d.locate p.parent with
    | error refusal => simp [hparent, Except.map] at h
    | ok directory =>
        simp only [hparent, Except.map] at h
        obtain rfl := Except.ok.inj h
        obtain ⟨-, -, hlast⟩ := locate_eq_follow hp hparent
        have hstart : d.HasStart p.parent := hd.of_anchor rfl
        obtain ⟨node, hnode⟩ := exists_of_follow hstart (follow_of_locate hparent)
        cases node with
        | file other mode => simp [follow, hnode] at hlast
        | directory mode entries => exact read_of_put hp hparent hnode

/-- A write spares the files in other places. -/
theorem read_of_write_ne (h : d.write p content = .ok d') (hread : d.read q = .ok other)
    (hne : d.locate q ≠ d.locate p) : d'.read q = .ok other := by
  rcases write_cases_file h with hgrows | ⟨place, old, hp, hplace, hover⟩
  · exact hgrows.read_eq hread
  · rw [hp] at hne
    exact (hover.read_of_ne hplace hne).trans hread

/-- Setting the permission bits of a file leaves what is read from all files. -/
theorem read_eq_of_change_mode (hread : d.read p = .ok content) {mode : Nat}
    (h : d.changeMode p mode = .ok d') (q : Path) : d'.read q = d.read q := by
  obtain ⟨place, hp, hplace⟩ := locate_of_read hread
  have hover := (Overwritten.refl hplace).change_mode hplace hp h
  by_cases hq : d.locate q = .ok place
  · exact (hover.read_of_locate hplace hq).trans (read_of_face hq hplace).symm
  · exact hover.read_of_ne hplace hq

/-- The working directory is the same when something is written. -/
theorem workdir_of_write (h : d.write p content = .ok d') : d'.workdir = d.workdir := by
  rcases write_cases_file h with hgrows | ⟨place, old, -, -, hover⟩
  · exact hgrows.workdir_eq
  · exact hover.workdir_eq

/-- The working directory is the same when permission bits are set. -/
theorem workdir_of_change_mode {mode : Nat} (h : d.changeMode p mode = .ok d') :
    d'.workdir = d.workdir := by
  obtain ⟨_, _, -, rfl⟩ := of_change_mode h
  rfl

/-- What is read from a path is a file. -/
theorem is_file_of_read (h : d.read p = .ok content) : d.isFile p = .ok true := by
  unfold read at h
  unfold isFile
  split at h
  · cases h
  · cases h
  · next hnode =>
      rw [hnode]
      rfl

/-- A last name that is no `..` leads to the place that has it, and is short enough. -/
theorem place_of_follow_concat {tree : Node} {start names : List Text} {name : Text}
    (h : follow tree start (names ++ [name]) = .ok place) (hup : name ≠ ['.', '.']) :
    ∃ directory, follow tree start names = .ok directory ∧ place = directory ++ [name] ∧
      name.encode.length ≤ nameLimit := by
  rw [follow_append] at h
  cases hdirectory : follow tree start names with
  | error refusal => simp [hdirectory] at h
  | ok directory =>
      rw [hdirectory] at h
      obtain ⟨-, -, -, ⟨heq, -⟩ | ⟨-, hlength, -, hlast⟩⟩ := follow_cons_cases h
      · exact absurd heq hup
      · exact ⟨directory, rfl, (Except.ok.inj hlast).symm, hlength⟩

/-- A path that leads to a file does not end in `..`. -/
theorem name_of_read (hread : d.read p = .ok content) : p.name ≠ ['.', '.'] := by
  intro hup
  obtain ⟨place, hp, hplace⟩ := locate_of_read hread
  have hfollow := follow_of_locate hp
  have hne : p.names ≠ [] := by
    intro hnil
    rw [Path.name, hnil] at hup
    cases hup
  rw [names_of_ne_nil hne, follow_append, hup] at hfollow
  cases habove : follow d.tree (d.start p) p.parent.names with
  | error refusal => simp [habove] at hfollow
  | ok above =>
      rw [habove] at hfollow
      obtain ⟨mode, entries, hnode, ⟨-, hlast⟩ | ⟨hne, -⟩⟩ := follow_cons_cases hfollow
      · -- The directory above a directory is no file.
        obtain ⟨mode', entries', hdirectory⟩ := Node.directory_of_at_drop_last hnode
        obtain rfl := Except.ok.inj hlast
        rw [faceAt, hdirectory] at hplace
        cases hplace
      · exact hne rfl

/-- A path with names that leads to a file leads to a place with its last name. -/
theorem place_of_read (hread : d.read p = .ok content) (hp : d.locate p = .ok place)
    (hne : p.names ≠ []) :
    ∃ directory, follow d.tree (d.start p) p.parent.names = .ok directory ∧
      place = directory ++ [p.name] := by
  have hfollow := follow_of_locate hp
  rw [names_of_ne_nil hne] at hfollow
  obtain ⟨directory, hdirectory, hplace, -⟩ := place_of_follow_concat hfollow (name_of_read hread)
  exact ⟨directory, hdirectory, hplace⟩

/-- The place of the sidecar of a file. -/
def beside (place : List Text) : List Text :=
  place.dropLast ++ [place.getLastD [] ++ Sidecar.extension]

theorem beside_concat (directory : List Text) (name : Text) :
    beside (directory ++ [name]) = directory ++ [name ++ Sidecar.extension] := by
  simp [beside]

/-- The names of files and of their sidecars do not have the same length. -/
theorem length_extension : Sidecar.extension.length = 12 := by decide

/-- The path of the sidecar of a file leads to the place beside that of the file, and the name there is short
enough. -/
theorem locate_beside {sidecarPath : Path} (hpath : Sidecar.pathFor p = .ok sidecarPath)
    (hread : d.read p = .ok content) (hp : d.locate p = .ok place) {other : List Text}
    (hother : d.locate sidecarPath = .ok other) :
    other = beside place ∧ place ≠ [] ∧ ∀ name ∈ (beside place).getLast?,
      name.encode.length ≤ nameLimit := by
  have hfollow := follow_of_locate hother
  unfold Sidecar.pathFor at hpath
  split at hpath
  · cases hpath
  · next hne =>
      obtain rfl := Except.ok.inj hpath
      have hup : p.name ++ Sidecar.extension ≠ ['.', '.'] := by
        intro h
        have hlength := congrArg List.length h
        rw [List.length_append, length_extension, List.length_cons, List.length_singleton] at hlength
        omega
      obtain ⟨above, habove, rfl⟩ := place_of_read hread hp hne
      obtain ⟨above', habove', rfl, hlength⟩ := place_of_follow_concat hfollow hup
      have hsame : follow d.tree (d.start p) p.parent.names = .ok above' := habove'
      obtain rfl := Except.ok.inj (habove.symm.trans hsame)
      rw [beside_concat]
      exact ⟨rfl, by simp, by simpa using hlength⟩

theorem beside_ne (h : place ≠ []) : beside place ≠ place := by
  obtain ⟨directory, name, rfl⟩ := List.eq_nil_or_concat place |>.resolve_left h
  rw [List.concat_eq_append, beside_concat]
  intro hsame
  have hlength := congrArg List.length (List.singleton_inj.1 (List.append_cancel_left hsame))
  rw [List.length_append, length_extension] at hlength
  omega

/-- The sidecar of a file stands in another place. -/
theorem locate_sidecar_ne {sidecarPath : Path} (hpath : Sidecar.pathFor p = .ok sidecarPath)
    (hread : d.read p = .ok content) : d.locate sidecarPath ≠ d.locate p := by
  intro hsame
  obtain ⟨place, hp, -⟩ := locate_of_read hread
  obtain ⟨hplace, hne, -⟩ := locate_beside hpath hread hp (hsame.trans hp)
  exact beside_ne hne hplace.symm

/-- A path to a file is one that can be read. -/
theorem read_of_is_file (h : d.isFile p = .ok true) : ∃ content, d.read p = .ok content := by
  unfold isFile at h
  unfold read
  cases hnode : d.node p with
  | error refusal =>
      rw [hnode] at h
      cases refusal <;> cases h
  | ok node =>
      rw [hnode] at h
      cases node with
      | file content mode => exact ⟨content, rfl⟩
      | directory mode entries => cases h

/-- Files are files still when something is written. -/
theorem is_file_of_write (h : d.write p content = .ok d') (hq : d.isFile q = .ok true) :
    d'.isFile q = .ok true := by
  rcases write_cases_file h with hgrows | ⟨place, old, -, hplace, hover⟩
  · obtain ⟨other, hread⟩ := read_of_is_file hq
    exact is_file_of_read (hgrows.read_eq hread)
  · rw [hover.is_file_eq hplace]
    exact hq

end Disk

end TrackedSections
