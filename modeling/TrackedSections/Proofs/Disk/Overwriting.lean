import TrackedSections.Disk.Basic

/-!
# Writing to a file that exists

`d.Overwritten d' place content` says that `d'` differs from `d` in the content of the file at one
place, and perhaps in permission bits. Read `Overwritten.read_eq` first: what is read from such a disk
is the new content wherever a path leads to that place, and otherwise what it was. Paths lead where
they led before (`Overwritten.locate_eq`).
-/

namespace TrackedSections

namespace Node

/-- The content of a file, and nothing for a directory. -/
def face : Node → Option Bytes
  | .file content _ => some content
  | .directory _ _ => none

/-- The entry that was set is the only one that changes. -/
theorem lookup_set_entry (name other : Text) (node : Node) (entries : List (Text × Node)) :
    (setEntry name node entries).lookup other =
      if other = name then some node else entries.lookup other := by
  induction entries with
  | nil =>
      by_cases h : other = name
      · simp [setEntry, h]
      · simp [setEntry, h, List.lookup_cons, beq_false_of_ne h]
  | cons entry rest ih =>
      obtain ⟨first, old⟩ := entry
      rw [setEntry]
      by_cases hfirst : first = name
      · rw [if_pos hfirst, hfirst, List.lookup_cons, List.lookup_cons]
        by_cases h : other = name
        · simp [h]
        · simp [h, beq_false_of_ne h]
      · rw [if_neg hfirst, List.lookup_cons, List.lookup_cons, ih]
        by_cases h : other = first
        · simp [h, hfirst]
        · simp [beq_false_of_ne h]

/-- A place below an entry is looked up in that entry. -/
theorem at_of_lookup {name : Text} {child : Node} {entries : List (Text × Node)}
    (h : entries.lookup name = some child) (mode : Nat) (rest : List Text) :
    (directory mode entries).at? (name :: rest) = child.at? rest := by
  rw [at?, h]

/-- What is found below a name is found in a directory that has an entry of that name. -/
theorem of_at_cons {tree node : Node} {name : Text} {rest : List Text}
    (h : tree.at? (name :: rest) = some node) : ∃ mode entries child,
      tree = .directory mode entries ∧ entries.lookup name = some child ∧
        child.at? rest = some node := by
  cases tree with
  | file content mode => cases h
  | directory mode entries =>
      cases hchild : entries.lookup name with
      | none => simp [at?, hchild] at h
      | some child =>
          rw [at_of_lookup hchild] at h
          exact ⟨mode, entries, child, rfl, hchild, h⟩

/-- What is put below an entry is put in that entry. -/
theorem put_of_lookup {name : Text} {child : Node} {entries : List (Text × Node)}
    (h : entries.lookup name = some child) (new : Node) (mode : Nat) (rest : List Text) :
    put new (directory mode entries) (name :: rest) =
      directory mode (setEntry name (put new child rest) entries) := by
  simp [put, h]

/-- A place below an entry that was set is looked up in what it was set to. -/
theorem at_set_entry (name : Text) (node : Node) (entries : List (Text × Node)) (mode : Nat)
    (rest : List Text) :
    (directory mode (setEntry name node entries)).at? (name :: rest) = node.at? rest :=
  at_of_lookup (by rw [lookup_set_entry, if_pos rfl]) mode rest

/-- A place below another entry is what it was. -/
theorem at_set_entry_of_ne {name other : Text} (hne : other ≠ name) (node : Node)
    (entries : List (Text × Node)) (mode : Nat) (rest : List Text) :
    (directory mode (setEntry name node entries)).at? (other :: rest) =
      (directory mode entries).at? (other :: rest) := by
  rw [at?, at?, lookup_set_entry, if_neg hne]

/-- A file in the place of another one is the only node that changes its face. -/
theorem face_put {tree : Node} {place : List Text} {old : Bytes} {mode : Nat}
    (h : tree.at? place = some (.file old mode)) (new : Bytes) (mode' : Nat) (names : List Text) :
    ((put (.file new mode') tree place).at? names).map face =
      if names = place then some (some new) else (tree.at? names).map face := by
  -- Nothing is below a file, so only `place` itself and the ways that leave it need to be told apart.
  induction place generalizing tree names with
  | nil =>
      obtain rfl : tree = .file old mode := by simpa [at?] using h
      cases names with
      | nil => rfl
      | cons name names => rfl
  | cons name rest ih =>
      obtain ⟨bits, entries, child, rfl, hchild, hbelow⟩ := of_at_cons h
      rw [put_of_lookup hchild]
      cases names with
      | nil => simp [at?, face]
      | cons other names =>
          by_cases hother : other = name
          · subst hother
            rw [at_set_entry, at_of_lookup hchild, ih hbelow names]
            simp
          · rw [at_set_entry_of_ne hother]
            simp [hother]

end Node

namespace Disk

/-- What stands at a place: the content of a file, a directory, or nothing. -/
def faceAt (d : Disk) (names : List Text) : Option (Option Bytes) :=
  (d.tree.at? names).map Node.face

/-- Two disks that differ in the content of the file at one place, and perhaps in permission bits. -/
structure Overwritten (d d' : Disk) (place : List Text) (content : Bytes) : Prop where
  workdir_eq : d'.workdir = d.workdir
  face_eq : ∀ names, d'.faceAt names =
    if names = place then some (some content) else d.faceAt names

/-- A disk is overwritten with what a file has. -/
theorem Overwritten.refl {d : Disk} {place : List Text} {content : Bytes}
    (h : d.faceAt place = some (some content)) : d.Overwritten d place content := by
  refine ⟨rfl, ?_⟩
  intro names
  split
  · next heq => rw [heq, h]
  · rfl

variable {d d' : Disk} {place : List Text} {old content : Bytes}

/-- The kinds of nodes are the same as before. -/
theorem Overwritten.kind_eq (h : d.Overwritten d' place content)
    (hplace : d.faceAt place = some (some old)) (names : List Text) :
    (d'.faceAt names).map Option.isSome = (d.faceAt names).map Option.isSome := by
  rw [h.face_eq]
  split
  · next heq => rw [heq, hplace]; rfl
  · rfl

/-- Only the kinds of nodes decide where names lead. -/
theorem follow_eq (hkind : ∀ names,
    (d'.faceAt names).map Option.isSome = (d.faceAt names).map Option.isSome)
    (start names : List Text) : follow d'.tree start names = follow d.tree start names := by
  have hsome : ∀ names, (d'.tree.at? names).isSome = (d.tree.at? names).isSome := by
    intro names
    have := congrArg Option.isSome (hkind names)
    simpa [faceAt] using this
  induction names generalizing start with
  | nil => rfl
  | cons name rest ih =>
      have hstart := hkind start
      unfold faceAt at hstart
      rw [follow, follow, ih, ih, hsome]
      cases hnew : d'.tree.at? start with
      | none =>
          cases hold : d.tree.at? start with
          | none => rfl
          | some node => simp [hnew, hold] at hstart
      | some node' =>
          cases hold : d.tree.at? start with
          | none => simp [hnew, hold] at hstart
          | some node =>
              cases node <;> cases node' <;> simp_all [Node.face]

/-- Paths lead where they led before. -/
theorem Overwritten.locate_eq (h : d.Overwritten d' place content)
    (hplace : d.faceAt place = some (some old)) (p : Path) : d'.locate p = d.locate p := by
  rw [locate, locate, h.workdir_eq, follow_eq (h.kind_eq hplace)]

/-- What stands at the place that a path leads to. -/
theorem read_eq_face (d : Disk) (p : Path) :
    d.read p = match d.locate p with
      | .error refusal => .error refusal
      | .ok place => match d.faceAt place with
        | none => .error .notFound
        | some none => .error .isDirectory
        | some (some content) => .ok content := by
  rw [read, node]
  cases d.locate p with
  | error refusal => rfl
  | ok place =>
      simp only [faceAt]
      rcases d.tree.at? place with _ | _ | _ <;> rfl

/-- What is read is the new content wherever a path leads to its place. -/
theorem Overwritten.read_of_locate (h : d.Overwritten d' place content)
    (hplace : d.faceAt place = some (some old)) {p : Path} (hp : d.locate p = .ok place) :
    d'.read p = .ok content := by
  rw [read_eq_face, h.locate_eq hplace, hp]
  simp only [h.face_eq, if_true]

/-- What is read elsewhere is what was read before. -/
theorem Overwritten.read_of_ne (h : d.Overwritten d' place content)
    (hplace : d.faceAt place = some (some old)) {p : Path} (hp : d.locate p ≠ .ok place) :
    d'.read p = d.read p := by
  rw [read_eq_face, read_eq_face, h.locate_eq hplace]
  cases hother : d.locate p with
  | error refusal => rfl
  | ok other =>
      have hne : other ≠ place := fun heq => hp (heq ▸ hother)
      simp only [h.face_eq, hne, if_false]

/-- Files are where they were before. -/
theorem Overwritten.is_file_eq (h : d.Overwritten d' place content)
    (hplace : d.faceAt place = some (some old)) (p : Path) : d'.isFile p = d.isFile p := by
  rw [isFile, isFile, node, node, h.locate_eq hplace]
  cases d.locate p with
  | error refusal => rfl
  | ok other =>
      have hkind := h.kind_eq hplace other
      unfold faceAt at hkind
      dsimp only
      cases hnew : d'.tree.at? other with
      | none =>
          cases hold : d.tree.at? other with
          | none => rfl
          | some node => simp [hnew, hold] at hkind
      | some node' =>
          cases hold : d.tree.at? other with
          | none => simp [hnew, hold] at hkind
          | some node => cases node <;> cases node' <;> simp_all [Node.face, Node.isFile]

/-- A file is read from a path that leads to its place. -/
theorem read_of_face {p : Path} (hp : d.locate p = .ok place)
    (hface : d.faceAt place = some (some content)) : d.read p = .ok content := by
  rw [read_eq_face, hp]
  simp only [hface]

/-- What is read from a path is the content of the file at the place that it leads to. -/
theorem locate_of_read {p : Path} (h : d.read p = .ok content) :
    ∃ place, d.locate p = .ok place ∧ d.faceAt place = some (some content) := by
  rw [read_eq_face] at h
  cases hp : d.locate p with
  | error refusal => simp [hp] at h
  | ok place =>
      simp only [hp] at h
      refine ⟨place, rfl, ?_⟩
      split at h <;> simp_all

/-- A place with the content of a file has a file. -/
theorem slot_of_face {p : Path} (hp : d.locate p = .ok place)
    (hplace : d.faceAt place = some (some content)) :
    ∃ mode, d.tree.at? place = some (.file content mode) ∧
      d.slot p = .ok (.taken place (.file content mode)) := by
  obtain ⟨node, hnode, hface⟩ := Option.map_eq_some_iff.1 hplace
  cases node with
  | directory mode entries => cases hface
  | file content' mode =>
      obtain rfl : content' = content := by simpa [Node.face] using hface
      exact ⟨mode, hnode, by simp [slot, hp, hnode]⟩

/-- Writing to the file at a path overwrites its place. -/
theorem Overwritten.write (h : d.Overwritten d' place content)
    (hplace : d.faceAt place = some (some old)) {p : Path} (hp : d.locate p = .ok place)
    {new : Bytes} {d'' : Disk} (hwrite : d'.write p new = .ok d'') :
    d.Overwritten d'' place new := by
  have hp' : d'.locate p = .ok place := (h.locate_eq hplace p).trans hp
  have hface : d'.faceAt place = some (some content) := by rw [h.face_eq, if_pos rfl]
  obtain ⟨mode, hnode, hslot⟩ := slot_of_face hp' hface
  rw [Disk.write, hslot] at hwrite
  obtain rfl := Except.ok.inj hwrite
  refine ⟨h.workdir_eq, ?_⟩
  intro names
  have hput := Node.face_put hnode new mode names
  rw [faceAt, put, hput, ← faceAt, h.face_eq]
  split <;> rfl

/-- Setting permission bits of a file leaves its content. -/
theorem Overwritten.change_mode (h : d.Overwritten d' place content)
    (hplace : d.faceAt place = some (some old)) {p : Path} (hp : d.locate p = .ok place)
    {mode : Nat} {d'' : Disk} (hchange : d'.changeMode p mode = .ok d'') :
    d.Overwritten d'' place content := by
  have hp' : d'.locate p = .ok place := (h.locate_eq hplace p).trans hp
  have hface : d'.faceAt place = some (some content) := by rw [h.face_eq, if_pos rfl]
  obtain ⟨bits, hnode, hslot⟩ := slot_of_face hp' hface
  rw [changeMode, hslot] at hchange
  obtain rfl := Except.ok.inj hchange
  refine ⟨h.workdir_eq, ?_⟩
  intro names
  have hput := Node.face_put hnode content mode names
  rw [faceAt, put, Node.withMode, hput, ← faceAt, h.face_eq]
  split <;> rfl

end Disk

end TrackedSections
