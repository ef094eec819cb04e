import TrackedSections.Proofs.Disk.Overwriting

/-!
# Writing to a path where there may be nothing

Read `write_cases` first: after something was written to a path, that is what is read from it. The
other case is a path to a directory that does not exist, which only the working directory can be.
-/

namespace TrackedSections

namespace Node

/-- Setting an entry to what it is changes nothing. -/
theorem set_entry_of_lookup {name : Text} {node : Node} {entries : List (Text × Node)}
    (h : entries.lookup name = some node) : setEntry name node entries = entries := by
  induction entries with
  | nil => cases h
  | cons entry rest ih =>
      obtain ⟨other, old⟩ := entry
      rw [setEntry]
      by_cases hname : other = name
      · subst hname
        rw [List.lookup_cons_self] at h
        obtain rfl := Option.some.inj h
        rw [if_pos rfl]
      · rw [if_neg hname]
        rw [List.lookup_cons, beq_false_of_ne (Ne.symm hname)] at h
        rw [ih h]

/-- Nothing is put where the directory is missing. -/
theorem put_of_missing {tree : Node} {directory : List Text} (h : tree.at? directory = none)
    (name : Text) (new : Node) : put new tree (directory ++ [name]) = tree := by
  induction directory generalizing tree with
  | nil => cases tree <;> cases h
  | cons first rest ih =>
      cases tree with
      | file content mode => rfl
      | directory mode entries =>
          cases hchild : entries.lookup first with
          | none =>
              obtain ⟨second, more, hmore⟩ : ∃ second more, rest ++ [name] = second :: more :=
                List.exists_cons_of_ne_nil (by simp)
              simp [hmore, put, hchild]
          | some child =>
              rw [at_of_lookup hchild] at h
              rw [List.cons_append, put_of_lookup hchild, ih h, set_entry_of_lookup hchild]

/-- A name that leads nowhere has no entry. -/
theorem lookup_of_at {mode : Nat} {entries : List (Text × Node)} {name : Text}
    (h : (directory mode entries).at? [name] = none) : entries.lookup name = none := by
  cases hlookup : entries.lookup name with
  | none => rfl
  | some child => simp [at?, hlookup] at h

/-- What is put in a directory under a new name becomes an entry. -/
theorem put_new_entry {mode : Nat} {entries : List (Text × Node)} {name : Text}
    (h : entries.lookup name = none) (new : Node) :
    put new (directory mode entries) [name] = directory mode (setEntry name new entries) := by
  simp [put, h]

/-- Nodes with the same face are of the same kind. -/
theorem is_directory_of_face {node node' : Node} (h : node'.face = node.face) :
    node'.isDirectory = node.isDirectory := by
  cases node <;> cases node' <;> first | rfl | cases h

section NewEntry

variable {tree : Node} {directory : List Text} {mode : Nat} {entries : List (Text × Node)}
  {name : Text}

/-- A node that is put in a directory is found there. -/
theorem at_put_new (hdirectory : tree.at? directory = some (.directory mode entries))
    (hfree : tree.at? (directory ++ [name]) = none) (new : Node) :
    (put new tree (directory ++ [name])).at? (directory ++ [name]) = some new := by
  induction directory generalizing tree with
  | nil =>
      obtain rfl : tree = .directory mode entries := Option.some.inj hdirectory
      rw [List.nil_append, put_new_entry (lookup_of_at hfree), at_set_entry, at?]
  | cons first rest ih =>
      obtain ⟨bits, others, child, rfl, hchild, hbelow⟩ := of_at_cons hdirectory
      rw [List.cons_append, at_of_lookup hchild] at hfree
      rw [List.cons_append, put_of_lookup hchild, at_set_entry]
      exact ih hbelow hfree

/-- What is found elsewhere after a node was put in a free place has the face that it had before. -/
theorem face_of_put_new (hdirectory : tree.at? directory = some (.directory mode entries))
    (hfree : tree.at? (directory ++ [name]) = none) (new : Node) {names : List Text} {node : Node}
    (hnode : tree.at? names = some node) :
    ∃ node', (put new tree (directory ++ [name])).at? names = some node' ∧
      node'.face = node.face := by
  -- The induction is on the way to the new node, and `names` may leave it at any step.
  induction directory generalizing tree names with
  | nil =>
      obtain rfl : tree = .directory mode entries := Option.some.inj hdirectory
      have hlookup := lookup_of_at hfree
      rw [List.nil_append, put_new_entry hlookup]
      cases names with
      | nil =>
          obtain rfl := Option.some.inj hnode
          exact ⟨_, rfl, rfl⟩
      | cons other names =>
          have hne : other ≠ name := by
            rintro rfl
            simp [at?, hlookup] at hnode
          rw [at_set_entry_of_ne hne]
          exact ⟨node, hnode, rfl⟩
  | cons first rest ih =>
      obtain ⟨bits, others, child, rfl, hchild, hbelow⟩ := of_at_cons hdirectory
      rw [List.cons_append, at_of_lookup hchild] at hfree
      rw [List.cons_append, put_of_lookup hchild]
      cases names with
      | nil =>
          obtain rfl := Option.some.inj hnode
          exact ⟨_, rfl, rfl⟩
      | cons other names =>
          by_cases hother : other = first
          · subst hother
            rw [at_of_lookup hchild] at hnode
            rw [at_set_entry]
            exact ih hbelow hfree hnode
          · rw [at_set_entry_of_ne hother]
            exact ⟨node, hnode, rfl⟩

/-- What is found elsewhere after a node was put in a free place is a directory if it was one. -/
theorem at_of_put_new (hdirectory : tree.at? directory = some (.directory mode entries))
    (hfree : tree.at? (directory ++ [name]) = none) (new : Node) {names : List Text} {node : Node}
    (hnode : tree.at? names = some node) :
    ∃ node', (put new tree (directory ++ [name])).at? names = some node' ∧
      node'.isDirectory = node.isDirectory := by
  obtain ⟨node', hnode', hface⟩ := face_of_put_new hdirectory hfree new hnode
  exact ⟨node', hnode', is_directory_of_face hface⟩

end NewEntry

end Node

namespace Disk

/-- Names are followed one stretch after the other. -/
theorem follow_append (tree : Node) (start first second : List Text) :
    follow tree start (first ++ second) =
      match follow tree start first with
      | .error refusal => .error refusal
      | .ok place => follow tree place second := by
  induction first generalizing start with
  | nil => rfl
  | cons name rest ih =>
      rw [List.cons_append, follow, follow]
      cases tree.at? start with
      | none => rfl
      | some node =>
          cases node with
          | file content mode => rfl
          | directory mode entries =>
              dsimp only
              rw [ih, ih]
              by_cases hup : name = ['.', '.']
              · rw [if_pos hup, if_pos hup]
              · rw [if_neg hup, if_neg hup]
                by_cases hlong : nameLimit < name.encode.length
                · rw [if_pos hlong, if_pos hlong]
                · rw [if_neg hlong, if_neg hlong]
                  split <;> rfl

/-- A name that is followed is looked up in a directory: `..` leads to the directory above, and any other name
is short enough and leads to the entry that has it. -/
theorem follow_cons_cases {tree : Node} {start rest place : List Text} {name : Text}
    (h : follow tree start (name :: rest) = .ok place) :
    ∃ mode entries, tree.at? start = some (.directory mode entries) ∧
      ((name = ['.', '.'] ∧ follow tree start.dropLast rest = .ok place) ∨
        (name ≠ ['.', '.'] ∧ name.encode.length ≤ nameLimit ∧
          (∃ child, tree.at? (start ++ [name]) = some child) ∧
          follow tree (start ++ [name]) rest = .ok place)) := by
  rw [follow] at h
  split at h
  · cases h
  · cases h
  · next mode entries hstart =>
      refine ⟨mode, entries, hstart, ?_⟩
      split at h
      · next hup => exact .inl ⟨hup, h⟩
      · next hup =>
          split at h
          · cases h
          · next hlong =>
              split at h
              · next hchild => exact .inr ⟨hup, Nat.not_lt.1 hlong, Option.isSome_iff_exists.1 hchild, h⟩
              · cases h

/-- Names lead where they led before in a tree with more nodes. -/
theorem follow_of_more {tree tree' : Node} (hmore : ∀ names node, tree.at? names = some node →
      ∃ node', tree'.at? names = some node' ∧ node'.isDirectory = node.isDirectory)
    {start names place : List Text} (h : follow tree start names = .ok place) :
    follow tree' start names = .ok place := by
  induction names generalizing start with
  | nil => exact h
  | cons name rest ih =>
      rw [follow] at h ⊢
      cases hstart : tree.at? start with
      | none => simp [hstart] at h
      | some node =>
          rw [hstart] at h
          obtain ⟨node', hnode', hkind⟩ := hmore start node hstart
          rw [hnode']
          cases node with
          | file content mode => cases h
          | directory mode entries =>
              cases node' with
              | file content' mode' => cases hkind
              | directory mode' entries' =>
                  dsimp only at h ⊢
                  -- Going up and a name that is too long do not depend on the entries.
                  by_cases hup : name = ['.', '.']
                  · rw [if_pos hup] at h ⊢
                    exact ih h
                  · rw [if_neg hup] at h ⊢
                    by_cases hlong : nameLimit < name.encode.length
                    · rw [if_pos hlong] at h
                      cases h
                    · rw [if_neg hlong] at h ⊢
                      cases hchild : tree.at? (start ++ [name]) with
                      | none => simp [hchild] at h
                      | some child =>
                          obtain ⟨child', hchild', -⟩ := hmore _ child hchild
                          rw [hchild] at h
                          rw [hchild']
                          exact ih h

variable {d d' : Disk} {p : Path} {content : Bytes}

/-- Where something may be created there is nothing yet, and the place is in the directory above. -/
theorem of_slot_free {place : List Text} (h : d.slot p = .ok (.free place)) :
    d.locate p = .error .notFound ∧ ∃ directory, d.locate p.parent = .ok directory ∧
      place = directory ++ [p.name] := by
  unfold slot at h
  split at h
  · split at h <;> cases h
  · next hp =>
      refine ⟨hp, ?_⟩
      cases hparent : d.locate p.parent with
      | error refusal => simp [hparent, Except.map] at h
      | ok directory =>
          simp [hparent, Except.map] at h
          exact ⟨directory, rfl, h.symm⟩
  · cases h

/-- The names of a path that has some are those of its directory and one more. -/
theorem names_of_ne_nil (hne : p.names ≠ []) : p.names = p.parent.names ++ [p.name] := by
  rw [Path.parent, Path.name, List.getLastD_eq_getLast?, List.getLast?_eq_some_getLast hne]
  exact (List.dropLast_concat_getLast hne).symm

/-- A path that leads nowhere has names. -/
theorem names_of_locate (h : d.locate p = .error .notFound) :
    p.names = p.parent.names ++ [p.name] := by
  refine names_of_ne_nil ?_
  intro hnil
  unfold locate at h
  rw [hnil] at h
  split at h <;> cases h

/-- Where a path leads is where its last name leads from the place of its directory. -/
theorem locate_eq_follow {directory : List Text} (hp : d.locate p = .error .notFound)
    (hparent : d.locate p.parent = .ok directory) :
    ¬ pathLimit ≤ p.toText.encode.length ∧
      follow d.tree (if p.isAbsolute then [] else d.workdir) p.parent.names = .ok directory ∧
      follow d.tree directory [p.name] = .error .notFound := by
  have hlimit : ¬ pathLimit ≤ p.toText.encode.length := by
    intro hlimit
    rw [locate, if_pos hlimit] at hp
    cases hp
  have hstart : follow d.tree (if p.isAbsolute then [] else d.workdir) p.parent.names =
      .ok directory := by
    unfold locate at hparent
    split at hparent
    · cases hparent
    · exact hparent
  refine ⟨hlimit, hstart, ?_⟩
  have hsplit := names_of_locate hp
  rw [locate, if_neg hlimit, hsplit, follow_append, hstart] at hp
  exact hp

/-- Where there is something already, the path leads to it. -/
theorem of_slot_taken {place : List Text} {node : Node} (h : d.slot p = .ok (.taken place node)) :
    d.locate p = .ok place ∧ d.tree.at? place = some node := by
  unfold slot at h
  split at h
  · next other hp =>
      cases hnode : d.tree.at? other with
      | none => simp [hnode] at h
      | some found =>
          simp only [hnode, Except.ok.injEq, Slot.taken.injEq] at h
          obtain ⟨rfl, rfl⟩ := h
          exact ⟨hp, hnode⟩
  · cases hparent : d.locate p.parent <;> simp [hparent, Except.map] at h
  · cases h

/-! What a change does to the disk is said once here for each of them. Whatever a change preserves is
derived from it. -/

/-- Writing replaces the content of a file, or creates a file. -/
theorem of_write (h : d.write p content = .ok d') :
    (∃ place old mode, d.slot p = .ok (.taken place (.file old mode)) ∧
      d' = d.put place (.file content mode)) ∨
    ∃ place, d.slot p = .ok (.free place) ∧ d' = d.put place (.file content newFileMode) := by
  unfold write at h
  split at h
  · cases h
  · cases h
  · next hslot => exact .inl ⟨_, _, _, hslot, (Except.ok.inj h).symm⟩
  · next hslot => exact .inr ⟨_, hslot, (Except.ok.inj h).symm⟩

/-- Touching leaves what is there, or creates an empty file. -/
theorem of_touch (h : d.touch p = .ok d') :
    (∃ place node, d.slot p = .ok (.taken place node) ∧ d' = d) ∨
    ∃ place, d.slot p = .ok (.free place) ∧ d' = d.put place (.file [] newFileMode) := by
  unfold touch at h
  split at h
  · cases h
  · next hslot => exact .inl ⟨_, _, hslot, (Except.ok.inj h).symm⟩
  · next hslot => exact .inr ⟨_, hslot, (Except.ok.inj h).symm⟩

/-- A directory is made where nothing is. -/
theorem of_make_directory (h : d.makeDirectory p = .ok d') :
    ∃ place, d.slot p = .ok (.free place) ∧ d' = d.put place (.directory newDirectoryMode []) := by
  unfold makeDirectory at h
  split at h
  · cases h
  · cases h
  · next hslot => exact ⟨_, hslot, (Except.ok.inj h).symm⟩

/-- Permission bits are set where something is. -/
theorem of_change_mode {mode : Nat} (h : d.changeMode p mode = .ok d') :
    ∃ place node, d.slot p = .ok (.taken place node) ∧ d' = d.put place (node.withMode mode) := by
  unfold changeMode at h
  split at h
  · cases h
  · next hslot => exact ⟨_, _, hslot, (Except.ok.inj h).symm⟩
  · cases h

/-- A free place of an existing directory has nothing in it, and a path leads there once something is put
there. -/
theorem locate_of_put {directory : List Text} {mode : Nat} {entries : List (Text × Node)}
    (hp : d.locate p = .error .notFound) (hparent : d.locate p.parent = .ok directory)
    (hdirectory : d.tree.at? directory = some (.directory mode entries)) (new : Node) :
    d.tree.at? (directory ++ [p.name]) = none ∧
      (d.put (directory ++ [p.name]) new).locate p = .ok (directory ++ [p.name]) := by
  obtain ⟨hlimit, hstart, hlast⟩ := locate_eq_follow hp hparent
  -- The last name is a proper one that the directory does not have.
  simp only [follow, hdirectory] at hlast
  have hup : p.name ≠ ['.', '.'] := by
    intro hup
    rw [if_pos hup] at hlast
    cases hlast
  rw [if_neg hup] at hlast
  have hlong : ¬ nameLimit < p.name.encode.length := by
    intro hlong
    rw [if_pos hlong] at hlast
    cases hlast
  rw [if_neg hlong] at hlast
  have hfree : d.tree.at? (directory ++ [p.name]) = none := by
    cases hchild : d.tree.at? (directory ++ [p.name]) with
    | none => rfl
    | some child => simp [hchild] at hlast
  have hnew := Node.at_put_new hdirectory hfree new
  obtain ⟨node, hnode, hkind⟩ := Node.at_of_put_new hdirectory hfree new hdirectory
  -- The way to the directory is the old one, and the last step finds the new node.
  refine ⟨hfree, ?_⟩
  rw [locate, if_neg hlimit, names_of_locate hp, follow_append]
  unfold put
  dsimp only
  rw [follow_of_more (fun _ _ => Node.at_of_put_new hdirectory hfree new) hstart]
  cases node with
  | file other bits => cases hkind
  | directory bits others => simp [follow, hnode, hup, hlong, hnew]

/-- A new file in a directory is read from its path. -/
theorem read_of_put {directory : List Text} {mode bits : Nat} {entries : List (Text × Node)}
    (hp : d.locate p = .error .notFound) (hparent : d.locate p.parent = .ok directory)
    (hdirectory : d.tree.at? directory = some (.directory mode entries)) :
    (d.put (directory ++ [p.name]) (.file content bits)).read p = .ok content := by
  obtain ⟨hfree, hlocate⟩ := locate_of_put hp hparent hdirectory (.file content bits)
  have hnew := Node.at_put_new hdirectory hfree (.file content bits)
  rw [read, Disk.node, hlocate]
  unfold put
  dsimp only
  rw [hnew]

/-- What is written to a path is read from it afterwards, unless the directory is missing and nothing
changes. -/
theorem write_cases (h : d.write p content = .ok d') :
    d'.read p = .ok content ∨ (d' = d ∧ d.locate p = .error .notFound) := by
  rcases of_write h with ⟨place, old, mode, hslot, -⟩ | ⟨place, hslot, rfl⟩
  · obtain ⟨hp, hnode⟩ := of_slot_taken hslot
    have hplace : d.faceAt place = some (some old) := by
      rw [faceAt, hnode]
      rfl
    exact .inl (((Overwritten.refl hplace).write hplace hp h).read_of_locate hplace hp)
  · obtain ⟨hp, directory, hparent, rfl⟩ := of_slot_free hslot
    obtain ⟨-, -, hlast⟩ := locate_eq_follow hp hparent
    cases hdirectory : d.tree.at? directory with
    | none =>
        refine .inr ⟨?_, hp⟩
        rw [put, Node.put_of_missing hdirectory]
    | some node =>
        cases node with
        | file other mode => simp [follow, hdirectory] at hlast
        | directory mode entries => exact .inl (read_of_put hp hparent hdirectory)

/-- Setting permission bits of a file leaves what is read from it. -/
theorem read_of_change_mode (hread : d.read p = .ok content) {mode : Nat}
    (h : d.changeMode p mode = .ok d') : d'.read p = .ok content := by
  obtain ⟨place, hp, hplace⟩ := locate_of_read hread
  exact ((Overwritten.refl hplace).change_mode hplace hp h).read_of_locate hplace hp

/-- No permission bits are set where there is nothing. -/
theorem change_mode_of_missing (hp : d.locate p = .error .notFound) {mode : Nat} :
    d.changeMode p mode ≠ .ok d' := by
  intro h
  obtain ⟨place, node, hslot, -⟩ := of_change_mode h
  cases hp.symm.trans (of_slot_taken hslot).1

end Disk

end TrackedSections
