import TrackedSections.Inspection
import TrackedSections.Proofs.Disk.Growing

/-!
# Trees as disks keep them

`Node.Proper` says that no directory has two entries of one name, that no name has a null character and
that none is `..`. `Disk.Step` is a change at a path without null characters. Read `Step.proper` and
`Step.keeps` first: every such change leaves a proper tree proper, and nothing is missing afterwards.
-/

namespace TrackedSections

namespace Node

/-- A name that an entry of a directory may have. -/
def ProperName (name : Text) : Prop := '\x00' ∉ name ∧ name ≠ ['.', '.']

/-- A file, or a directory whose entries have proper names of their own and are proper. -/
inductive Proper : Node → Prop where
  | file (content : Bytes) (mode : Nat) : Proper (.file content mode)
  | directory (mode : Nat) {entries : List (Text × Node)}
      (hnodup : (entries.map Prod.fst).Nodup)
      (hnames : ∀ entry ∈ entries, ProperName entry.1)
      (hentries : ∀ entry ∈ entries, Proper entry.2) : Proper (.directory mode entries)

/-- An entry that was set is the new one or an old one. -/
theorem mem_set_entry {name : Text} {node : Node} {entries : List (Text × Node)}
    {entry : Text × Node} (h : entry ∈ setEntry name node entries) :
    entry = (name, node) ∨ entry ∈ entries := by
  induction entries with
  | nil => exact .inl (List.mem_singleton.1 h)
  | cons first rest ih =>
      obtain ⟨other, old⟩ := first
      rw [setEntry] at h
      split at h
      · next hname =>
          rcases List.mem_cons.1 h with h | h
          · exact .inl (h.trans (by rw [hname]))
          · exact .inr (List.mem_cons_of_mem _ h)
      · rcases List.mem_cons.1 h with h | h
        · exact .inr (List.mem_cons.2 (.inl h))
        · exact (ih h).imp_right (List.mem_cons_of_mem _)

/-- Names of entries stay different when one is set. -/
theorem nodup_set_entry (name : Text) (node : Node) {entries : List (Text × Node)}
    (h : (entries.map Prod.fst).Nodup) : ((setEntry name node entries).map Prod.fst).Nodup := by
  induction entries with
  | nil => simp [setEntry]
  | cons first rest ih =>
      obtain ⟨other, old⟩ := first
      rw [List.map_cons, List.nodup_cons] at h
      rw [setEntry]
      split
      · exact List.nodup_cons.2 h
      · next hname =>
          refine List.nodup_cons.2 ⟨?_, ih h.2⟩
          intro hmem
          obtain ⟨entry, hentry, hfirst⟩ := List.mem_map.1 hmem
          rcases mem_set_entry hentry with rfl | hold
          · exact hname hfirst.symm
          · exact h.1 (List.mem_map.2 ⟨entry, hold, hfirst⟩)

/-- What is looked up is an entry. -/
theorem mem_of_lookup {name : Text} {child : Node} {entries : List (Text × Node)}
    (h : entries.lookup name = some child) : (name, child) ∈ entries := by
  obtain ⟨before, after, rfl, -⟩ := List.lookup_eq_some_iff.1 h
  simp

/-- An entry whose name is its own is found by it. -/
theorem lookup_of_mem {entries : List (Text × Node)} (hnodup : (entries.map Prod.fst).Nodup) {name : Text}
    {child : Node} (h : (name, child) ∈ entries) : entries.lookup name = some child := by
  induction entries with
  | nil => cases h
  | cons first rest ih =>
      obtain ⟨other, node⟩ := first
      obtain ⟨hother, hrest⟩ := List.nodup_cons.1 hnodup
      rcases List.mem_cons.1 h with heq | h
      · obtain ⟨rfl, rfl⟩ := Prod.mk.inj heq
        simp
      · have hne : name ≠ other := fun heq => hother (heq ▸ List.mem_map.2 ⟨_, h, rfl⟩)
        rw [List.lookup_cons, beq_eq_false_iff_ne.2 hne]
        exact ih hrest h

variable {tree new : Node} {names : List Text}

/-- The names on the way to a node of a proper tree are proper. -/
theorem Proper.names_of_at (h : tree.Proper) {node : Node} (hnode : tree.at? names = some node) :
    ∀ name ∈ names, ProperName name := by
  induction names generalizing tree with
  | nil => exact fun name hname => nomatch hname
  | cons first rest ih =>
      obtain ⟨mode, entries, child, rfl, hchild, hbelow⟩ := of_at_cons hnode
      cases h with
      | directory mode hnodup hproper hentries =>
          have hmem := mem_of_lookup hchild
          exact List.forall_mem_cons.2 ⟨hproper _ hmem, ih (hentries _ hmem) hbelow⟩

/-- A directory of a proper tree is proper. -/
theorem Proper.of_at (h : tree.Proper) {node : Node} (hnode : tree.at? names = some node) :
    node.Proper := by
  induction names generalizing tree with
  | nil =>
      obtain rfl := Option.some.inj hnode
      exact h
  | cons first rest ih =>
      obtain ⟨mode, entries, child, rfl, hchild, hbelow⟩ := of_at_cons hnode
      cases h with
      | directory mode hnodup hproper hentries =>
          exact ih (hentries _ (mem_of_lookup hchild)) hbelow

/-- A directory stays proper when an entry is set to a proper node under a proper name. -/
theorem Proper.set_entry {mode : Nat} {entries : List (Text × Node)}
    (h : (Node.directory mode entries).Proper) {name : Text} (hname : ProperName name)
    (hnew : new.Proper) : (Node.directory mode (setEntry name new entries)).Proper := by
  cases h with
  | directory mode hnodup hproper hentries =>
      refine .directory mode (nodup_set_entry name new hnodup) ?_ ?_
      · intro entry hentry
        rcases mem_set_entry hentry with rfl | hold
        · exact hname
        · exact hproper entry hold
      · intro entry hentry
        rcases mem_set_entry hentry with rfl | hold
        · exact hnew
        · exact hentries entry hold

/-- A tree stays proper when a proper node is put where all names are proper. -/
theorem Proper.put (h : tree.Proper) (hnew : new.Proper) (hnames : ∀ name ∈ names, ProperName name) :
    (put new tree names).Proper := by
  induction names generalizing tree with
  | nil => cases tree <;> exact hnew
  | cons first rest ih =>
      obtain ⟨hfirst, hrest⟩ := List.forall_mem_cons.1 hnames
      cases tree with
      | file content mode => exact h
      | directory mode entries =>
          cases hchild : entries.lookup first with
          | none =>
              cases rest with
              | nil =>
                  rw [put_new_entry hchild]
                  exact h.set_entry hfirst hnew
              | cons second rest =>
                  simp only [Node.put, hchild]
                  exact h
          | some child =>
              rw [put_of_lookup hchild]
              have hproper : child.Proper := h.of_at (by rw [at_of_lookup hchild, at?])
              exact h.set_entry hfirst (ih hproper hrest)

/-- A tree looks the same when a node is put in the place of one that looks the same. -/
theorem face_put_alike {node : Node} (h : tree.at? names = some node)
    (halike : ∀ below, (new.at? below).map face = (node.at? below).map face) (others : List Text) :
    ((put new tree names).at? others).map face = (tree.at? others).map face := by
  induction names generalizing tree others with
  | nil =>
      obtain rfl := Option.some.inj h
      cases tree <;> exact halike others
  | cons first rest ih =>
      obtain ⟨mode, entries, child, rfl, hchild, hbelow⟩ := of_at_cons h
      rw [put_of_lookup hchild]
      cases others with
      | nil => rfl
      | cons other others =>
          by_cases hother : other = first
          · subst hother
            rw [at_set_entry, at_of_lookup hchild, ih hbelow]
          · rw [at_set_entry_of_ne hother]

/-- A node looks the same with other permission bits. -/
theorem face_with_mode (node : Node) (mode : Nat) (below : List Text) :
    ((node.withMode mode).at? below).map face = (node.at? below).map face := by
  cases node <;> cases below <;> rfl

end Node

namespace Disk

/-- A change of the disk at a path without null characters. -/
inductive Step (d d' : Disk) : Prop where
  | write {path : Path} {content : Bytes} (hnull : path.hasNull = false)
      (h : d.write path content = .ok d')
  | touch {path : Path} (hnull : path.hasNull = false) (h : d.touch path = .ok d')
  | makeDirectory {path : Path} (hnull : path.hasNull = false) (h : d.makeDirectory path = .ok d')
  | changeMode {path : Path} {mode : Nat} (hnull : path.hasNull = false)
      (h : d.changeMode path mode = .ok d')

variable {d d' : Disk} {path : Path} {place : List Text} {new : Node}

/-- What a path leads to in a proper tree is proper. -/
theorem proper_of_node (h : d.tree.Proper) {node : Node} (hnode : d.node path = .ok node) :
    node.Proper := by
  unfold Disk.node at hnode
  split at hnode
  · cases hnode
  · split at hnode
    · cases hnode
    · next hat =>
        obtain rfl := Except.ok.inj hnode
        exact h.of_at hat

/-- The last name of a path without null characters has none. -/
theorem no_null_name (hnull : path.hasNull = false) : '\x00' ∉ path.name := by
  rcases List.eq_nil_or_concat path.names with hnames | ⟨names, name, hnames⟩
  · simp [Path.name, hnames]
  · rw [Path.name, hnames]
    rw [Path.hasNull, hnames] at hnull
    simp at hnull
    simpa using hnull.2

/-- A tree stays proper when a proper node is put where something may be created. -/
theorem proper_of_slot_free (h : d.tree.Proper) (hnull : path.hasNull = false)
    (hslot : d.slot path = .ok (.free place)) (hnew : new.Proper) : (d.put place new).tree.Proper := by
  obtain ⟨hp, directory, hparent, rfl⟩ := of_slot_free hslot
  cases hdirectory : d.tree.at? directory with
  | none =>
      rw [put, Node.put_of_missing hdirectory]
      exact h
  | some node =>
      refine h.put hnew ?_
      simp only [List.forall_mem_append, List.forall_mem_singleton]
      refine ⟨h.names_of_at hdirectory, no_null_name hnull, ?_⟩
      -- From a directory, `..` leads somewhere.
      intro hup
      obtain ⟨-, -, hlast⟩ := locate_eq_follow hp hparent
      rw [follow, hdirectory, hup] at hlast
      cases node <;> simp [follow] at hlast

/-- A tree stays proper when a proper node is put where something is. -/
theorem proper_of_slot_taken (h : d.tree.Proper) {old : Node}
    (hslot : d.slot path = .ok (.taken place old)) (hnew : new.Proper) :
    (d.put place new).tree.Proper :=
  h.put hnew (h.names_of_at (of_slot_taken hslot).2)

/-- Every change leaves a proper tree proper. -/
theorem Step.proper (hstep : d.Step d') (h : d.tree.Proper) : d'.tree.Proper := by
  cases hstep with
  | write hnull hwrite =>
      rcases of_write hwrite with ⟨_, _, _, hslot, rfl⟩ | ⟨_, hslot, rfl⟩
      · exact proper_of_slot_taken h hslot (.file _ _)
      · exact proper_of_slot_free h hnull hslot (.file _ _)
  | touch hnull htouch =>
      rcases of_touch htouch with ⟨_, _, -, rfl⟩ | ⟨_, hslot, rfl⟩
      · exact h
      · exact proper_of_slot_free h hnull hslot (.file _ _)
  | makeDirectory hnull hmake =>
      obtain ⟨_, hslot, rfl⟩ := of_make_directory hmake
      exact proper_of_slot_free h hnull hslot (.directory _ .nil (by simp) (by simp))
  | changeMode hnull hmode =>
      obtain ⟨place, node, hslot, rfl⟩ := of_change_mode hmode
      refine proper_of_slot_taken h hslot ?_
      cases h.of_at (of_slot_taken hslot).2 with
      | file content mode => exact .file content _
      | directory mode hnodup hproper hentries => exact .directory _ hnodup hproper hentries

/-- Setting permission bits leaves everything where it stands. -/
theorem grows_of_change_mode {mode : Nat} (h : d.changeMode path mode = .ok d') : d.Grows d' := by
  obtain ⟨place, node, hslot, rfl⟩ := of_change_mode h
  refine ⟨rfl, ?_⟩
  intro names face hface
  have hnode := (of_slot_taken hslot).2
  exact (Node.face_put_alike hnode (node.face_with_mode _) names).trans hface

/-- After every change there is a file or a directory wherever there was one. -/
theorem Step.keeps (hstep : d.Step d') : d.Keeps d' := by
  cases hstep with
  | write hnull hwrite =>
      rcases write_cases_file hwrite with hgrows | ⟨place, old, -, hplace, hover⟩
      · exact hgrows.keeps
      · exact hover.keeps hplace
  | touch hnull htouch => exact (grows_of_touch htouch).keeps
  | makeDirectory hnull hmake => exact (grows_of_make_directory hmake).keeps
  | changeMode hnull hmode => exact (grows_of_change_mode hmode).keeps

end Disk

end TrackedSections
