import Mathlib.Data.List.Nodup
import Mathlib.Data.List.Perm.Basic
import TrackedSections.Proofs.Disk.Locating
import TrackedSections.Proofs.Disk.Proper
import TrackedSections.Proofs.Path
import TrackedSections.Walk

/-!
# The files of a walk

Read `files_nodup` and `way_of_mem_files` first: in a proper tree, a walk meets no file twice, and the
names that lead to a file are a `Way`. Both inductions are on the tree. `listing_of_way` says that the
listing of a directory has the first step of every such way.
-/

namespace TrackedSections

namespace Walk

variable {path q : Path} {node : Node}

@[simp] theorem anchor_entry_path (path : Path) (name : Text) :
    (entryPath path name).anchor = path.anchor :=
  rfl

@[simp] theorem names_entry_path (path : Path) (name : Text) :
    (entryPath path name).names = path.names ++ [name] :=
  rfl

/-- An entry is below its directory. -/
theorem covers_entry_path (path : Path) (name : Text) : path.Covers (entryPath path name) :=
  ⟨rfl, List.prefix_append _ _⟩

/-- What is below two entries of a directory shows that they are the same. -/
theorem eq_of_covers {first second : Text} (h : (entryPath path first).Covers q)
    (h' : (entryPath path second).Covers q) : first = second := by
  have hbegins := List.prefix_of_prefix_length_le h.2 h'.2 (by simp)
  have hsame := hbegins.eq_of_length (by simp)
  simpa using hsame

/-- The path of an entry has no null characters if the directory and the name have none. -/
theorem has_null_entry_path (hnull : path.hasNull = false) {name : Text} (hname : '\x00' ∉ name) :
    (entryPath path name).hasNull = false := by
  unfold Path.hasNull at hnull ⊢
  rw [names_entry_path, List.any_append, hnull]
  simpa using hname

/-- Entries with names of their own have paths of their own. -/
theorem nodup_map_entry_path {α : Type} {entries : List (Text × α)} (path : Path)
    (h : (entries.map Prod.fst).Nodup) : (entries.map fun entry => entryPath path entry.1).Nodup := by
  have hmap : (entries.map fun entry => entryPath path entry.1) =
      (entries.map Prod.fst).map (entryPath path) := by
    rw [List.map_map]
    rfl
  rw [hmap]
  refine h.map fun first second hsame => ?_
  simpa using congrArg Path.names hsame

/-- Entries are the same in whatever order. -/
theorem by_name_perm {α : Type} (entries : List (Text × α)) : (byName entries).Perm entries :=
  List.mergeSort_perm _ _

/-! ## A walk -/

/-- The branches of a directory are those of its entries. -/
theorem branches_of_eq_map (path : Path) (entries : List (Text × Node)) :
    branchesOf path entries = entries.map fun entry => (entry.1, branchOf path entry.1 entry.2) := by
  induction entries with
  | nil => rfl
  | cons entry rest ih => rw [branchesOf, ih, List.map_cons]

/-- A walk has the files of all branches in some order. -/
theorem gather_perm (branches : List (Text × Branch)) :
    (gather branches).Perm (branches.flatMap (·.2.files)) := by
  unfold gather
  dsimp only
  rw [← List.flatMap_append]
  refine List.Perm.flatMap ?_ fun _ _ => .refl _
  have hsplit := List.filter_append_perm (fun branch : Text × Branch => !branch.2.isDirectory)
    (byName branches)
  simp only [Bool.not_not] at hsplit
  exact hsplit.trans (by_name_perm branches)

/-- The files below a directory are those of its entries in some order. -/
theorem files_perm (path : Path) (mode : Nat) (entries : List (Text × Node)) :
    (files path (.directory mode entries)).Perm
      (entries.flatMap fun entry => (branchOf path entry.1 entry.2).files) := by
  rw [files, branches_of_eq_map]
  refine (gather_perm _).trans ?_
  rw [List.flatMap_map]

/-- A walk through a proper tree meets each file once, and each below the directory where it starts. -/
theorem files_nodup (h : node.Proper) (path : Path) :
    (files path node).Nodup ∧ ∀ q ∈ files path node, path.Covers q := by
  induction h generalizing path with
  | file content mode => exact ⟨.nil, fun q hq => nomatch hq⟩
  | directory mode hnodup hproper hentries ih =>
      next entries =>
        have hbranch : ∀ entry ∈ entries, (branchOf path entry.1 entry.2).files.Nodup ∧
            ∀ q ∈ (branchOf path entry.1 entry.2).files, (entryPath path entry.1).Covers q := by
          intro entry hentry
          obtain ⟨name, child⟩ := entry
          cases child with
          | file content mode =>
              rw [branchOf]
              split
              · exact ⟨.nil, fun q hq => nomatch hq⟩
              · refine ⟨List.nodup_singleton _, fun q hq => ?_⟩
                obtain rfl := List.mem_singleton.1 hq
                exact .refl _
          | directory mode below =>
              rw [branchOf]
              split
              · exact ⟨.nil, fun q hq => nomatch hq⟩
              · exact ih _ hentry (entryPath path name)
        have hperm := files_perm path mode entries
        refine ⟨hperm.nodup_iff.2 (List.nodup_flatMap.2 ⟨fun entry hentry => (hbranch _ hentry).1, ?_⟩),
          fun q hq => ?_⟩
        · refine (List.pairwise_map.1 hnodup).imp_of_mem ?_
          intro entry other hentry hother hne q hq hq'
          exact hne (eq_of_covers ((hbranch _ hentry).2 q hq) ((hbranch _ hother).2 q hq'))
        · obtain ⟨entry, hentry, hmem⟩ := List.mem_flatMap.1 (hperm.mem_iff.1 hq)
          exact (covers_entry_path path entry.1).trans ((hbranch _ hentry).2 q hmem)

/-- The names that lead from a directory to a file that a walk from it meets. -/
inductive Way : List Text → Prop where
  | last {name : Text} (hup : name ≠ ['.', '.']) : Way [name]
  | step {name : Text} {rest : List Text} (hup : name ≠ ['.', '.'])
      (hskip : name ≠ skippedDirectory) (h : Way rest) : Way (name :: rest)

theorem Way.ne_nil {way : List Text} (h : Way way) : way ≠ [] := by
  cases h <;> exact List.cons_ne_nil _ _

/-- The directories that are left out are on no way. -/
theorem Way.outside {way : List Text} (h : Way way) : skippedDirectory ∉ way.dropLast := by
  induction h with
  | last hup => exact List.not_mem_nil
  | step hup hskip h ih =>
      rw [List.dropLast_cons_of_ne_nil h.ne_nil, List.mem_cons, not_or]
      exact ⟨Ne.symm hskip, ih⟩

/-- A walk through a proper tree meets no sidecars, and only files that some way leads to. -/
theorem way_of_mem_files (h : node.Proper) (hq : q ∈ files path node) :
    ∃ way, Way way ∧ q = ⟨path.anchor, path.names ++ way⟩ ∧
      (∃ content mode, node.at? way = some (.file content mode)) ∧ Sidecar.isPath q = false := by
  induction h generalizing path with
  | file content mode => cases hq
  | directory mode hnodup hproper hentries ih =>
      next entries =>
        obtain ⟨⟨name, child⟩, hentry, hmem⟩ :=
          List.mem_flatMap.1 ((files_perm path mode entries).mem_iff.1 hq)
        have hup := (hproper _ hentry).2
        have hlookup := Node.lookup_of_mem hnodup hentry
        cases child with
        | file content bits =>
            dsimp only at hmem
            rw [branchOf] at hmem
            split at hmem
            · cases hmem
            · next hsidecar =>
                obtain rfl := List.mem_singleton.1 hmem
                refine ⟨[name], .last hup, rfl, ⟨content, bits, ?_⟩, by simpa using hsidecar⟩
                rw [Node.at_of_lookup hlookup]
                rfl
        | directory bits below =>
            dsimp only at hmem
            rw [branchOf] at hmem
            split at hmem
            · cases hmem
            · next hskip =>
                obtain ⟨way, hway, rfl, ⟨content, mode', hfile⟩, hsidecar⟩ := ih _ hentry hmem
                refine ⟨name :: way, .step hup hskip hway, by simp, ⟨content, mode', ?_⟩, hsidecar⟩
                rw [Node.at_of_lookup hlookup]
                exact hfile

/-- A file that is no sidecar adds itself to a walk. -/
theorem branch_of_file {name : Text} (hsidecar : Sidecar.isPath (entryPath path name) = false)
    (content : Bytes) (mode : Nat) :
    (branchOf path name (.file content mode)).files = [entryPath path name] := by
  simp [branchOf, hsidecar]

/-- A directory that is not left out adds the files below it to a walk. -/
theorem branch_of_directory {name : Text} (hskip : name ≠ skippedDirectory) (mode : Nat)
    (entries : List (Text × Node)) : (branchOf path name (.directory mode entries)).files =
      files (entryPath path name) (.directory mode entries) := by
  simp [branchOf, hskip, files]

/-- A walk meets every file that some way leads to, other than sidecars. -/
theorem mem_files_of_way {way : List Text} (hway : Way way) {content : Bytes} {mode : Nat}
    (hfile : node.at? way = some (.file content mode))
    (hsidecar : Sidecar.isPath ⟨path.anchor, path.names ++ way⟩ = false) :
    ⟨path.anchor, path.names ++ way⟩ ∈ files path node := by
  -- Either step of a way is an entry, and the files of a directory are those of its entries.
  have hbranch : ∀ {name : Text} {rest : List Text} {node : Node} {path q : Path},
      node.at? (name :: rest) = some (.file content mode) →
      (∀ child, child.at? rest = some (.file content mode) → q ∈ (branchOf path name child).files) →
      q ∈ files path node := by
    intro name rest node path q hfile hchildren
    obtain ⟨mode', entries, child, rfl, hchild, hbelow⟩ := Node.of_at_cons hfile
    exact (files_perm path mode' entries).mem_iff.2
      (List.mem_flatMap.2 ⟨_, Node.mem_of_lookup hchild, hchildren child hbelow⟩)
  induction hway generalizing node path with
  | last hup =>
      refine hbranch hfile fun child hchild => ?_
      obtain rfl := Option.some.inj hchild
      rw [branch_of_file hsidecar]
      exact List.mem_singleton.2 rfl
  | step hup hskip hway ih =>
      next name rest =>
        refine hbranch hfile fun child hchild => ?_
        cases child with
        | file content' mode' => cases hway <;> cases hchild
        | directory mode' entries =>
            rw [branch_of_directory hskip]
            have hmem : ⟨(entryPath path name).anchor, (entryPath path name).names ++ rest⟩ ∈
                files (entryPath path name) (.directory mode' entries) :=
              ih hchild (by simpa using hsidecar)
            simpa using hmem

/-- The files and the directories in a proper directory are all different, and they are its entries. -/
theorem listing_nodup (h : node.Proper) (path : Path) :
    ((listing path node).1 ++ (listing path node).2).Nodup ∧
      ∀ q ∈ (listing path node).1 ++ (listing path node).2,
        ∃ name, '\x00' ∉ name ∧ q = entryPath path name := by
  cases h with
  | file content mode => exact ⟨.nil, fun q hq => nomatch hq⟩
  | directory mode hnodup hproper hentries =>
      next entries =>
        -- Both lists are taken from one list of all entries: the files first and then the others.
        have hall : ((listing path (.directory mode entries)).1 ++
            (listing path (.directory mode entries)).2).Sublist
            (((byName entries).filter (·.2.isFile) ++ (byName entries).filter (!·.2.isFile)).map
              fun entry => entryPath path entry.1) := by
          rw [List.map_append]
          refine List.Sublist.append List.filter_sublist (List.Sublist.map _ ?_)
          refine List.monotone_filter_right _ fun entry hentry => ?_
          cases hnode : entry.2 with
          | file content mode => simp [hnode, Node.isDirectory] at hentry
          | directory mode below => rfl
        have hperm := ((List.filter_append_perm (fun entry : Text × Node => entry.2.isFile)
          (byName entries)).trans (by_name_perm entries)).map fun entry => entryPath path entry.1
        refine ⟨(hperm.nodup_iff.2 (nodup_map_entry_path path hnodup)).sublist hall, fun q hq => ?_⟩
        obtain ⟨entry, hentry, rfl⟩ := List.mem_map.1 (hperm.mem_iff.1 (hall.subset hq))
        exact ⟨entry.1, (hproper entry hentry).1, rfl⟩

/-- A listing has the files among the entries, other than sidecars. -/
theorem mem_listing_file {mode : Nat} {entries : List (Text × Node)} {name : Text} {child : Node}
    (hentry : (name, child) ∈ entries) (hfile : child.isDirectory = false)
    (hsidecar : Sidecar.isPath (entryPath path name) = false) :
    entryPath path name ∈ (listing path (.directory mode entries)).1 := by
  refine List.mem_filter.2 ⟨List.mem_map.2 ⟨(name, child), List.mem_filter.2 ⟨?_, ?_⟩, rfl⟩, ?_⟩
  · exact (by_name_perm entries).mem_iff.2 hentry
  · cases child with
    | file content mode => rfl
    | directory mode below => cases hfile
  · simp [hsidecar]

/-- A listing has the directories among the entries, other than those that are left out. -/
theorem mem_listing_directory {mode : Nat} {entries : List (Text × Node)} {name : Text} {child : Node}
    (hentry : (name, child) ∈ entries) (hdirectory : child.isDirectory = true)
    (hskip : name ≠ skippedDirectory) :
    entryPath path name ∈ (listing path (.directory mode entries)).2 := by
  refine List.mem_map.2 ⟨(name, child), List.mem_filter.2 ⟨?_, ?_⟩, rfl⟩
  · exact (by_name_perm entries).mem_iff.2 hentry
  · simp [hdirectory, hskip]

end Walk

namespace Disk

variable {d d' : Disk} {path : Path}

/-- A name other than `..` is followed into a directory. -/
theorem follow_of_cons {tree : Node} {above place rest : List Text} {name : Text}
    (hup : name ≠ ['.', '.']) (h : follow tree above (name :: rest) = .ok place) :
    follow tree (above ++ [name]) rest = .ok place := by
  obtain ⟨-, -, -, ⟨heq, -⟩ | ⟨-, -, -, h⟩⟩ := follow_cons_cases h
  · exact absurd heq hup
  · exact h

/-- A way to a file starts with an entry of the directory: a file at its end, and a directory before. -/
theorem entry_of_way {name : Text} {rest : List Text} (hup : name ≠ ['.', '.'])
    (hfile : d.isFile ⟨path.anchor, path.names ++ name :: rest⟩ = .ok true) :
    ∃ above mode entries child, d.locate path = .ok above ∧
      d.tree.at? above = some (.directory mode entries) ∧
      d.tree.at? (above ++ [name]) = some child ∧ (child.isDirectory = true ↔ rest ≠ []) := by
  obtain ⟨content, hread⟩ := read_of_is_file hfile
  obtain ⟨place, hplace, hface⟩ := locate_of_read hread
  obtain ⟨above, habove, hfollow⟩ := locate_of_append hplace
  have hbelow := follow_of_cons hup hfollow
  have hchild : ∃ child, d.tree.at? (above ++ [name]) = some child ∧
      (child.isDirectory = true ↔ rest ≠ []) := by
    cases rest with
    | nil =>
        obtain rfl := Except.ok.inj hbelow
        obtain ⟨child, hchild, hchildface⟩ := Option.map_eq_some_iff.1 hface
        cases child with
        | file content' mode => exact ⟨_, hchild, by simp [Node.isDirectory]⟩
        | directory mode below => cases hchildface
    | cons next rest =>
        rw [follow] at hbelow
        split at hbelow
        · cases hbelow
        · cases hbelow
        · next hchild => exact ⟨_, hchild, by simp [Node.isDirectory]⟩
  obtain ⟨child, hchild, hkind⟩ := hchild
  obtain ⟨mode, entries, hdirectory⟩ := Node.directory_of_at_concat hchild
  exact ⟨above, mode, entries, child, habove, hdirectory, hchild, hkind⟩

/-- A listing has the first step of every way to a file, also when the disk was changed in the meantime as
long as nothing is missing. -/
theorem listing_of_way (hkeeps : d.Keeps d') {name : Text} {rest : List Text}
    (hway : Walk.Way (name :: rest))
    (hfile : d.isFile ⟨path.anchor, path.names ++ name :: rest⟩ = .ok true)
    (hsidecar : Sidecar.isPath ⟨path.anchor, path.names ++ name :: rest⟩ = false) :
    ∃ node, d'.node path = .ok node ∧
      (rest = [] → Walk.entryPath path name ∈ (Walk.listing path node).1) ∧
      (rest ≠ [] → Walk.entryPath path name ∈ (Walk.listing path node).2) := by
  have hup : name ≠ ['.', '.'] := by cases hway <;> assumption
  obtain ⟨above, mode, entries, child, habove, hdirectory, hchild, hkind⟩ := entry_of_way hup hfile
  obtain ⟨node, hnode, hisdirectory⟩ := hkeeps.kept above _ hdirectory
  obtain ⟨child', hchild', hsame⟩ := hkeeps.kept _ _ hchild
  have hfound : d'.node path = .ok node := by
    rw [Disk.node, hkeeps.locate_eq habove]
    simp only [hnode]
  refine ⟨node, hfound, ?_⟩
  cases node with
  | file content bits => cases hisdirectory
  | directory bits others =>
      rw [Node.at_append, hnode, Option.bind_some] at hchild'
      have hentry := Node.mem_of_lookup (Node.lookup_of_at_singleton hchild')
      refine ⟨fun hrest => ?_, fun hrest => ?_⟩
      · subst hrest
        refine Walk.mem_listing_file hentry (hsame.trans ?_) hsidecar
        simpa using hkind
      · have hskip : name ≠ Walk.skippedDirectory := by
          cases hway with
          | last => exact absurd rfl hrest
          | step hup hskip h => exact hskip
        exact Walk.mem_listing_directory hentry (hsame.trans (hkind.2 hrest)) hskip

/-- A way leads straight down. -/
theorem place_of_way {tree : Node} {above place way : List Text} (hway : Walk.Way way)
    (h : follow tree above way = .ok place) : place = above ++ way := by
  induction hway generalizing above with
  | last hup => exact (Except.ok.inj (follow_of_cons hup h)).symm
  | step hup hskip hway ih => simpa using ih (follow_of_cons hup h)

end Disk

namespace Walk

/-- A file on a disk that a walk from the directory at a path is to meet: some way leads to it, and it is
no sidecar. -/
def Reaches (d : Disk) (path q : Path) : Prop :=
  ∃ way, Way way ∧ q = ⟨path.anchor, path.names ++ way⟩ ∧ Sidecar.isPath q = false ∧
    d.isFile q = .ok true

/-- Where there is a file to be met, a path leads to a node, and the file is below it. -/
theorem node_of_reaches {d : Disk} {path q : Path} (h : Reaches d path q) :
    ∃ node, d.node path = .ok node ∧ q ∈ files path node := by
  obtain ⟨way, hway, rfl, hsidecar, hfile⟩ := h
  obtain ⟨content, hread⟩ := Disk.read_of_is_file hfile
  obtain ⟨place, hplace, hface⟩ := Disk.locate_of_read hread
  obtain ⟨above, habove, hfollow⟩ := Disk.locate_of_append hplace
  obtain rfl := Disk.place_of_way hway hfollow
  obtain ⟨child, hchild, hchildface⟩ := Option.map_eq_some_iff.1 hface
  rw [Node.at_append] at hchild
  obtain ⟨node, hnode, hchild⟩ := Option.bind_eq_some_iff.1 hchild
  have hfound : d.node path = .ok node := by
    rw [Disk.node, habove]
    simp only [hnode]
  cases child with
  | file content' mode => exact ⟨node, hfound, mem_files_of_way hway hchild hsidecar⟩
  | directory mode entries => cases hchildface

end Walk

end TrackedSections
