import TrackedSections.Proofs.Walk.Files

/-!
# The order of a walk

A walk lists the files of each directory by name, and then what is in its directories, by name too.
`Walk.Earlier` is this order on the names that lead to files, and `Walk.Listed` says which files are meant.
Read `lists_files` first: a walk through a proper tree lists these files, each once and in this order. No
other list is in this order (`Lists.unique`).
-/

namespace TrackedSections

namespace Text

/-- `t` comes before `u` in the order of their characters, and before every longer text that begins with it. -/
def Less (t u : Text) : Prop := List.Lex (· < ·) t u

variable {t u v : Text}

theorem Less.asymm (h : Less t u) : ¬ Less u t := List.lt_asymm h

theorem less_irrefl (t : Text) : ¬ Less t t := List.lt_irrefl t

theorem less_cons_iff {c d : Char} : Less (c :: t) (d :: u) ↔ c < d ∨ c = d ∧ Less t u :=
  List.cons_lt_cons_iff

/-- A text is not after another one when the other one does not come before it. -/
theorem not_after_eq_true : notAfter t u = true ↔ ¬ Less u t := by
  fun_induction notAfter t u with
  | case1 u => exact iff_of_true rfl fun h => nomatch h
  | case2 c t => exact iff_of_false Bool.false_ne_true fun h => h .nil
  | case3 t d u ih => rw [ih, less_cons_iff, or_iff_right (Char.lt_irrefl d), and_iff_right rfl]
  | case4 c t d u hne =>
      rw [less_cons_iff, decide_eq_true_eq]
      have hle : c < d ↔ ¬ d < c := ⟨Char.lt_asymm, fun h => Std.lt_of_le_of_ne (Std.not_lt.1 h) hne⟩
      simp [hle, Ne.symm hne]

theorem not_less_trans (h : ¬ Less u t) (h' : ¬ Less v u) : ¬ Less v t := List.le_trans h h'

theorem not_less_total (t u : Text) : ¬ Less u t ∨ ¬ Less t u := List.le_total t u

theorem less_of_ne (h : ¬ Less u t) (hne : t ≠ u) : Less t u :=
  (List.le_iff_lt_or_eq.1 h).resolve_right hne

end Text

/-- The path that some names lead to from the directory at `p`. -/
def Path.below (p : Path) (way : List Text) : Path := ⟨p.anchor, p.names ++ way⟩

namespace Walk

/-- The order in which a walk meets the files that some names lead to. -/
inductive Earlier : List Text → List Text → Prop where
  /-- Both files are in the directory. -/
  | files {name name' : Text} (h : Text.Less name name') : Earlier [name] [name']
  /-- The first file is in the directory, and the other one is further down. -/
  | deeper {name name' : Text} {rest : List Text} (hrest : rest ≠ []) : Earlier [name] (name' :: rest)
  /-- Both files are further down, in two of the directories in it. -/
  | directories {name name' : Text} {rest rest' : List Text} (hrest : rest ≠ []) (hrest' : rest' ≠ [])
      (h : Text.Less name name') : Earlier (name :: rest) (name' :: rest')
  /-- Both files are further down, in one of the directories in it. -/
  | inside {name : Text} {rest rest' : List Text} (h : Earlier rest rest') :
      Earlier (name :: rest) (name :: rest')

/-- Of two files, only one comes before the other. -/
theorem Earlier.asymm {way way' : List Text} (h : Earlier way way') : ¬ Earlier way' way := by
  induction h with
  | files h =>
      intro h'
      cases h' with
      | files h' => exact h.asymm h'
      | deeper hrest => exact hrest rfl
      | directories hrest => exact hrest rfl
      | inside h' => cases h'
  | deeper hrest =>
      intro h'
      cases h' with
      | files => exact hrest rfl
      | deeper hrest' => exact hrest' rfl
      | directories _ hrest' => exact hrest' rfl
      | inside h' => cases h'
  | directories hrest hrest' h =>
      intro h'
      cases h' with
      | files => exact hrest rfl
      | deeper => exact hrest' rfl
      | directories _ _ h' => exact h.asymm h'
      | inside => exact Text.less_irrefl _ h
  | inside h ih =>
      intro h'
      cases h' with
      | files | deeper => cases h
      | directories _ _ h' => exact Text.less_irrefl _ h'
      | inside h' => exact ih h'

/-- A file below the directory at a path that a walk is to list: some names lead to it, none of the
directories on the way is left out, and it is no sidecar. -/
structure Listed (path : Path) (node : Node) (way : List Text) : Prop where
  is_file : ∃ content mode, node.at? way = some (.file content mode)
  below : way ≠ []
  outside : skippedDirectory ∉ way.dropLast
  no_sidecar : Sidecar.isPath (path.below way) = false

/-- One path comes before another one in a walk from the directory at a path. -/
def Before (path p q : Path) : Prop :=
  ∃ way way', p = path.below way ∧ q = path.below way' ∧ Earlier way way'

/-- Some paths are those that a walk from a node at a path is to list, each once and in their order. -/
structure Lists (path : Path) (node : Node) (paths : List Path) : Prop where
  distinct : paths.Nodup
  mem_iff : ∀ q, q ∈ paths ↔ ∃ way, q = path.below way ∧ Listed path node way
  in_order : paths.Pairwise (Before path)

variable {path p q : Path} {node : Node}

/-- The names that lead to a path below another one are known from it. -/
theorem below_inj {way way' : List Text} (h : path.below way = path.below way') : way = way' :=
  List.append_cancel_left (congrArg Path.names h)

/-- Of two paths, only one comes before the other. -/
theorem Before.asymm (h : Before path p q) : ¬ Before path q p := by
  obtain ⟨way, way', rfl, rfl, h⟩ := h
  rintro ⟨other, other', hother, hother', h'⟩
  obtain rfl := below_inj hother
  obtain rfl := below_inj hother'
  exact h.asymm h'

/-- Only one list of paths is what a walk is to list. -/
theorem Lists.unique {paths paths' : List Path} (h : Lists path node paths) (h' : Lists path node paths') :
    paths = paths' := by
  have hperm : paths.Perm paths' := (List.perm_ext_iff_of_nodup h.distinct h'.distinct).2 fun q => by
    rw [h.mem_iff, h'.mem_iff]
  exact hperm.eq_of_pairwise (fun _ _ _ _ hpq hqp => (hpq.asymm hqp).elim) h.in_order h'.in_order

/-! ## The files that a walk lists -/

/-- The names that lead to a file of a proper tree, none of them left out before the last, are a way. -/
theorem way_of_at (h : node.Proper) {way : List Text} {file : Node} (hfile : node.at? way = some file)
    (hne : way ≠ []) (houtside : skippedDirectory ∉ way.dropLast) : Way way := by
  have hup : ∀ name ∈ way, name ≠ ['.', '.'] := fun name hname => (h.names_of_at hfile name hname).2
  clear hfile
  induction way with
  | nil => exact absurd rfl hne
  | cons name rest ih =>
      obtain ⟨hfirst, hrest⟩ := List.forall_mem_cons.1 hup
      cases rest with
      | nil => exact .last hfirst
      | cons next rest =>
          rw [List.dropLast_cons_of_ne_nil (List.cons_ne_nil _ _), List.mem_cons, not_or] at houtside
          exact .step hfirst (Ne.symm houtside.1) (ih (List.cons_ne_nil _ _) houtside.2 hrest)

/-- All that a file adds to a walk is itself. -/
theorem eq_of_mem_branch {name : Text} {child : Node} (hfile : (!child.isDirectory) = true)
    (hq : q ∈ (branchOf path name child).files) : q = path.below [name] := by
  cases child with
  | file content mode =>
      rw [branchOf] at hq
      split at hq
      · cases hq
      · exact List.mem_singleton.1 hq
  | directory mode entries => cases hfile

/-- What a proper directory adds to a walk is further down. -/
theorem way_of_mem_branch {name : Text} {child : Node} (h : child.Proper) (hdirectory : child.isDirectory = true)
    (hq : q ∈ (branchOf path name child).files) : ∃ rest, rest ≠ [] ∧ q = path.below (name :: rest) := by
  cases child with
  | file content mode => cases hdirectory
  | directory mode entries =>
      by_cases hskip : name = skippedDirectory
      · simp [branchOf, hskip] at hq
      · rw [branch_of_directory hskip] at hq
        obtain ⟨way, hway, rfl, -⟩ := way_of_mem_files h hq
        exact ⟨way, hway.ne_nil, by simp [Path.below]⟩

/-- A walk through a proper tree lists files. -/
theorem listed_of_mem_files (h : node.Proper) (hq : q ∈ files path node) :
    ∃ way, q = path.below way ∧ Listed path node way := by
  obtain ⟨way, hway, rfl, hfile, hsidecar⟩ := way_of_mem_files h hq
  exact ⟨way, rfl, hfile, hway.ne_nil, hway.outside, hsidecar⟩

/-! ## The order of the files -/

/-- The entries of a directory are sorted by their names. -/
theorem pairwise_by_name {α : Type} {entries : List (Text × α)} (h : (entries.map Prod.fst).Nodup) :
    (byName entries).Pairwise fun a b => Text.Less a.1 b.1 := by
  have hsorted : (byName entries).Pairwise fun a b => Text.notAfter a.1 b.1 = true := by
    refine List.pairwise_mergeSort (fun a b c hab hbc => ?_) (fun a b => ?_) entries
    · rw [Text.not_after_eq_true] at hab hbc ⊢
      exact Text.not_less_trans hab hbc
    · rw [Bool.or_eq_true, Text.not_after_eq_true, Text.not_after_eq_true]
      exact Text.not_less_total a.1 b.1
  have hnames : (byName entries).Pairwise fun a b => a.1 ≠ b.1 :=
    List.pairwise_map.1 (((by_name_perm entries).map Prod.fst).nodup_iff.2 h)
  exact (hsorted.and hnames).imp fun ⟨hle, hne⟩ => Text.less_of_ne (Text.not_after_eq_true.1 hle) hne

/-- The branches of a directory are sorted as its entries are. -/
theorem by_name_branches (path : Path) (entries : List (Text × Node)) :
    byName (branchesOf path entries) =
      (byName entries).map fun entry => (entry.1, branchOf path entry.1 entry.2) := by
  rw [branches_of_eq_map, byName, byName, List.map_mergeSort]
  exact fun _ _ _ _ => rfl

theorem is_directory_branch (path : Path) (name : Text) (node : Node) :
    (branchOf path name node).isDirectory = node.isDirectory := by
  cases node <;> rfl

/-- A walk lists what the files of a directory add, and then what the directories in it add. -/
theorem files_eq_append (path : Path) (mode : Nat) (entries : List (Text × Node)) :
    files path (.directory mode entries) =
      (((byName entries).filter (!·.2.isDirectory)).flatMap fun entry =>
          (branchOf path entry.1 entry.2).files) ++
        ((byName entries).filter (·.2.isDirectory)).flatMap fun entry =>
          (branchOf path entry.1 entry.2).files := by
  rw [files, gather, by_name_branches]
  simp only [List.filter_map, List.flatMap_map, Function.comp_def, is_directory_branch]

/-- All that a walk lists in a directory with one file is that file. -/
theorem files_singleton {name : Text} (hsidecar : Sidecar.isPath (entryPath path name) = false)
    (mode : Nat) (content : Bytes) (bits : Nat) :
    files path (.directory mode [(name, .file content bits)]) = [entryPath path name] := by
  simp [files, branchesOf, branchOf, gather, byName, hsidecar]

/-- A path that comes before another one in a walk from an entry does so in a walk from its directory. -/
theorem Before.of_entry {name : Text} (h : Before (entryPath path name) p q) : Before path p q := by
  obtain ⟨way, way', rfl, rfl, h⟩ := h
  exact ⟨name :: way, name :: way', by simp [Path.below], by simp [Path.below], .inside h⟩

/-- A walk through a proper tree lists files in order. -/
theorem pairwise_files (h : node.Proper) (path : Path) : (files path node).Pairwise (Before path) := by
  induction h generalizing path with
  | file content mode => exact .nil
  | directory mode hnodup hproper hentries ih =>
      next entries =>
        have hsorted := pairwise_by_name hnodup
        have hmem : ∀ entry ∈ byName entries, entry ∈ entries := fun entry =>
          (by_name_perm entries).mem_iff.1
        rw [files_eq_append, List.pairwise_append, List.pairwise_flatMap, List.pairwise_flatMap]
        refine ⟨⟨fun entry hentry => ?_, ?_⟩, ⟨fun entry hentry => ?_, ?_⟩, fun p hp q hq => ?_⟩
        -- The files of the directory, each by itself and two of them.
        · obtain ⟨hentry, hfile⟩ := List.mem_filter.1 hentry
          obtain ⟨name, child⟩ := entry
          cases child with
          | file content bits =>
              rw [branchOf]
              split
              · exact .nil
              · exact List.pairwise_singleton _ _
          | directory bits below => cases hfile
        · refine (hsorted.sublist List.filter_sublist).imp_of_mem fun {a b} ha hb hlt p hp q hq => ?_
          obtain rfl := eq_of_mem_branch (List.mem_filter.1 ha).2 hp
          obtain rfl := eq_of_mem_branch (List.mem_filter.1 hb).2 hq
          exact ⟨_, _, rfl, rfl, .files hlt⟩
        -- The directories in it, each by itself and two of them.
        · obtain ⟨hentry, hdirectory⟩ := List.mem_filter.1 hentry
          obtain ⟨name, child⟩ := entry
          cases child with
          | file content bits => cases hdirectory
          | directory bits below =>
              by_cases hskip : name = skippedDirectory
              · simp [branchOf, hskip]
              · rw [branch_of_directory hskip]
                exact (ih _ (hmem _ hentry) (entryPath path name)).imp Before.of_entry
        · refine (hsorted.sublist List.filter_sublist).imp_of_mem fun {a b} ha hb hlt p hp q hq => ?_
          obtain ⟨ha, hdirectory⟩ := List.mem_filter.1 ha
          obtain ⟨hb, hdirectory'⟩ := List.mem_filter.1 hb
          obtain ⟨rest, hrest, rfl⟩ := way_of_mem_branch (hentries a (hmem a ha)) hdirectory hp
          obtain ⟨rest', hrest', rfl⟩ := way_of_mem_branch (hentries b (hmem b hb)) hdirectory' hq
          exact ⟨_, _, rfl, rfl, .directories hrest hrest' hlt⟩
        -- A file of the directory and what is further down.
        · obtain ⟨a, ha, hp⟩ := List.mem_flatMap.1 hp
          obtain ⟨b, hb, hq⟩ := List.mem_flatMap.1 hq
          obtain ⟨hb, hdirectory⟩ := List.mem_filter.1 hb
          obtain rfl := eq_of_mem_branch (List.mem_filter.1 ha).2 hp
          obtain ⟨rest, hrest, rfl⟩ := way_of_mem_branch (hentries b (hmem b hb)) hdirectory hq
          exact ⟨_, _, rfl, rfl, .deeper hrest⟩

/-- A walk through a proper tree lists each of the files that are meant once and in order. -/
theorem lists_files (h : node.Proper) (path : Path) : Lists path node (files path node) where
  distinct := (files_nodup h path).1
  mem_iff q := by
    refine ⟨listed_of_mem_files h, ?_⟩
    rintro ⟨way, rfl, ⟨content, mode, hfile⟩, hne, houtside, hsidecar⟩
    exact mem_files_of_way (way_of_at h hfile hne houtside) hfile hsidecar
  in_order := pairwise_files h path

end Walk

end TrackedSections
