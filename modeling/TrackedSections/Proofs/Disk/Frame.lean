import TrackedSections.Proofs.Disk.Proper

/-!
# What a change of the disk leaves alone

`d.ChangesOnly written made d'` says that nothing differs between two disks but what stands at some paths
that may be written, and that some directories are new. Contents and permission bits both count. Each
operation of the disk changes at most what stands at its own path (`changes_of_write`, `changes_of_touch`,
`changes_of_make_directory`, `changes_of_change_mode`), and so a series of them changes what stands at
their paths (`ChangesOnly.trans`).
-/

namespace TrackedSections

namespace Node

/-- A node without what is below it: the content of a file, and the permission bits. -/
def entry : Node → Option Bytes × Nat
  | .file content mode => (some content, mode)
  | .directory mode _ => (none, mode)

/-- What is put somewhere changes that place only, if nothing differs below it. -/
theorem entry_put {tree new : Node} {place names : List Text}
    (hbelow : ∀ more, more ≠ [] → (new.at? more).map entry = (tree.at? (place ++ more)).map entry)
    (hne : names ≠ place) :
    ((put new tree place).at? names).map entry = (tree.at? names).map entry := by
  -- The induction is on the way to the place, and `names` may leave it at any step.
  induction place generalizing tree names with
  | nil =>
      have hput : put new tree [] = new := by cases tree <;> rfl
      rw [hput]
      exact hbelow names hne
  | cons first rest ih =>
      cases tree with
      | file content mode => rfl
      | directory mode entries =>
          cases hchild : entries.lookup first with
          | some child =>
              rw [put_of_lookup hchild]
              cases names with
              | nil => rfl
              | cons other names =>
                  by_cases hother : other = first
                  · subst hother
                    rw [at_set_entry, at_of_lookup hchild]
                    refine ih (fun more hmore => ?_) (fun heq => hne (by rw [heq]))
                    rw [hbelow more hmore, List.cons_append, at_of_lookup hchild]
                  · rw [at_set_entry_of_ne hother]
          | none =>
              cases rest with
              | cons second rest => simp only [put, hchild]
              | nil =>
                  rw [put_new_entry hchild]
                  cases names with
                  | nil => rfl
                  | cons other names =>
                      by_cases hother : other = first
                      · subst hother
                        rw [at_set_entry]
                        exact hbelow names fun hnil => hne (by rw [hnil])
                      · rw [at_set_entry_of_ne hother]

theorem at_file (content : Bytes) (mode : Nat) {more : List Text} (h : more ≠ []) :
    (file content mode).at? more = none := by
  obtain ⟨name, rest, rfl⟩ := List.exists_cons_of_ne_nil h
  rfl

theorem at_empty_directory (mode : Nat) {more : List Text} (h : more ≠ []) :
    (directory mode []).at? more = none := by
  obtain ⟨name, rest, rfl⟩ := List.exists_cons_of_ne_nil h
  rfl

theorem at_with_mode (node : Node) (mode : Nat) {more : List Text} (h : more ≠ []) :
    (node.withMode mode).at? more = node.at? more := by
  obtain ⟨name, rest, rfl⟩ := List.exists_cons_of_ne_nil h
  cases node <;> rfl

end Node

namespace Disk

/-- What stands at a place, without what is below it. -/
def entryAt (d : Disk) (names : List Text) : Option (Option Bytes × Nat) :=
  (d.tree.at? names).map Node.entry

/-- Two disks that differ at most in what stands at the paths that are `written`, and in new directories
at the paths that are `made`. -/
structure ChangesOnly (written made : Path → Prop) (d d' : Disk) : Prop where
  keeps : d.Keeps d'
  entry_cases : ∀ place, d'.entryAt place = d.entryAt place ∨
    (∃ p, written p ∧ d'.locate p = .ok place) ∨
    ((∃ p, made p ∧ d'.locate p = .ok place) ∧ d.tree.at? place = none ∧
      d'.entryAt place = some (none, newDirectoryMode))

namespace ChangesOnly

variable {written made written' made' : Path → Prop} {d d' d'' : Disk}

theorem refl (written made : Path → Prop) (d : Disk) : ChangesOnly written made d d :=
  ⟨.refl d, fun _ => .inl rfl⟩

theorem mono (h : ChangesOnly written made d d') (hwritten : ∀ p, written p → written' p)
    (hmade : ∀ p, made p → made' p) : ChangesOnly written' made' d d' := by
  refine ⟨h.keeps, fun place => ?_⟩
  rcases h.entry_cases place with hsame | ⟨p, hp, hplace⟩ | ⟨⟨p, hp, hplace⟩, hnew⟩
  · exact .inl hsame
  · exact .inr (.inl ⟨p, hwritten p hp, hplace⟩)
  · exact .inr (.inr ⟨⟨p, hmade p hp, hplace⟩, hnew⟩)

/-- One series of changes after another changes what either of them does. -/
theorem trans (h : ChangesOnly written made d d') (h' : ChangesOnly written made d' d'') :
    ChangesOnly written made d d'' := by
  refine ⟨h.keeps.trans h'.keeps, fun place => ?_⟩
  rcases h'.entry_cases place with hsame' | hwritten | ⟨hmade, hfree, hentry⟩
  · rcases h.entry_cases place with hsame | ⟨p, hp, hplace⟩ | ⟨⟨p, hp, hplace⟩, hfree, hentry⟩
    · exact .inl (hsame'.trans hsame)
    · exact .inr (.inl ⟨p, hp, h'.keeps.locate_eq hplace⟩)
    · exact .inr (.inr ⟨⟨p, hp, h'.keeps.locate_eq hplace⟩, hfree, hsame'.trans hentry⟩)
  · exact .inr (.inl hwritten)
  · rcases h.entry_cases place with hsame | ⟨p, hp, hplace⟩ | ⟨-, -, hbefore⟩
    · have hbefore : d.tree.at? place = none := by
        rw [entryAt, entryAt, hfree] at hsame
        exact Option.map_eq_none_iff.1 hsame.symm
      exact .inr (.inr ⟨hmade, hbefore, hentry⟩)
    · exact .inr (.inl ⟨p, hp, h'.keeps.locate_eq hplace⟩)
    · -- What is new the second time cannot have been made before.
      rw [entryAt, hfree] at hbefore
      cases hbefore

/-- What stands at a place that no written path leads to is what stood there, if no directories are new. -/
theorem face_eq (h : ChangesOnly written (fun _ => False) d d') {place : List Text}
    (hne : ∀ p, written p → d'.locate p ≠ .ok place) : d'.faceAt place = d.faceAt place := by
  have hface (e : Disk) : e.faceAt place = (e.entryAt place).map Prod.fst := by
    rw [faceAt, entryAt, Option.map_map]
    refine congrArg (Option.map · _) (funext fun node => ?_)
    cases node <;> rfl
  rcases h.entry_cases place with hsame | ⟨p, hp, hplace⟩ | ⟨⟨-, hmade, -⟩, -⟩
  · rw [hface, hface, hsame]
  · exact absurd hplace (hne p hp)
  · exact hmade.elim

end ChangesOnly

variable {written made : Path → Prop} {d d' : Disk} {p : Path} {place : List Text} {new : Node}

/-- What is put at the place of a path changes what stands at that path. -/
theorem changes_of_put (hp : written p) (hkeeps : d.Keeps (d.put place new))
    (hlocate : (d.put place new).locate p = .ok place)
    (hbelow : ∀ more, more ≠ [] → new.at? more = d.tree.at? (place ++ more)) :
    d.ChangesOnly written made (d.put place new) := by
  refine ⟨hkeeps, fun other => ?_⟩
  by_cases hother : other = place
  · exact .inr (.inl ⟨p, hp, hother ▸ hlocate⟩)
  · exact .inl (Node.entry_put (fun more hmore => by rw [hbelow more hmore]) hother)

theorem at_below_free (h : d.tree.at? place = none) (more : List Text) :
    d.tree.at? (place ++ more) = none := by
  rw [Node.at_append, h]
  rfl

theorem changes_of_slot_free (hp : written p) (h : d.slot p = .ok (.free place))
    (hleaf : ∀ more, more ≠ [] → new.at? more = none) :
    d.ChangesOnly written made (d.put place new) := by
  obtain ⟨hfree, hsame | ⟨_, _, _, _, _, hlocate⟩⟩ := slot_free_cases h
  · rw [hsame]
    exact .refl written made d
  · refine changes_of_put hp (grows_of_slot_free h new).keeps (hlocate new) fun more hmore => ?_
    rw [hleaf more hmore, at_below_free hfree]

/-- Writing changes what stands at the path that is written to. -/
theorem changes_of_write {content : Bytes} (hp : written p) (h : d.write p content = .ok d') :
    d.ChangesOnly written made d' := by
  rcases of_write h with ⟨place, old, mode, hslot, rfl⟩ | ⟨_, hslot, rfl⟩
  · obtain ⟨hlocate, hnode⟩ := of_slot_taken hslot
    have hkeeps : d.Keeps (d.put place (.file content mode)) := by
      rcases write_cases_file h with hgrows | ⟨_, _, -, hplace, hover⟩
      · exact hgrows.keeps
      · exact hover.keeps hplace
    refine changes_of_put hp hkeeps (hkeeps.locate_eq hlocate) fun more hmore => ?_
    rw [Node.at_append, hnode, Option.bind_some, Node.at_file _ _ hmore, Node.at_file _ _ hmore]
  · exact changes_of_slot_free hp hslot fun _ hmore => Node.at_file _ _ hmore

/-- Touching changes what stands at the path that is touched. -/
theorem changes_of_touch (hp : written p) (h : d.touch p = .ok d') :
    d.ChangesOnly written made d' := by
  rcases of_touch h with ⟨_, _, -, rfl⟩ | ⟨_, hslot, rfl⟩
  · exact .refl written made _
  · exact changes_of_slot_free hp hslot fun _ hmore => Node.at_file _ _ hmore

/-- Setting permission bits changes what stands at the path that has them. -/
theorem changes_of_change_mode {mode : Nat} (hp : written p) (h : d.changeMode p mode = .ok d') :
    d.ChangesOnly written made d' := by
  have hkeeps := (grows_of_change_mode h).keeps
  obtain ⟨place, node, hslot, rfl⟩ := of_change_mode h
  obtain ⟨hlocate, hnode⟩ := of_slot_taken hslot
  refine changes_of_put hp hkeeps (hkeeps.locate_eq hlocate) fun more hmore => ?_
  rw [Node.at_append, hnode, Option.bind_some, Node.at_with_mode _ _ hmore]

/-- Making a directory adds it, and nothing else changes. -/
theorem changes_of_make_directory (hp : made p) (h : d.makeDirectory p = .ok d') :
    d.ChangesOnly written made d' := by
  obtain ⟨place, hslot, rfl⟩ := of_make_directory h
  obtain ⟨hfree, hsame | ⟨directory, mode, entries, rfl, hdirectory, hlocate⟩⟩ := slot_free_cases hslot
  · rw [hsame]
    exact .refl written made d
  · refine ⟨(grows_of_slot_free hslot _).keeps, fun other => ?_⟩
    by_cases hother : other = directory ++ [p.name]
    · subst hother
      refine .inr (.inr ⟨⟨p, hp, hlocate _⟩, hfree, ?_⟩)
      rw [entryAt, put, Node.at_put_new hdirectory hfree]
      rfl
    · refine .inl (Node.entry_put (fun more hmore => ?_) hother)
      rw [Node.at_empty_directory _ hmore, at_below_free hfree]

end Disk

end TrackedSections
