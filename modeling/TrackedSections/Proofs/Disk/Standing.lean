import TrackedSections.Proofs.Disk.Absolute

/-!
# A file that stays as it is

`Stands workdir place content mode d` says that a file stands at a place of the disk `d`. Making
directories and touching never change it, wherever they do. Read `Stands.of_changes` first: writing and
setting permission bits change it only at a path that leads to the place. Such a path where the disk
finds no file goes through `..` (`up_mem_names`).
-/

namespace TrackedSections

/-- A path that a disk may hold leads from the directory with names `workdir` to a place, as its names
tell. -/
structure Path.LeadsTo (workdir : List Text) (path : Path) (place : List Text) : Prop where
  no_null : path.hasNull = false
  resolve_eq : Path.resolve ⟨.slash, workdir⟩ path = .ofPlace place

namespace Path

/-- Names without `..` lead straight down. -/
theorem step_names_of_not_mem {names : List Text} (h : ['.', '.'] ∉ names) (start : List Text) :
    stepNames start names = start ++ names := by
  induction names generalizing start with
  | nil => exact (List.append_nil start).symm
  | cons name rest ih =>
      obtain ⟨hname, hrest⟩ := not_or.1 (mt List.mem_cons.2 h)
      rw [stepNames, if_neg (Ne.symm hname), ih hrest, List.append_assoc, List.singleton_append]

end Path

namespace Disk

/-- A disk seen from the directory with names `workdir`, on which a file stands at a place. -/
structure Stands (workdir place : List Text) (content : Bytes) (mode : Nat) (d : Disk) : Prop where
  workdir_eq : d.workdir = workdir
  file_eq : d.tree.at? place = some (.file content mode)

variable {workdir place : List Text} {content : Bytes} {mode : Nat} {d d' : Disk} {path : Path}

/-- A file is known by its content and its permission bits. -/
theorem entry_at_eq_some_iff :
    d.entryAt place = some (some content, mode) ↔ d.tree.at? place = some (.file content mode) := by
  rw [entryAt, Option.map_eq_some_iff]
  constructor
  · rintro ⟨node, hnode, hentry⟩
    cases node with
    | file content' mode' =>
        obtain ⟨hcontent, rfl⟩ := Prod.mk.inj hentry
        obtain rfl := Option.some.inj hcontent
        exact hnode
    | directory mode' entries => cases hentry
  · exact fun hnode => ⟨_, hnode, rfl⟩

/-! ## Making directories and touching -/

/-- What is put in a free place spares the file. -/
theorem Stands.put_free (h : Stands workdir place content mode d) {free : List Text}
    (hslot : d.slot path = .ok (.free free)) {new : Node}
    (hleaf : ∀ more, more ≠ [] → new.at? more = none) :
    Stands workdir place content mode (d.put free new) := by
  obtain ⟨hfree, -⟩ := slot_free_cases hslot
  have hne : place ≠ free := by
    rintro rfl
    cases hfree.symm.trans h.file_eq
  refine ⟨h.workdir_eq, entry_at_eq_some_iff.1 ?_⟩
  rw [← entry_at_eq_some_iff.2 h.file_eq]
  refine Node.entry_put (fun more hmore => ?_) hne
  rw [hleaf more hmore, at_below_free hfree]

theorem Stands.touch (h : Stands workdir place content mode d) (htouch : d.touch path = .ok d') :
    Stands workdir place content mode d' := by
  rcases of_touch htouch with ⟨_, _, -, rfl⟩ | ⟨_, hslot, rfl⟩
  · exact h
  · exact h.put_free hslot fun _ hmore => Node.at_file _ _ hmore

theorem Stands.make_directory (h : Stands workdir place content mode d)
    (hmake : d.makeDirectory path = .ok d') : Stands workdir place content mode d' := by
  obtain ⟨_, hslot, rfl⟩ := of_make_directory hmake
  exact h.put_free hslot fun _ hmore => Node.at_empty_directory _ hmore

/-! ## Writing and setting permission bits -/

/-- Changes at a path that does not lead to the file spare it. -/
theorem Stands.of_changes (h : Stands workdir place content mode d) (hworkdir : IsPlace workdir)
    (hchanges : d.ChangesOnly (· = path) (fun _ => False) d') (hnull : path.hasNull = false)
    (haside : ¬ path.LeadsTo workdir place) : Stands workdir place content mode d' := by
  have hsame : d'.workdir = workdir := hchanges.keeps.workdir_eq.trans h.workdir_eq
  refine ⟨hsame, entry_at_eq_some_iff.1 ?_⟩
  rcases hchanges.entry_cases place with hentry | ⟨p, rfl, hplace⟩ | ⟨⟨_, hmade, -⟩, -⟩
  · exact hentry.trans (entry_at_eq_some_iff.2 h.file_eq)
  · have hresolve := resolve_of_locate (hsame ▸ hworkdir) hplace
    rw [hsame] at hresolve
    exact absurd ⟨hnull, hresolve⟩ haside
  · exact hmade.elim

theorem Stands.write (h : Stands workdir place content mode d) (hworkdir : IsPlace workdir)
    (hnull : path.hasNull = false) (haside : ¬ path.LeadsTo workdir place) {new : Bytes}
    (hwrite : d.write path new = .ok d') : Stands workdir place content mode d' :=
  h.of_changes hworkdir (changes_of_write rfl hwrite) hnull haside

theorem Stands.change_mode (h : Stands workdir place content mode d) (hworkdir : IsPlace workdir)
    (hnull : path.hasNull = false) (haside : ¬ path.LeadsTo workdir place) {new : Nat}
    (hchange : d.changeMode path new = .ok d') : Stands workdir place content mode d' :=
  h.of_changes hworkdir (changes_of_change_mode rfl hchange) hnull haside

/-! ## Paths to the file -/

/-- A path without `..` leads to the place where its names tell it to lead, if something stands
there. -/
theorem follow_of_leads_to (hworkdir : IsPlace workdir) (hplace : IsPlace place)
    (h : Stands workdir place content mode d) (hleads : path.LeadsTo workdir place)
    (hup : ['.', '.'] ∉ path.names) : follow d.tree (d.start path) path.names = .ok place := by
  have hstart : IsPlace (d.start path) ∧ d.start path ++ path.names = place := by
    have hresolve := hleads.resolve_eq
    unfold start
    unfold Path.resolve Path.absolute at hresolve
    cases habsolute : path.isAbsolute with
    | true =>
        rw [habsolute, if_pos rfl, Path.step_names_of_not_mem hup] at hresolve
        exact ⟨fun _ hname => (List.not_mem_nil hname).elim, congrArg Path.names hresolve⟩
    | false =>
        have hnames : (Path.join ⟨.slash, workdir⟩ path).names = workdir ++ path.names := by
          rw [Path.join, habsolute]
          rfl
        rw [habsolute, if_neg Bool.false_ne_true, hnames, Path.step_names_append,
          hworkdir.step_names, List.nil_append, Path.step_names_of_not_mem hup] at hresolve
        rw [if_neg Bool.false_ne_true, h.workdir_eq]
        exact ⟨hworkdir, congrArg Path.names hresolve⟩
  obtain ⟨hstart, hsum⟩ := hstart
  -- The way from the root to the place passes where the path starts.
  have hfollow := follow_place hplace ⟨_, h.file_eq⟩
  rw [← hsum, follow_append] at hfollow
  cases hfirst : follow d.tree [] (d.start path) with
  | error refusal =>
      rw [hfirst] at hfollow
      cases hfollow
  | ok first =>
      have hsame : d.start path = first := by
        rw [← step_names_of_follow hfirst, hstart.step_names, List.nil_append]
      rw [hfirst, ← hsame, hsum] at hfollow
      exact hfollow

/-- Where the disk finds no file, a path that leads to one by its names goes through `..`. -/
theorem up_mem_names (hworkdir : IsPlace workdir) (hplace : IsPlace place)
    (h : Stands workdir place content mode d) (hleads : path.LeadsTo workdir place)
    (hmissing : d.isFile path = .ok false) : ['.', '.'] ∈ path.names := by
  by_contra hup
  have hlimit : ¬ pathLimit ≤ path.toText.encode.length := by
    intro hlimit
    rw [isFile, node, locate, if_pos hlimit] at hmissing
    cases hmissing
  have hlocate : d.locate path = .ok place := by
    rw [locate, if_neg hlimit]
    exact follow_of_leads_to hworkdir hplace h hleads hup
  have hface : d.faceAt place = some (some content) := by rw [faceAt, h.file_eq]; rfl
  cases hmissing.symm.trans (is_file_of_read (read_of_face hlocate hface))

end Disk

/-! ## Sidecars -/

namespace Sidecar

/-- A place is that of a sidecar if its last name is. -/
theorem is_path_of_place (above : List Text) (name : Text) :
    isPath (.ofPlace (above ++ [name ++ extension])) = true := by
  have htext : (Path.ofPlace (above ++ [name ++ extension])).toText =
      '/' :: (Text.joinWith ['/'] (above ++ [name]) ++ extension) :=
    congrArg ('/' :: ·) (Text.join_with_concat ['/'] name extension above)
  rw [isPath, htext, Text.endsWith, List.isSuffixOf_iff_suffix, ← List.cons_append]
  exact List.suffix_append _ _

/-- The path of a sidecar leads to no file but a sidecar. -/
theorem not_leads_to {file path : Path} {workdir place : List Text} (h : pathFor file = .ok path)
    (hplace : isPath (.ofPlace place) = false) : ¬ path.LeadsTo workdir place := by
  rintro ⟨-, hresolve⟩
  unfold pathFor at h
  split at h
  · cases h
  · obtain rfl := Except.ok.inj h
    obtain ⟨above, habove⟩ : ∃ above, (Path.absolute ⟨.slash, workdir⟩
        ⟨file.anchor, file.names.dropLast ++ [file.name ++ extension]⟩).names =
          above ++ [file.name ++ extension] := by
      unfold Path.absolute Path.join
      split
      · exact ⟨_, rfl⟩
      · exact ⟨workdir ++ file.names.dropLast, by simp⟩
    have hup : file.name ++ extension ≠ ['.', '.'] := by
      intro hsame
      have hlength := congrArg List.length hsame
      rw [List.length_append, Disk.length_extension] at hlength
      simp at hlength
    rw [Path.resolve, habove, Path.step_names_append, Path.stepNames, if_neg hup, Path.stepNames]
      at hresolve
    rw [← hresolve] at hplace
    exact Bool.false_ne_true (hplace.symm.trans (is_path_of_place _ file.name))

end Sidecar

end TrackedSections
