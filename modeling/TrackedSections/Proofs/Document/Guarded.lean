import TrackedSections.Document.Compile
import TrackedSections.Proofs.Disk.Standing
import TrackedSections.Proofs.Document.Planning
import TrackedSections.Proofs.Document.Stepwise
import TrackedSections.Proofs.Merge.LocalEdits
import TrackedSections.Proofs.Sidecar

/-!
# Documents that spare a file

A document that was read from a file which may not be written remembers it, and whatever is done to the
document does not change that (`SameFile`). So it is not saved to that file, and it is not saved to it by
its sidecar either. Read `plan_writes_aside` first: all that carrying out a plan can write to such a file
is what is created at a path where the disk found no file.
-/

namespace TrackedSections

open Effect Operation

/-- The file at a place may not be opened for writing, and it is no sidecar. -/
structure View.Protects (view : View) (place : List Text) : Prop where
  workdir_is_place : Disk.IsPlace view.disk.workdir
  is_place : Disk.IsPlace place
  is_file : ∃ content mode, view.disk.tree.at? place = some (.file content mode)
  is_unwritable : Path.ofPlace place ∈ view.host.unwritable
  no_sidecar : Sidecar.isPath (.ofPlace place) = false

variable {workdir place : List Text}

/-- A file stays as it is when nothing is written to paths that lead to it. -/
theorem Disk.kept_at_aside (hworkdir : Disk.IsPlace workdir) {content : Bytes} {mode : Nat} :
    Disk.KeptAt (Disk.Stands workdir place content mode) fun q => ¬ q.LeadsTo workdir place where
  write haside hnull hd h := hd.write hworkdir hnull haside h
  changeMode haside hnull hd h := hd.change_mode hworkdir hnull haside h
  touch _ hd h := hd.touch h
  makeDirectory _ hd h := hd.make_directory h

namespace Document

/-! ## The file of a document -/

/-- Two documents of one file: it may be written for both or for neither, and its sidecar is at one
path. -/
structure SameFile (d e : Document) : Prop where
  path_eq : e.path = d.path
  read_only_eq : e.isReadOnly = d.isReadOnly
  sidecar_eq : e.sidecar.map (·.path) = d.sidecar.map (·.path)

variable {d e target source : Document}

theorem SameFile.refl (d : Document) : d.SameFile d := ⟨rfl, rfl, rfl⟩

theorem SameFile.trans {f : Document} (h : d.SameFile e) (h' : e.SameFile f) : d.SameFile f :=
  ⟨h'.path_eq.trans h.path_eq, h'.read_only_eq.trans h.read_only_eq, h'.sidecar_eq.trans h.sidecar_eq⟩

/-- Other sections make no other file. -/
theorem SameFile.of_sections {sections : List Section} (h : e = { d with sections }) : d.SameFile e := by
  subst h
  exact ⟨rfl, rfl, rfl⟩

theorem accept_same_file (d : Document) : d.SameFile d.accept := by
  unfold accept
  split
  · next s hs => exact ⟨rfl, rfl, by rw [hs]; rfl⟩
  · exact ⟨rfl, rfl, rfl⟩

theorem delete_same_file {name : Text} (h : d.delete? name = some e) : d.SameFile e := by
  obtain ⟨sections, -, rfl⟩ := Option.map_eq_some_iff.1 h
  exact ⟨rfl, rfl, rfl⟩

theorem apply_section_same_file (target : Document) (candidate : Tracked) :
    target.SameFile (target.applySection candidate).target := by
  obtain ⟨sections, h⟩ := apply_section_frame target candidate
  exact .of_sections h

theorem apply_sidecar_same_file {mine : Sidecar} (hmine : target.sidecar = some mine)
    (source : Document) (theirs : Sidecar) :
    target.SameFile (target.applySidecar source mine theirs).target := by
  unfold applySidecar
  split
  · exact .refl target
  · split
    · exact .refl target
    · split
      · exact .refl target
      · exact ⟨rfl, rfl, by rw [hmine]; rfl⟩

theorem apply_sections_same_file (target source : Document) :
    target.SameFile (target.applySections source).target := by
  unfold applySections
  split
  · exact ⟨rfl, rfl, rfl⟩
  · obtain ⟨sections, h⟩ := apply_each_frame target source.tracked
    exact .of_sections h

theorem apply_same_file (target source : Document) :
    target.SameFile (target.apply source).target := by
  unfold apply
  split
  · exact .refl target
  · split
    · next hmine _ => exact apply_sidecar_same_file hmine source _
    · exact apply_sections_same_file target source

/-- Whatever a target pulls, it is the document of the same file afterwards. -/
theorem update_same_file (target : Document) (cache : SourceCache) (wanted : List (Option Text))
    (source : Option Document) (view : View) :
    target.SameFile (target.update cache wanted source view).2.target := by
  -- Pulling changes the target only by applying documents and sections to it.
  refine update_maintains (q := fun _ => True) (fun _ => trivial) ?_ ?_ (.refl target)
    (fun _ _ => trivial) wanted (fun _ _ => trivial) view
  · exact fun d e c h _ _ => h.trans (apply_section_same_file d c)
  · exact fun d e h _ => h.trans (apply_same_file d e)

/-! ## Sparing a file -/

/-- A document spares the file at a place: if its own path leads there, it must not be written, and the
path of its sidecar leads elsewhere. -/
structure Spares (workdir place : List Text) (d : Document) : Prop where
  guarded : ∀ path, d.path = some path → path.LeadsTo workdir place → d.isReadOnly = true
  aside : ∀ s, d.sidecar = some s → ¬ s.path.LeadsTo workdir place

theorem Spares.of_same_file (h : d.Spares workdir place) (hsame : d.SameFile e) :
    e.Spares workdir place := by
  refine ⟨fun path hpath hleads => ?_, fun s hs => ?_⟩
  · rw [hsame.read_only_eq]
    exact h.guarded path (hsame.path_eq ▸ hpath) hleads
  · have hpath := hsame.sidecar_eq
    rw [hs, Option.map_some] at hpath
    obtain ⟨s', hs', hsame'⟩ := Option.map_eq_some_iff.1 hpath.symm
    exact hsame' ▸ h.aside s' hs'

/-- Such a document is written to other files only. -/
theorem Spares.writes_aside (h : d.Spares workdir place) {q : Path} (hq : d.Writes q) :
    ¬ q.LeadsTo workdir place := by
  cases hq with
  | file hpath hreadOnly =>
      intro hleads
      exact Bool.false_ne_true (hreadOnly.symm.trans (h.guarded q hpath hleads))
  | sidecar hsidecar => exact h.aside _ hsidecar

/-- A document that must not be written is not saved. -/
theorem outcome_save_read_only {path : Path} (hpath : d.path = some path) (hreadOnly : d.isReadOnly = true)
    (host : Host) (progress : Progress) :
    outcome d.save host progress = (.error (.readOnly path), progress) := by
  rw [save, hpath]
  dsimp only
  rw [if_pos hreadOnly]
  rfl

/-- What is read spares every file that may not be opened for writing and is no sidecar. -/
theorem spares_of_load {view : View} (hunwritable : Path.ofPlace place ∈ view.host.unwritable)
    (hplace : Sidecar.isPath (.ofPlace place) = false) {written : Text} {given : Option Text}
    {config : Config} {notices notices' : List Notice}
    (h : outcome (load written given config) view notices = (.ok d, notices')) :
    d.Spares view.disk.workdir place := by
  have hguarded (path : Path) (hleads : path.LeadsTo view.disk.workdir place) :
      decide (Path.resolve ⟨.slash, view.disk.workdir⟩ path ∈ view.host.unwritable) = true := by
    rw [hleads.resolve_eq]
    exact decide_eq_true hunwritable
  rcases load_inversion h with ⟨path, content, s, hfile, rfl⟩ | ⟨path, content, t, -, -, rfl⟩
  · refine ⟨fun path' hpath hleads => ?_, fun s' hs' => ?_⟩
    · obtain rfl := Option.some.inj hpath
      exact hguarded path hleads
    · obtain rfl := Option.some.inj hs'
      obtain ⟨sidecarPath, _, hpath, -, -, -, hread⟩ := hfile.sidecar_eq
      obtain ⟨rfl, -⟩ := Sidecar.of_read hread
      exact Sidecar.not_leads_to hpath hplace
  · refine ⟨fun path' hpath hleads => ?_, fun s hs => ?_⟩
    · obtain rfl := Option.some.inj hpath
      exact hguarded path hleads
    · rw [sidecar_of_file] at hs
      cases hs

/-- A plan for the target of a document writes to such a file only when it creates it. -/
theorem plan_writes_aside {view : View} (hunwritable : Path.ofPlace place ∈ view.host.unwritable)
    (hplace : Sidecar.isPath (.ofPlace place) = false) {config : Config} {plan : Plan}
    (hplan : Planned source config view plan)
    (hcreate : ∀ path, plan = .create path → ¬ path.LeadsTo view.disk.workdir place) {q : Path}
    (hq : plan.Writes source q) : ¬ q.LeadsTo view.disk.workdir place := by
  cases hq with
  | target => exact hcreate q rfl
  | sidecar _ hpath => exact Sidecar.not_leads_to hpath hplace
  | update hwrites =>
      cases hplan with
      | update _ _ _ _ hload _ =>
          exact ((spares_of_load hunwritable hplace hload).of_same_file
            (apply_same_file _ source)).writes_aside hwrites

end Document

/-! ## Accepting a file in its sidecar -/

namespace Operation

variable {p : Disk → Prop} {written : Path → Prop} (hkept : Disk.KeptAt p written)
  (hwritten : ∀ file path, Sidecar.pathFor file = .ok path → written path)

/-- The sidecar that is found or made for a file is at the path that is meant for it. -/
theorem path_of_for_file {path : Path} {s : Sidecar} {host : Host} {progress progress' : Progress}
    (h : outcome (Sidecar.forFile path) host progress = (.ok s, progress')) :
    Sidecar.pathFor path = .ok s.path := by
  obtain ⟨content, _, -, h⟩ := ok_of_bind h
  obtain ⟨sidecarPath, _, hlook, h⟩ := ok_of_bind h
  obtain ⟨hpath, -⟩ := of_look_of_except hlook
  obtain ⟨found, between, -, h⟩ := ok_of_bind h
  cases found with
  | true =>
      rw [if_pos rfl] at h
      obtain ⟨hanswer, -⟩ := of_outcome_look h
      have hload : outcome (Sidecar.load sidecarPath content) ⟨host, between.disk⟩ [] = (.ok s, _) :=
        Prod.ext hanswer rfl
      obtain ⟨_, -, hread⟩ := Document.read_of_outcome_load hload
      obtain ⟨hsame, -⟩ := Sidecar.of_read hread
      rw [hsame]
      exact hpath
  | false =>
      rw [if_neg Bool.false_ne_true] at h
      obtain ⟨_, _, -, h⟩ := ok_of_bind h
      obtain ⟨_, _, -, h⟩ := ok_of_bind h
      obtain rfl := Except.ok.inj (Prod.mk.inj h).1
      exact hpath

include hkept hwritten

/-- Finding or making the sidecar of a file writes to the path of a sidecar only. -/
theorem maintains_for_file (path : Path) : MaintainsDisk p (Sidecar.forFile path) := by
  refine maintains_bind (maintains_explain (maintains_look _)) fun content => ?_
  refine maintains_look_of_except_bind fun sidecarPath hpath => ?_
  refine maintains_bind (maintains_look _) fun found => ?_
  split
  · exact maintains_look _
  · have hsave : MaintainsDisk p (Sidecar.new sidecarPath path.name content).accept.save :=
      Sidecar.maintains_save hkept (hwritten path sidecarPath hpath)
    exact maintains_bind hsave fun _ => maintains_bind (maintains_tell _) fun _ => maintains_pure _

/-- Accepting a file in its sidecar writes to the path of a sidecar only. -/
theorem maintains_compile_sidecar (name : Text) : MaintainsDisk p (compileSidecar name) := by
  refine maintains_bind (maintains_look _) fun path => ?_
  refine maintains_bind (maintains_look _) fun sidecarPath => ?_
  refine maintains_bind (maintains_look _) fun existed => ?_
  intro host progress hp
  have hfile := maintains_for_file hkept hwritten path
  refine disk_of_bind (hfile host progress hp) fun s progress' h hp' => ?_
  have hsave : MaintainsDisk p s.accept.save :=
    Sidecar.maintains_save hkept (hwritten path s.path (path_of_for_file h))
  refine (?_ : MaintainsDisk p _) host progress' hp'
  split
  · exact maintains_pure _
  · split
    · exact maintains_bind hsave fun _ => maintains_pure _
    · exact maintains_pure _

end Operation

end TrackedSections
