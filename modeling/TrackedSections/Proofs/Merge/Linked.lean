import Mathlib.Logic.Relation
import TrackedSections.Proofs.Document.Accepting
import TrackedSections.Proofs.Merge.Footprint
import TrackedSections.Proofs.Merge.Pulling
import TrackedSections.Proofs.Merge.Sound

/-!
# Targets that are linked to their source

A target is linked to the source at a place when its sidecar accepts the content of the target and names the
source by the absolute path of that place. Read `Event.stays_linked` first: the link holds whatever happens to
the source and the target, and so after any number of events (`stays_linked_of_events`). Once the source was
accepted, a linked target pulls from it exactly when their digests differ, and has its content then
(`LinkedTo.pull`).
-/

namespace TrackedSections

open Effect

/-- What is written leads to the file at a place, and the path of the sidecar is not too long. -/
structure View.Names (view : View) (written : Text) (path : Path) (place : List Text) : Prop where
  expand_eq : view.host.expand written = .ok path
  no_null : path.hasNull = false
  locate_eq : view.disk.locate path = .ok place
  beside_eq : ∃ sidecarPath, Sidecar.pathFor path = .ok sidecarPath ∧
    sidecarPath.toText.encode.length < Disk.pathLimit

/-- A name of a file is one on every disk from which nothing is missing. -/
theorem View.Names.of_keeps {host : Host} {d d' : Disk} {written : Text} {path : Path} {place : List Text}
    (h : View.Names ⟨host, d⟩ written path place) (hkeeps : d.Keeps d') :
    View.Names ⟨host, d'⟩ written path place :=
  ⟨h.expand_eq, h.no_null, hkeeps.locate_eq h.locate_eq, h.beside_eq⟩

/-- A sidecar that accepts a content and names the source at a place by its absolute path. It names no target,
and its permissions stand for permission bits. -/
structure Sidecar.LinksTo (s : Sidecar) (origin : List Text) (content : Bytes) : Prop where
  accepted_eq : s.accepted = Digest.ofBytes content
  target_eq : s.target = none
  source_eq : s.source = some (Path.ofPlace origin).toText
  mode_eq : ∀ n ∈ s.permissions, ∃ mode, Permissions.mode n = .ok mode

/-- A document with a sidecar that was read from `path` and is linked to the source at a place. -/
structure Document.LinkedTo (d : Document) (origin : List Text) (path : Path) (s : Sidecar) : Prop where
  path_eq : d.path = some path
  sidecar_eq : d.sidecar = some s
  target_eq : d.target = none
  permissions_eq : d.permissions = s.permissions
  beside_eq : Sidecar.pathFor path = .ok s.path
  links : s.LinksTo origin s.content
  is_unmodified : s.isModified = false
  is_written : ∃ t, s.write = .ok t

namespace Disk

/-- The file at a place has a content, and the sidecar beside it links that content to the source at another
place. -/
structure Linked (d : Disk) (origin file : List Text) (content : Bytes) : Prop where
  face_eq : d.faceAt file = some (some content)
  beside_eq : ∃ (s : Sidecar) (t : Text), s.LinksTo origin content ∧ s.write = .ok t ∧
    d.faceAt (beside file) = some (some t.encode)

/-- A place of a source which is read by its absolute path from every working directory, with its sidecar. -/
structure SourcePlace (host : Host) (origin : List Text) : Prop where
  ne_nil : origin ≠ []
  is_place : IsPlace origin
  beside_place : IsPlace (beside origin)
  limit : (Path.ofPlace (beside origin)).toText.encode.length < pathLimit
  is_readable : Path.ofPlace origin ∉ host.unreadable

/-- The places of a source and of a target, neither of which is the sidecar of the other. They have different
sidecars. -/
structure Apart (origin file : List Text) : Prop where
  beside_ne_origin : beside file ≠ origin
  beside_ne_beside : beside file ≠ beside origin
  ne_beside : file ≠ beside origin

/-- A source and its target are at different places. -/
theorem Apart.ne {origin file : List Text} (h : Apart origin file) : file ≠ origin :=
  fun hsame => h.beside_ne_beside (congrArg beside hsame)

variable {host : Host} {d d' : Disk} {origin file : List Text} {path : Path} {content : Bytes} {s : Sidecar}

/-- Only the file and what stands beside it decide whether it is linked. -/
theorem Linked.of_faces (h : d.Linked origin file content) (hfile : d'.faceAt file = d.faceAt file)
    (hbeside : d'.faceAt (beside file) = d.faceAt (beside file)) : d'.Linked origin file content := by
  obtain ⟨s, t, hlinks, hwrite, hface⟩ := h.beside_eq
  exact ⟨hfile.trans h.face_eq, s, t, hlinks, hwrite, hbeside.trans hface⟩

/-- A file that was written with a sidecar that links it to a source is linked to it. -/
theorem linked_of_written (h : s.WrittenBeside path content d d') (hstart : d.HasStart path)
    (hpath : Sidecar.pathFor path = .ok s.path) (hlinks : s.LinksTo origin content)
    (hp : d'.locate path = .ok file) : d'.Linked origin file content ∧
      file ≠ [] ∧ ∀ name ∈ (beside file).getLast?, name.encode.length ≤ nameLimit := by
  obtain ⟨hread, t, hwrite, hsidecar⟩ := h.reads hstart hpath
  obtain ⟨place, hplace, hface⟩ := locate_of_read hread
  obtain rfl := Except.ok.inj (hplace.symm.trans hp)
  obtain ⟨other, hother, hotherFace⟩ := locate_of_read hsidecar
  obtain ⟨rfl, hne⟩ := locate_beside hpath hread hp hother
  exact ⟨⟨hface, s, t, hlinks, hwrite, hotherFace⟩, hne⟩

end Disk

namespace Document

variable {target source : Document} {origin file : List Text} {path : Path} {s : Sidecar} {host : Host}
  {d : Disk}

/-! ## Reading, changing and saving a linked target -/

/-- A linked file and its sidecar are read by every name of the file. -/
theorem read_of_linked {content : Bytes} (h : d.Linked origin file content)
    (hbeside : Disk.IsPlace (Disk.beside file)) {written : Text}
    (hnames : View.Names ⟨host, d⟩ written path file) : ∃ (s : Sidecar) (t : Text) (sidecarPath : Path),
      s.LinksTo origin content ∧ s.write = .ok t ∧ Sidecar.pathFor path = .ok sidecarPath ∧
        d.read path = .ok content ∧ d.read sidecarPath = .ok t.encode := by
  obtain ⟨s, t, hlinks, hwrite, hface⟩ := h.beside_eq
  obtain ⟨sidecarPath, hpath, hlimit⟩ := hnames.beside_eq
  have hread : d.read path = .ok content := Disk.read_of_face hnames.locate_eq h.face_eq
  obtain ⟨node, hnode, -⟩ := Option.map_eq_some_iff.1 hface
  have hlocate := Disk.locate_sidecar hpath hread hnames.locate_eq hbeside ⟨node, hnode⟩ hlimit
  exact ⟨s, t, sidecarPath, hlinks, hwrite, hpath, hread, Disk.read_of_face hlocate hface⟩

/-- A linked file is read as a document that is linked. -/
theorem load_of_linked {content : Bytes} (h : d.Linked origin file content) (hworkdir : d.HasWorkdir)
    (hbeside : Disk.IsPlace (Disk.beside file)) (hreadable : Path.ofPlace file ∉ host.unreadable)
    {written : Text} (hnames : View.Names ⟨host, d⟩ written path file) (given : Option Text)
    (config : Config) : ∃ target s notices,
      (load written given config).report ⟨host, d⟩ = (.ok target, notices) ∧
        target.LinkedTo origin path s ∧ s.content = content ∧
        target.isReadOnly = decide (Path.ofPlace file ∈ host.unwritable) := by
  obtain ⟨s, t, sidecarPath, hlinks, hwrite, hpath, hread, hsidecar⟩ := read_of_linked h hbeside hnames
  have hresolve := Disk.resolve_of_locate hworkdir.is_place hnames.locate_eq
  have hfile : SidecarFile ⟨host, d⟩ written path content
      (Sidecar.finalize { s with path := sidecarPath, content, isModified := false }) :=
    ⟨hnames.expand_eq, hnames.no_null, hresolve ▸ hreadable, hread, sidecarPath, t.encode, hpath,
      (Sidecar.has_null_of_path_for hpath).trans hnames.no_null, Disk.is_file_of_read hsidecar, hsidecar,
      Sidecar.read_write hwrite sidecarPath content⟩
  obtain ⟨notices, hload⟩ := outcome_load_sidecar hfile given config []
  have hcurrent : s.accepted = Digest.ofBytes content := hlinks.accepted_eq
  refine ⟨_, Sidecar.finalize { s with path := sidecarPath, content, isModified := false }, notices,
    hload, ?_, rfl, congrArg (fun p => decide (p ∈ host.unwritable)) hresolve⟩
  exact ⟨rfl, rfl, hlinks.target_eq, rfl, hpath,
    ⟨hcurrent, hlinks.target_eq, hlinks.source_eq, hlinks.mode_eq⟩, decide_eq_false (not_not.2 hcurrent),
    Sidecar.exists_write hwrite s.accepted content⟩

/-- A linked target that takes what it can from a source is linked. If it takes something, it is the content of
the source. -/
theorem LinkedTo.apply (h : target.LinkedTo origin path s) (hsource : source.Sound) :
    ∃ s', (target.apply source).target.LinkedTo origin path s' ∧
      (target.apply source).target.isReadOnly = target.isReadOnly ∧
      ((target.apply source).isChanged = true → ∀ theirs ∈ source.sidecar, s'.content = theirs.content) := by
  rcases apply_sidecar_cases h.sidecar_eq source with ⟨hunchanged, hsame⟩ |
    ⟨theirs, htheirs, -, hunmodified, -, -, htaken⟩
  · rw [hsame, hunchanged]
    exact ⟨s, h, rfl, fun hchanged => nomatch hchanged⟩
  · have haccepted : theirs.accepted = theirs.current := not_not.1 fun hne =>
      Bool.false_ne_true (hunmodified.symm.trans ((hsource.sidecar_sound theirs htheirs).2 hne))
    obtain ⟨t, hwrite⟩ := h.is_written
    rw [htaken]
    refine ⟨{ s with content := theirs.content, accepted := theirs.accepted }, ?_, rfl,
      fun _ other hother => ?_⟩
    · exact ⟨h.path_eq, rfl, h.target_eq, h.permissions_eq, h.beside_eq,
        ⟨haccepted, h.links.target_eq, h.links.source_eq, h.links.mode_eq⟩, h.is_unmodified,
        Sidecar.exists_write hwrite theirs.accepted theirs.content⟩
    · obtain rfl := Option.some.inj (htheirs.symm.trans hother)
      rfl

/-- A linked target that pulls is linked. -/
theorem LinkedTo.update (h : target.LinkedTo origin path s) (given : Option Text) (config : Config)
    (wanted : List (Option Text)) (view : View) :
    ∃ s', (target.update (.empty given config) wanted none view).2.target.LinkedTo origin path s' := by
  have hnone : ∀ e, (none : Option Document) = some e → e.Sound := fun _ he => nomatch he
  refine update_maintains (p := fun d => ∃ s, d.LinkedTo origin path s) sound_of_load ?_ ?_ ⟨s, h⟩
    (List.forall_mem_nil _) wanted hnone view
  · rintro d - candidate ⟨s, hd⟩ - -
    refine ⟨s, ?_⟩
    rw [applySection, if_pos (by rw [hasSidecar, hd.sidecar_eq]; rfl)]
    exact hd
  · rintro d source ⟨s, hd⟩ hsource
    obtain ⟨s', hlinked, -⟩ := hd.apply hsource
    exact ⟨s', hlinked⟩

/-- A linked target that was saved is linked on disk, and nothing is missing then. -/
theorem LinkedTo.save (h : target.LinkedTo origin path s) (hp : d.locate path = .ok file)
    (hstart : d.HasStart path) {saved : Path}
    (hsave : (target.save.report ⟨host, d⟩).1.1 = .ok saved) :
    d.Keeps (target.save.report ⟨host, d⟩).2 ∧
      (target.save.report ⟨host, d⟩).2.Linked origin file s.content := by
  obtain ⟨progress, hsaved, hdisk⟩ := Operation.ok_of_report hsave
  obtain ⟨-, hwritten⟩ := written_of_save h.sidecar_eq h.path_eq hsaved
  have hchanges : d.ChangesOnly (fun _ => True) (fun _ => False) progress.disk :=
    hwritten.changes trivial trivial
  rw [hdisk]
  exact ⟨hchanges.keeps,
    (Disk.linked_of_written hwritten hstart h.beside_eq h.links (hchanges.keeps.locate_eq hp)).1⟩

/-! ## Pulling -/

/-- A source that was accepted is read from the absolute path of its place with the digest of its content. -/
theorem load_of_accepted {content : Bytes} (hplace : Disk.SourcePlace host origin)
    (h : d.Accepted origin content) (given : Option Text) (config : Config) :
    ∃ source theirs notices,
      (load (Path.ofPlace origin).toText given config).report ⟨host, d⟩ = (.ok source, notices) ∧
        source.sidecar = some theirs ∧ theirs.accepted = Digest.ofBytes content ∧
        theirs.content = content ∧ theirs.isModified = false := by
  obtain ⟨octets, s, hface, haccepted, hs⟩ := h.beside_eq
  have hsidecar := Disk.read_place hplace.beside_place hface hplace.limit
  have hfile : SidecarFile ⟨host, d⟩ (Path.ofPlace origin).toText (Path.ofPlace origin) content
      { s with path := Path.ofPlace (Disk.beside origin) } := by
    refine ⟨Disk.expand_place hplace.is_place host, hplace.is_place.no_null, ?_,
      Disk.read_place hplace.is_place h.face_eq (Disk.limit_of_beside hplace.ne_nil hplace.limit),
      Path.ofPlace (Disk.beside origin), octets, Disk.path_for_place hplace.ne_nil,
      hplace.beside_place.no_null, Disk.is_file_of_read hsidecar, hsidecar, hs _⟩
    rw [Disk.resolve_place hplace.is_place]
    exact hplace.is_readable
  obtain ⟨notices, hload⟩ := outcome_load_sidecar hfile given config []
  obtain ⟨-, hcontent, hmodified⟩ := Sidecar.of_read (hs (Path.ofPlace (Disk.beside origin)))
  refine ⟨_, { s with path := Path.ofPlace (Disk.beside origin) }, notices, hload, rfl, haccepted,
    hcontent, ?_⟩
  rw [hmodified]
  exact decide_eq_false (not_not.2 (haccepted.trans (congrArg Digest.ofBytes hcontent).symm))

/-- A linked target pulls from a source that was accepted exactly when their digests differ, and has its content
then. -/
theorem LinkedTo.pull {content : Bytes} (h : target.LinkedTo origin path s)
    (hplace : Disk.SourcePlace host origin) (hsource : d.Accepted origin content) (given : Option Text)
    (config : Config) (wanted : List (Option Text)) :
    let pulled := target.update (.empty given config) wanted none ⟨host, d⟩
    pulled.1 = .ok () ∧ (pulled.2.isChanged = true ↔ s.accepted ≠ Digest.ofBytes content) ∧
      ∃ s', pulled.2.target.LinkedTo origin path s' ∧ pulled.2.target.isReadOnly = target.isReadOnly ∧
        (pulled.2.isChanged = true → s'.content = content) := by
  intro pulled
  obtain ⟨source, theirs, notices, hload, htheirs, haccepted, rfl, hunmodified⟩ :=
    load_of_accepted hplace hsource given config
  obtain ⟨hok, htarget, hchanged⟩ := pull_file h.sidecar_eq h.is_unmodified hplace.is_place
    h.links.source_eq hload wanted
  have hiff := apply_sidecar_iff h.sidecar_eq htheirs h.is_unmodified hunmodified
  obtain ⟨s', hlinked, hreadOnly, hcontent⟩ := h.apply (sound_of_load hload)
  rw [htarget, hchanged]
  exact ⟨hok, haccepted ▸ hiff, s', hlinked, hreadOnly, fun htakes => hcontent htakes theirs htheirs⟩

/-- A linked target that may be written is saved to where it was read. -/
theorem LinkedTo.saved (h : target.LinkedTo origin path s) (host : Host)
    (hreadOnly : target.isReadOnly = false) (hnull : path.hasNull = false)
    (hfile : d.isFile path = .ok true) (hbeside : d.isFile s.path = .ok true) :
    (target.save.report ⟨host, d⟩).1.1 = .ok path := by
  obtain ⟨t, hwrite⟩ := h.is_written
  refine saved_to_files h.sidecar_eq h.path_eq hreadOnly hwrite hnull ?_ hfile hbeside ?_
  · exact (Sidecar.has_null_of_path_for h.beside_eq).trans hnull
  · rw [h.permissions_eq]
    exact h.links.mode_eq

end Document

/-! ## What may happen to a source and its target -/

namespace Disk

/-- What may happen to a source and a target that are at two places, with the disk before and after it. -/
inductive Event (host : Host) (origin file : List Text) : Disk → Disk → Prop where
  /-- The source is given another content. -/
  | edit {d d' : Disk} {path : Path} {content : Bytes} (hp : d.locate path = .ok origin)
      (h : d.write path content = .ok d') : Event host origin file d d'
  /-- The content of the source is accepted in its sidecar. -/
  | accept {d : Disk} {written : Text} {path : Path} {given : Option Text} {config : Config} {changed : Bool}
      (hexpand : host.expand written = .ok path) (hp : d.locate path = .ok origin)
      (h : ((Operation.compile written true given config).report ⟨host, d⟩).1.1 = .ok changed) :
      Event host origin file d ((Operation.compile written true given config).report ⟨host, d⟩).2
  /-- The target pulls and is saved. -/
  | pull {d : Disk} {written : Text} {path : Path} {given given' : Option Text} {config config' : Config}
      {wanted : List (Option Text)} {target : Document} {notices : List Notice} {saved : Path}
      (hnames : View.Names ⟨host, d⟩ written path file)
      (hload : (Document.load written given config).report ⟨host, d⟩ = (.ok target, notices))
      (h : ((target.update (.empty given' config') wanted none ⟨host, d⟩).2.target.save.report
        ⟨host, d⟩).1.1 = .ok saved) :
      Event host origin file d
        ((target.update (.empty given' config') wanted none ⟨host, d⟩).2.target.save.report ⟨host, d⟩).2
  /-- Paths are seen from another working directory. -/
  | move {d : Disk} {workdir : List Text} (h : HasWorkdir { d with workdir }) :
      Event host origin file d { d with workdir }

variable {host : Host} {d d' : Disk} {origin file : List Text}

/-- There is a working directory, and the file at a place is linked to the source at another one. -/
structure StaysLinked (d : Disk) (origin file : List Text) : Prop where
  has_workdir : d.HasWorkdir
  linked : ∃ content, d.Linked origin file content

/-- Whatever happens to a source and its target, the target is linked to the source. -/
theorem Event.stays_linked (h : Event host origin file d d') (hapart : Apart origin file)
    (hbeside : IsPlace (beside file)) (hreadable : Path.ofPlace file ∉ host.unreadable)
    (hlinked : d.StaysLinked origin file) : d'.StaysLinked origin file := by
  obtain ⟨hworkdir, content, hlinked⟩ := hlinked
  cases h with
  | @edit _ path content' hp h =>
      have hchanges : d.ChangesOnly (· = path) (fun _ => False) d' := changes_of_write rfl h
      have hface : ∀ place, place ≠ origin → d'.faceAt place = d.faceAt place := by
        refine fun place hne => hchanges.face_eq fun p hpath hplace => hne ?_
        subst hpath
        exact Except.ok.inj (hplace.symm.trans (hchanges.keeps.locate_eq hp))
      exact ⟨hworkdir.of_keeps hchanges.keeps, content,
        hlinked.of_faces (hface _ hapart.ne) (hface _ hapart.beside_ne_origin)⟩
  | accept hexpand hp h =>
      obtain ⟨progress, hcompile, hdisk⟩ := Operation.ok_of_report h
      obtain ⟨_, -, -, -, hkeeps, hface⟩ := Operation.accepted_of_compile hcompile hexpand hp
      rw [hdisk]
      exact ⟨hworkdir.of_keeps hkeeps, content,
        hlinked.of_faces (hface _ hapart.ne_beside) (hface _ hapart.beside_ne_beside)⟩
  | pull hnames hload h =>
      obtain ⟨target, s, notices, hload', htarget, -⟩ :=
        Document.load_of_linked hlinked hworkdir hbeside hreadable hnames _ _
      obtain rfl := Except.ok.inj (Prod.mk.inj (hload'.symm.trans hload)).1
      obtain ⟨s', hpulled⟩ := htarget.update _ _ _ ⟨host, d⟩
      obtain ⟨hkeeps, hsaved⟩ := hpulled.save hnames.locate_eq (hworkdir.has_start _) h
      exact ⟨hworkdir.of_keeps hkeeps, s'.content, hsaved⟩
  | move h => exact ⟨h, content, hlinked.of_faces rfl rfl⟩

/-- A target is linked to its source after any number of events. -/
theorem stays_linked_of_events (h : Relation.ReflTransGen (Event host origin file) d d')
    (hapart : Apart origin file) (hbeside : IsPlace (beside file))
    (hreadable : Path.ofPlace file ∉ host.unreadable) (hlinked : d.StaysLinked origin file) :
    d'.StaysLinked origin file := by
  induction h with
  | refl => exact hlinked
  | tail _ hevent ih => exact hevent.stays_linked hapart hbeside hreadable ih

end Disk

end TrackedSections
