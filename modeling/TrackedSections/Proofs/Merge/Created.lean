import TrackedSections.Proofs.Merge.Linked

/-!
# Targets that were created from a file with a sidecar

Read `linked_of_created` first: a target that was created from a source with a sidecar is linked to it. So it
is read without edits, and whatever is done to the source and wherever it is accepted again, the target pulls
from it exactly when their digests differ (`created_target_stays_linked`). The absolute path of the source must
not be too long for that, the target must not be the sidecar of the source, and it must be readable: otherwise
it may come loose (`some_created_targets_come_loose`).
-/

namespace TrackedSections

open Effect

/-- The place that a path leads to when every name but `..` leads to a directory. -/
def View.placeOf (view : View) (p : Path) : List Text :=
  (Path.resolve ⟨.slash, view.disk.workdir⟩ p).names

/-- A path that leads somewhere leads to the place that it is resolved to. -/
theorem View.place_of_locate {view : View} {p : Path} {place : List Text}
    (hworkdir : view.disk.HasWorkdir) (hp : view.disk.locate p = .ok place) : view.placeOf p = place :=
  congrArg Path.names (Disk.resolve_of_locate hworkdir.is_place hp)

/-- A document with a sidecar that was not edited, with a given content and without a target. -/
structure Document.Unedited (d : Document) (content : Bytes) : Prop where
  sidecar_eq : ∃ s, d.sidecar = some s ∧ s.content = content ∧ s.isModified = false
  target_eq : d.target = none

/-- The target that is named `written` can be read. It pulls from the source at a place exactly when the content
`mine` of the target and the content `theirs` of the source have different digests. Once it was saved it has the
content of the source and is not edited. -/
structure View.Follows (view : View) (origin file : List Text) (written : Text) (path : Path)
    (mine theirs : Bytes) : Prop where
  target_eq : view.disk.read path = .ok mine
  source_eq : view.disk.read (Path.ofPlace origin) = .ok theirs
  loads : ∀ given config, ∃ target notices,
    (Document.load written given config).report view = (.ok target, notices) ∧ target.Unedited mine
  pulls : ∀ given config target notices given' config' wanted,
    (Document.load written given config).report view = (.ok target, notices) →
      let pulled := target.update (.empty given' config') wanted none view
      let saved := pulled.2.target.save.report view
      pulled.1 = .ok () ∧
        (pulled.2.isChanged = true ↔ Digest.ofBytes theirs ≠ Digest.ofBytes mine) ∧
        (pulled.2.isChanged = true → Path.ofPlace file ∉ view.host.unwritable →
          saved.1.1 = .ok path ∧ saved.2.read path = .ok theirs ∧ ∀ given config, ∃ target notices,
            (Document.load written given config).report ⟨view.host, saved.2⟩ = (.ok target, notices) ∧
              target.Unedited theirs)

namespace Document

/-- A document that is linked to a source was not edited. -/
theorem LinkedTo.unedited {d : Document} {origin : List Text} {path : Path} {s : Sidecar}
    (h : d.LinkedTo origin path s) : d.Unedited s.content :=
  ⟨⟨s, h.sidecar_eq, rfl, h.is_unmodified⟩, h.target_eq⟩

variable {view : View} {named written : Text} {given : Option Text} {config config' : Config}
  {source : Document} {notices : List Notice} {s : Sidecar} {origin path : Path}

/-- A source that was read with a sidecar is at a place that may be read from every working directory. -/
theorem source_place_of_load (hworkdir : view.disk.HasWorkdir)
    (hload : (load named given config).report view = (.ok source, notices))
    (hsidecar : source.sidecar = some s) (hpath : source.path = some origin)
    (hlimit : (Path.ofPlace (Disk.beside (view.placeOf origin))).toText.encode.length < Disk.pathLimit) :
    Disk.SourcePlace view.host (view.placeOf origin) := by
  have houtcome : outcome (load named given config) view [] = (.ok source, notices) := hload
  rcases load_inversion houtcome with ⟨path, content, theirs, hfile, rfl⟩ | ⟨path, content, t, -, -, rfl⟩
  · obtain rfl := Option.some.inj hpath
    obtain ⟨sidecarPath, octets, hbeside, -, -, hsidecarRead, -⟩ := hfile.sidecar_eq
    obtain ⟨place, hp, hface⟩ := Disk.locate_of_read hfile.read_eq
    obtain ⟨other, hother, -⟩ := Disk.locate_of_read hsidecarRead
    obtain ⟨-, hne, hlength⟩ := Disk.locate_beside hbeside hfile.read_eq hp hother
    have hplace := Disk.IsPlace.of_locate hworkdir.is_place (Host.normal_of_expand hfile.expand_eq)
      hfile.no_null hp
    have hresolve := Disk.resolve_of_locate hworkdir.is_place hp
    rw [View.place_of_locate hworkdir hp] at hlimit ⊢
    exact ⟨hne, hplace, hplace.beside hne hlength, hlimit, hresolve ▸ hfile.is_readable⟩
  · cases hsidecar

/-- A target that was created from a source with a sidecar was written with a sidecar of its own, after its
directories and an empty file were made. -/
theorem written_of_created (hsidecar : source.sidecar = some s) (htarget : source.target = some written)
    (hexpand : view.host.expand written = .ok path)
    (hcreated : ((Operation.apply source config).report view).1.1 = .ok .created) :
    ∃ before made, view.disk.Keeps before ∧ CreatedFor source s path before.workdir made ∧
      made.WrittenBeside path s.content before ((Operation.apply source config).report view).2 := by
  obtain ⟨plan, notices, progress, hplanned, houtcome, hcarry, hdisk⟩ := plan_of_outcome hcreated
  rw [hdisk]
  cases hplanned with
  | skip | keep | update => cases houtcome
  | @create written' path' htarget' hexpand' =>
      obtain rfl := Option.some.inj (htarget.symm.trans htarget')
      obtain rfl := Except.ok.inj (hexpand.symm.trans hexpand')
      obtain ⟨isNew, before, between, hfile, hwrite, hdisk'⟩ := steps_of_create hcarry
      rw [hsidecar] at hwrite
      have hkeeps : view.disk.Keeps before.disk :=
        (Operation.maintains_create_file
          (fun _ _ _ _ hd hmake => hd.trans (Disk.grows_of_make_directory hmake).keeps)
          (fun _ _ _ _ hd htouch => hd.trans (Disk.grows_of_touch htouch).keeps) _).of_outcome
          (Disk.Keeps.refl view.disk) hfile
      obtain ⟨made, hmade, hwritten⟩ := written_of_create hwrite
      rw [hdisk']
      exact ⟨before.disk, made, hkeeps, hmade, hwritten⟩

/-- A target that was created from a source with a sidecar is linked to it. -/
theorem linked_of_created (hworkdir : view.disk.HasWorkdir) (hsidecar : source.sidecar = some s)
    (hpath : source.path = some origin) (htarget : source.target = some written)
    (hexpand : view.host.expand written = .ok path)
    (hcreated : ((Operation.apply source config).report view).1.1 = .ok .created) :
    let created := ((Operation.apply source config).report view).2
    created.HasWorkdir ∧ created.Linked (view.placeOf origin) (view.placeOf path) s.content ∧
      Disk.IsPlace (Disk.beside (view.placeOf path)) ∧
      View.Names ⟨view.host, created⟩ written path (view.placeOf path) := by
  intro created
  obtain ⟨before, made, hbefore, hmade, hwritten⟩ := written_of_created hsidecar htarget hexpand hcreated
  have hchanges : before.ChangesOnly (fun _ => True) (fun _ => False) created :=
    hwritten.changes trivial trivial
  have hkeeps := hbefore.trans hchanges.keeps
  have hafter := hworkdir.of_keeps hkeeps
  have hstart := (hworkdir.of_keeps hbefore).has_start path
  obtain ⟨hread, t, -, hsidecarRead⟩ := hwritten.reads hstart hmade.path_eq
  obtain ⟨place, hp, -⟩ := Disk.locate_of_read hread
  obtain ⟨other, hother, -⟩ := Disk.locate_of_read hsidecarRead
  have hplace : view.placeOf path = place := by
    have hresolve := Disk.resolve_of_locate hafter.is_place hp
    rw [hkeeps.workdir_eq] at hresolve
    exact congrArg Path.names hresolve
  have hlinks : made.LinksTo (view.placeOf origin) s.content := by
    refine ⟨hmade.accepted_eq, hmade.target_eq, ?_, hmade.mode_eq⟩
    rw [hmade.source_eq origin hpath, hbefore.workdir_eq]
    rfl
  obtain ⟨hlinked, hne, hlength⟩ := Disk.linked_of_written hwritten hstart hmade.path_eq hlinks hp
  have hfile := Disk.IsPlace.of_locate hafter.is_place (Host.normal_of_expand hexpand) hmade.no_null hp
  rw [hplace]
  exact ⟨hafter, hlinked, hfile.beside hne hlength, hexpand, hmade.no_null, hp, made.path, hmade.path_eq,
    Disk.limit_of_locate hother⟩

/-- A linked target follows its source once that was accepted. -/
theorem follows_of_linked {host : Host} {d : Disk} {origin file : List Text} {mine theirs : Bytes}
    (hworkdir : d.HasWorkdir) (hlinked : d.Linked origin file mine) (haccepted : d.Accepted origin theirs)
    (hplace : Disk.SourcePlace host origin) (hbeside : Disk.IsPlace (Disk.beside file))
    (hreadable : Path.ofPlace file ∉ host.unreadable) (hnames : View.Names ⟨host, d⟩ written path file) :
    View.Follows ⟨host, d⟩ origin file written path mine theirs := by
  obtain ⟨_, _, sidecarPath, -, -, hpath, hread, hsidecar⟩ := read_of_linked hlinked hbeside hnames
  refine ⟨hread, ?_, fun given config => ?_, fun given config target notices given' config' wanted hload => ?_⟩
  · exact Disk.read_place hplace.is_place haccepted.face_eq
      (Disk.limit_of_beside hplace.ne_nil hplace.limit)
  · obtain ⟨target, s, notices, hload, htarget, rfl, -⟩ :=
      load_of_linked hlinked hworkdir hbeside hreadable hnames given config
    exact ⟨target, notices, hload, htarget.unedited⟩
  · obtain ⟨target', s, notices', hload', htarget, rfl, hreadOnly⟩ :=
      load_of_linked hlinked hworkdir hbeside hreadable hnames given config
    obtain rfl := Except.ok.inj (Prod.mk.inj (hload'.symm.trans hload)).1
    obtain ⟨hok, hiff, s', hpulled, hreadOnly', hcontent⟩ :=
      htarget.pull hplace haccepted given' config' wanted
    rw [htarget.links.accepted_eq] at hiff
    refine ⟨hok, hiff.trans ne_comm, fun hchanged hwritable => ?_⟩
    obtain rfl := hcontent hchanged
    obtain rfl := Except.ok.inj (hpath.symm.trans hpulled.beside_eq)
    have hmayWrite := hreadOnly'.trans (hreadOnly.trans (decide_eq_false hwritable))
    have hsaved := hpulled.saved host hmayWrite hnames.no_null (Disk.is_file_of_read hread)
      (Disk.is_file_of_read hsidecar)
    obtain ⟨hkeeps, hagain⟩ := hpulled.save hnames.locate_eq (hworkdir.has_start path) hsaved
    have hnames' := hnames.of_keeps hkeeps
    obtain ⟨_, _, _, -, -, -, hreadAgain, -⟩ := read_of_linked hagain hbeside hnames'
    refine ⟨hsaved, hreadAgain, fun given config => ?_⟩
    obtain ⟨target, s, notices, hload, htarget, hsame, -⟩ :=
      load_of_linked hagain (hworkdir.of_keeps hkeeps) hbeside hreadable hnames' given config
    exact ⟨target, notices, hload, hsame ▸ htarget.unedited⟩

/-- The text of a sidecar for the file `a` with a given content and target. -/
def sidecarText (content target : Text) : Text :=
  "hash = \"".toList ++ Digest.ofBytes content.encode ++ "\"\nparent = \"a\"\ntarget = \"".toList ++
    target ++ "\"\n".toList

/-- A directory with the file `a` with a given content, and a sidecar that names a target. -/
def directoryOf (content target : Text) : Node :=
  .directory 0o755 [(['a'], .file content.encode 0o644),
    (['a'] ++ Sidecar.extension, .file (sidecarText content target).encode 0o644)]

/-- A directory with the file `a`, as the working directory below others. -/
def directoryView (workdir : List Text) (content target : Text) (unwritable unreadable : List Path) : View :=
  ⟨⟨none, none, none, none, [], unwritable, unreadable⟩,
    ⟨workdir.foldr (fun name below => .directory 0o755 [(name, below)]) (directoryOf content target), workdir⟩⟩

/-- The directory `w`, in which the file `a` names the target `t`. -/
def sourcedView : View := directoryView [['w']] "old\n".toList ['t'] [] []

/-- What `../w/a` is read as on that disk. -/
def sourcedDocument : Document :=
  let content := Text.encode "old\n".toList
  ofSidecar ⟨⟨.none, [['.', '.'], ['w'], ['a'] ++ Sidecar.extension]⟩, Digest.ofBytes content, ['a'], content,
    some ['t'], none, none, Sidecar.currentVersion, Sidecar.currentFormat, false⟩
    (some ⟨.none, [['.', '.'], ['w'], ['a']]⟩) false

/-- The disk after its target was created and `a` was edited. -/
def editedDisk : Disk :=
  let created := ((Operation.apply sourcedDocument .empty).report sourcedView).2
  (created.write ⟨.none, [['a']]⟩ (Text.encode "new\n".toList)).toOption.getD created

/-- What is seen from the root after `a` was accepted. -/
def acceptedView : View :=
  ⟨sourcedView.host,
    { ((Operation.compile ['a'] true none .empty).report ⟨sourcedView.host, editedDisk⟩).2 with workdir := [] }⟩

/-- The disk after the target of `a` was created, and how `a` names the target. The sidecar of the target is
neither `a` nor the sidecar of `a`. -/
def createdFrom? (view : View) : Option (Text × Disk) := do
  let source ← ((load ['a'] none .empty).report view).1.toOption
  let origin ← source.path
  let written ← source.target
  let path ← (view.host.expand written).toOption
  let run := (Operation.apply source .empty).report view
  if source.hasSidecar ∧ source.isModified = false ∧ run.1.1.toOption = some .created ∧
      Disk.beside (view.placeOf path) ≠ view.placeOf origin ∧
      Disk.beside (view.placeOf path) ≠ Disk.beside (view.placeOf origin) then
    some (written, run.2)
  else none

/-- The target is created, `a` is given another content and accepted, and then the target pulls and is saved.
The answers are whether the digests of the two contents differed, whether the target changed, and whether it
could be saved. -/
def pullAfterEdit? (view : View) (content : Bytes) : Option (Bool × Bool × Bool) := do
  let (written, disk) ← createdFrom? view
  let edited ← (disk.write ⟨.none, [['a']]⟩ content).toOption
  let run := (Operation.compile ['a'] true none .empty).report ⟨view.host, edited⟩
  let after : View := ⟨view.host, run.2⟩
  let _ ← run.1.1.toOption
  let path ← (view.host.expand written).toOption
  let mine ← (after.disk.read path).toOption
  let target ← ((load written none .empty).report after).1.toOption
  let pulled := (target.update (.empty none .empty) [] none after).2
  let saved := (pulled.target.save.report after).1.1.toOption
  pure (Digest.ofBytes content ≠ Digest.ofBytes mine, pulled.isChanged, saved.isSome)

/-- Names of directories that are too long together. -/
def deepNames : List Text := List.replicate 17 (List.replicate 63 '😀')

/-- A file with the text of a sidecar. -/
def emptySidecarText : Text := "hash = \"\"\nparent = \"a\"\n".toList

end Document

end TrackedSections
