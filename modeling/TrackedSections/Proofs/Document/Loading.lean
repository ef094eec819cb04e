import TrackedSections.Document.Load
import TrackedSections.Proofs.Effect

/-!
# What is read from disk

`CommentFile` says what must be so on a disk for a path to be read as a file with comments, and
`SidecarFile` for it to be read with a sidecar. Read `outcome_load` and `outcome_load_sidecar` first:
such a file is read as the document of its text or of its sidecar. Conversely, whatever is read comes
from such a file (`load_inversion`).
-/

namespace TrackedSections

open Effect

namespace Inspection

variable {α : Type} (view : View) (notices : List Notice)

theorem outcome_tell (notice : Notice) :
    outcome (tell notice) view notices = (.ok (), notices ++ [notice]) :=
  rfl

theorem outcome_of_except (x : Except Failure α) :
    outcome (ofExcept x) view notices = (x, notices) := by
  cases x <;> rfl

theorem outcome_expand (t : Text) :
    outcome (expand t) view notices = (view.host.expand t, notices) := by
  rw [expand, outcome_bind, outcome_read]
  exact outcome_of_except view notices _

/-- A question to the disk has the answer of the disk or fails with its refusal. -/
theorem outcome_ask (question : Disk → Path → Except Refusal α) (p : Path) :
    outcome (ask question p) view notices =
      ((question view.disk p).mapError (.refused · p), notices) := by
  rw [ask, outcome_bind, outcome_read]
  dsimp only
  cases question view.disk p <;> rfl

/-- Whether there is a file is the answer of the disk, unless no disk holds such a path. -/
theorem outcome_is_file (p : Path) :
    outcome (isFile p) view notices =
      (if p.hasNull then .ok false else (view.disk.isFile p).mapError (.refused · p), notices) := by
  rw [isFile]
  split
  · rfl
  · exact outcome_ask view notices Disk.isFile p

/-- An answer about a file is that of the disk, and there is no file at a path that no disk holds. -/
theorem of_outcome_is_file {view : View} {notices notices' : List Notice} {p : Path} {answer : Bool}
    (h : outcome (isFile p) view notices = (.ok answer, notices')) :
    (p.hasNull = true ∧ answer = false) ∨
      (p.hasNull = false ∧ view.disk.isFile p = .ok answer) := by
  rw [outcome_is_file] at h
  cases hnull : p.hasNull with
  | true =>
      rw [hnull, if_pos rfl] at h
      exact .inl ⟨rfl, (Except.ok.inj (Prod.mk.inj h).1).symm⟩
  | false =>
      rw [hnull, if_neg Bool.false_ne_true] at h
      cases hanswer : view.disk.isFile p with
      | error refusal => simp [hanswer] at h
      | ok answer' =>
          rw [hanswer] at h
          exact .inr ⟨rfl, congrArg Except.ok (Except.ok.inj (Prod.mk.inj h).1)⟩

/-- A file is read unless no disk holds such a path. -/
theorem outcome_read_file (p : Path) :
    outcome (readFile p) view notices =
      (if p.hasNull then .error .nullInPath else (view.disk.read p).mapError (.refused · p),
        notices) := by
  rw [readFile]
  split
  · rfl
  · exact outcome_ask view notices Disk.read p

/-- The outcome of an attempt is a value. -/
theorem outcome_attempt (x : Inspection α) :
    outcome (attempt x) view notices = (.ok (outcome x view notices).1, (outcome x view notices).2) := by
  rw [attempt, outcome_try_catch, outcome_map]
  rcases outcome x view notices with ⟨_ | a, notices'⟩ <;> rfl

/-- The file that is known by a path. -/
theorem outcome_identity (p : Path) :
    outcome (identity p) view notices =
      (.ok (Path.resolve ⟨.slash, view.disk.workdir⟩ p), notices) :=
  rfl

/-- A file that may be opened gives its content. -/
theorem outcome_open_file {p : Path} {content : Bytes} (hnull : p.hasNull = false)
    (hreadable : Path.resolve ⟨.slash, view.disk.workdir⟩ p ∉ view.host.unreadable)
    (hread : view.disk.read p = .ok content) :
    outcome (openFile p) view notices =
      (.ok (content,
        decide (Path.resolve ⟨.slash, view.disk.workdir⟩ p ∈ view.host.unwritable)), notices) := by
  simp only [openFile, hnull, Bool.false_eq_true, if_false, outcome_bind, outcome_pure, outcome_read,
    outcome_identity, hreadable, outcome_attempt, outcome_read_file, hread, map_error_ok]

/-- A file that gives its content may be opened. -/
theorem of_outcome_open_file {p : Path} {content : Bytes} {isReadOnly : Bool}
    {notices' : List Notice}
    (h : outcome (openFile p) view notices = (.ok (content, isReadOnly), notices')) :
    p.hasNull = false ∧ Path.resolve ⟨.slash, view.disk.workdir⟩ p ∉ view.host.unreadable ∧
      view.disk.read p = .ok content ∧
      isReadOnly =
        decide (Path.resolve ⟨.slash, view.disk.workdir⟩ p ∈ view.host.unwritable) := by
  have hnull : p.hasNull = false := by
    cases hnull : p.hasNull with
    | false => rfl
    | true => simp [openFile, hnull, outcome_bind] at h
  have hreadable : Path.resolve ⟨.slash, view.disk.workdir⟩ p ∉ view.host.unreadable := by
    intro hmem
    simp [openFile, hnull, outcome_bind, outcome_identity, hmem] at h
  refine ⟨hnull, hreadable, ?_⟩
  cases hread : view.disk.read p with
  | error refusal =>
      simp [openFile, hnull, outcome_bind, outcome_identity, hreadable, outcome_attempt,
        outcome_read_file, hread] at h
      split at h <;> cases h
  | ok content' =>
      rw [outcome_open_file view notices hnull hreadable hread] at h
      simp at h
      obtain ⟨⟨rfl, rfl⟩, -⟩ := h
      exact ⟨rfl, rfl⟩

end Inspection

namespace Document

/-- What must be so on a disk for a written path to be read as a file with comments. -/
structure CommentFile (view : View) (written : Text) (path : Path) (content : Bytes) : Prop where
  expand_eq : view.host.expand written = .ok path
  no_null : path.hasNull = false
  is_readable : Path.resolve ⟨.slash, view.disk.workdir⟩ path ∉ view.host.unreadable
  read_eq : view.disk.read path = .ok content
  no_sidecar : ∃ sidecarPath, Sidecar.pathFor path = .ok sidecarPath ∧
    (sidecarPath.hasNull = true ∨ view.disk.isFile sidecarPath = .ok false)

/-- The document that a file with comments is read as. -/
def ofFile (commentPrefix : Text) (view : View) (path : Path) (t : Text) : Document :=
  { (ofText commentPrefix (some path) t).1 with
    isReadOnly := Path.resolve ⟨.slash, view.disk.workdir⟩ path ∈ view.host.unwritable }

/-! Whether a document may be written shows in none of its sections and not in its text. -/

theorem tracked_with_read_only (d : Document) (isReadOnly : Bool) :
    ({ d with isReadOnly } : Document).tracked = d.tracked :=
  rfl

theorem write_with_read_only (d : Document) (isReadOnly : Bool) :
    ({ d with isReadOnly } : Document).write = d.write :=
  rfl

/-! What a file is read as has the parts that its text gives it. Later proofs cite these and do not open
`ofFile`, since comparing two documents that were read unfolds the whole reading. -/

section

variable (commentPrefix : Text) (view : View) (path : Path) (t : Text)

theorem comment_prefix_of_file : (ofFile commentPrefix view path t).commentPrefix = commentPrefix :=
  rfl

theorem sidecar_of_file : (ofFile commentPrefix view path t).sidecar = none :=
  rfl

theorem final_newline_of_file : (ofFile commentPrefix view path t).finalNewline = t.lines.2 :=
  rfl

theorem sections_of_file (path' : Option Path) :
    (ofFile commentPrefix view path t).sections = (ofText commentPrefix path' t).1.sections :=
  rfl

theorem target_of_file :
    (ofFile commentPrefix view path t).target = (ofText commentPrefix (some path) t).1.target :=
  rfl

theorem permissions_argument_of_file :
    (ofFile commentPrefix view path t).permissionsArgument =
      (ofText commentPrefix (some path) t).1.permissionsArgument :=
  rfl

end

variable {view : View} {written commentPrefix : Text} {config : Config}

/-- Whether there is a sidecar next to a file with comments. -/
theorem CommentFile.outcome_is_file {path : Path} {content : Bytes}
    (h : CommentFile view written path content) : ∃ sidecarPath,
      Sidecar.pathFor path = .ok sidecarPath ∧ ∀ notices,
        outcome (Inspection.isFile sidecarPath) view notices = (.ok false, notices) := by
  obtain ⟨sidecarPath, hpath, hfile⟩ := h.no_sidecar
  refine ⟨sidecarPath, hpath, ?_⟩
  intro notices
  rw [Inspection.outcome_is_file]
  rcases hfile with hnull | hfile
  · rw [if_pos hnull]
  · rw [hfile]
    cases sidecarPath.hasNull <;> rfl

/-- A file that may be opened is read from its content, and a file that may only be read differs in one
more notice. -/
theorem outcome_load_opened {path : Path} {content : Bytes}
    (hexpand : view.host.expand written = .ok path) (hnull : path.hasNull = false)
    (hreadable : Path.resolve ⟨.slash, view.disk.workdir⟩ path ∉ view.host.unreadable)
    (hread : view.disk.read path = .ok content) (given : Option Text) (config : Config)
    (notices : List Notice) : ∃ notices',
      outcome (load written given config) view notices =
        outcome (ofOpened path content
          (Path.resolve ⟨.slash, view.disk.workdir⟩ path ∈ view.host.unwritable) given config) view
          notices' := by
  have hexpand : outcome (Inspection.expand written) view notices = (.ok path, notices) := by
    rw [Inspection.outcome_expand, hexpand]
  have hopen := Inspection.outcome_open_file view notices hnull hreadable hread
  rw [load, bind_of_ok hexpand, bind_of_ok hopen]
  dsimp only
  split
  · rw [bind_of_ok (Inspection.outcome_tell _ _ _)]
    exact ⟨_, rfl⟩
  · exact ⟨_, rfl⟩

/-- The comment prefix that a text is read with: the given one, or else the detected one. -/
def readingPrefix (given : Option Text) (config : Config) (path : Path) (t : Text) : Text :=
  given.getD (CommentPrefix.detect config path t.firstLine)

/-- The document of octets that are text is that of the text, and its notices are given. -/
theorem outcome_of_octets (path : Path) {content : Bytes} {t : Text}
    (hdecode : Text.decode content = .ok t) (isReadOnly : Bool) (given : Option Text) (config : Config)
    (view : View) (notices : List Notice) :
    let found := ofText (readingPrefix given config path t) (some path) t
    outcome (ofOctets path content isReadOnly given config) view notices =
      (.ok { found.1 with isReadOnly }, notices ++ found.2) := by
  simp only [ofOctets, hdecode, readingPrefix]
  -- Nothing is read below.
  generalize ofText _ (some path) t = found
  rfl

/-- A file with comments is read as the document of its text, with the comment prefix that is given or
detected. -/
theorem outcome_load_detecting {path : Path} {content : Bytes} {t : Text}
    (h : CommentFile view written path content) (hdecode : Text.decode content = .ok t)
    (given : Option Text) (config : Config) (notices : List Notice) : ∃ notices',
      outcome (load written given config) view notices =
        (.ok (ofFile (readingPrefix given config path t) view path t), notices') := by
  obtain ⟨sidecarPath, hpath, hfile⟩ := h.outcome_is_file
  obtain ⟨notices₁, hload⟩ := outcome_load_opened h.expand_eq h.no_null h.is_readable h.read_eq
    given config notices
  have hsidecar : outcome (Inspection.ofExcept (Sidecar.pathFor path)) view notices₁ =
      (.ok sidecarPath, notices₁) := by rw [Inspection.outcome_of_except, hpath]
  rw [hload, ofOpened, bind_of_ok hsidecar, bind_of_ok (hfile notices₁), if_neg Bool.false_ne_true]
  exact ⟨_, outcome_of_octets path hdecode _ given config view notices₁⟩

/-- A file with comments is read as the document of its text with the comment prefix that is given. -/
theorem outcome_load {path : Path} {content : Bytes} {t : Text}
    (h : CommentFile view written path content) (hdecode : Text.decode content = .ok t)
    (commentPrefix : Text) (config : Config) (notices : List Notice) : ∃ notices',
      outcome (load written (some commentPrefix) config) view notices =
        (.ok (ofFile commentPrefix view path t), notices') :=
  outcome_load_detecting h hdecode (some commentPrefix) config notices

/-- A disk with some files in the working directory and nothing else. -/
def filesOnly (files : List (Text × Text)) : View :=
  ⟨⟨none, none, none, none, [], [], []⟩,
    ⟨.directory 0o755 (files.map fun (name, t) => (name, .file t.encode 0o644)), []⟩⟩

/-- A file without other files is one with comments. -/
theorem comment_file_of_files_only (t : Text) :
    CommentFile (filesOnly [(['f'], t)]) ['f'] ⟨.none, [['f']]⟩ t.encode :=
  ⟨rfl, rfl, List.not_mem_nil, rfl, ⟨.none, [['f'] ++ Sidecar.extension]⟩, rfl, .inr rfl⟩

/-- What must be so on a disk for a path to be read as a file with the sidecar `s`. -/
structure SidecarFile (view : View) (written : Text) (path : Path) (content : Bytes)
    (s : Sidecar) : Prop where
  expand_eq : view.host.expand written = .ok path
  no_null : path.hasNull = false
  is_readable : Path.resolve ⟨.slash, view.disk.workdir⟩ path ∉ view.host.unreadable
  read_eq : view.disk.read path = .ok content
  sidecar_eq : ∃ sidecarPath octets, Sidecar.pathFor path = .ok sidecarPath ∧
    sidecarPath.hasNull = false ∧ view.disk.isFile sidecarPath = .ok true ∧
    view.disk.read sidecarPath = .ok octets ∧ Sidecar.read sidecarPath content octets = .ok s

/-- The document that a file with a sidecar is read as. -/
def ofSidecarFile (view : View) (path : Path) (s : Sidecar) : Document :=
  ofSidecar s (some path)
    (decide (Path.resolve ⟨.slash, view.disk.workdir⟩ path ∈ view.host.unwritable))

/-- A sidecar that the disk gives is read. -/
theorem outcome_load_of_read {sidecarPath : Path} {content octets : Bytes}
    (hnull : sidecarPath.hasNull = false) (hread : view.disk.read sidecarPath = .ok octets)
    (notices : List Notice) : outcome (Sidecar.load sidecarPath content) view notices =
      (Sidecar.read sidecarPath content octets, notices) := by
  rw [Sidecar.load, bind_of_ok (Inspection.outcome_attempt view notices _),
    Inspection.outcome_read_file, hnull, hread]
  exact Inspection.outcome_of_except view notices _

/-- A file with a sidecar is read as the document of the sidecar. -/
theorem outcome_load_sidecar {path : Path} {content : Bytes} {s : Sidecar}
    (h : SidecarFile view written path content s) (given : Option Text) (config : Config)
    (notices : List Notice) : ∃ notices',
      outcome (load written given config) view notices =
        (.ok (ofSidecarFile view path s), notices') := by
  obtain ⟨sidecarPath, octets, hpath, hsidecarNull, hfile, hsidecarRead, hsidecar⟩ := h.sidecar_eq
  obtain ⟨notices₁, hload⟩ := outcome_load_opened h.expand_eq h.no_null h.is_readable h.read_eq
    given config notices
  have hplace : outcome (Inspection.ofExcept (Sidecar.pathFor path)) view notices₁ =
      (.ok sidecarPath, notices₁) := by rw [Inspection.outcome_of_except, hpath]
  have hfound : outcome (Inspection.isFile sidecarPath) view notices₁ = (.ok true, notices₁) := by
    rw [Inspection.outcome_is_file, hsidecarNull, if_neg Bool.false_ne_true, hfile]
    rfl
  have hread : outcome (Sidecar.load sidecarPath content) view notices₁ = (.ok s, notices₁) := by
    rw [outcome_load_of_read hsidecarNull hsidecarRead, hsidecar]
  refine ⟨notices₁, ?_⟩
  rw [hload, ofOpened, bind_of_ok hplace, bind_of_ok hfound, if_pos rfl, bind_of_ok hread]
  rfl

/-- A sidecar that was loaded is read from what the disk gives. -/
theorem read_of_outcome_load {sidecarPath : Path} {content : Bytes} {s : Sidecar}
    {notices notices' : List Notice}
    (h : outcome (Sidecar.load sidecarPath content) view notices = (.ok s, notices')) :
    ∃ octets, view.disk.read sidecarPath = .ok octets ∧
      Sidecar.read sidecarPath content octets = .ok s := by
  rw [Sidecar.load, bind_of_ok (Inspection.outcome_attempt view notices _),
    Inspection.outcome_read_file] at h
  cases hnull : sidecarPath.hasNull with
  | true =>
      rw [hnull, if_pos rfl] at h
      dsimp only at h
      split at h <;> cases h
  | false =>
      rw [hnull, if_neg Bool.false_ne_true] at h
      cases hread : view.disk.read sidecarPath with
      | error refusal =>
          rw [hread] at h
          dsimp only [map_error_error] at h
          split at h <;> cases h
      | ok octets =>
          rw [hread] at h
          refine ⟨octets, rfl, ?_⟩
          have hsame := (Inspection.outcome_of_except view notices _).symm.trans h
          exact (Prod.mk.inj hsame).1

/-- What is read comes from a file with a sidecar, or from a file with comments with the comment prefix
that was given or detected. -/
theorem load_inversion {given : Option Text} {notices notices' : List Notice} {d : Document}
    (h : outcome (load written given config) view notices = (.ok d, notices')) :
    (∃ path content s, SidecarFile view written path content s ∧
      d = ofSidecarFile view path s) ∨
    ∃ path content t, CommentFile view written path content ∧ Text.decode content = .ok t ∧
      d = ofFile (readingPrefix given config path t) view path t := by
  obtain ⟨path, _, hexpand, h⟩ := ok_of_bind h
  obtain ⟨⟨content, isReadOnly⟩, _, hopen, h⟩ := ok_of_bind h
  obtain ⟨hnull, hreadable, hread, rfl⟩ := Inspection.of_outcome_open_file _ _ hopen
  rw [Inspection.outcome_expand] at hexpand
  have hexpand := (Prod.mk.inj hexpand).1
  -- A file that may only be read differs in one more notice.
  obtain ⟨notices₁, h⟩ : ∃ notices₁, outcome (ofOpened path content
      (Path.resolve ⟨.slash, view.disk.workdir⟩ path ∈ view.host.unwritable)
      given config) view notices₁ = (.ok d, notices') := by
    dsimp only at h
    split at h
    · exact ⟨_, (ok_of_bind h).choose_spec.choose_spec.2⟩
    · exact ⟨_, h⟩
  obtain ⟨sidecarPath, _, hpath, h⟩ := ok_of_bind h
  obtain ⟨found, _, hfound, h⟩ := ok_of_bind h
  rw [Inspection.outcome_of_except] at hpath
  have hpath := (Prod.mk.inj hpath).1
  have hanswer := Inspection.of_outcome_is_file hfound
  cases found with
  | true =>
      obtain ⟨hsidecarNull, hfile⟩ := hanswer.resolve_left (by simp)
      obtain ⟨s, _, hload, h⟩ := ok_of_bind h
      obtain ⟨octets, hsidecarRead, hsidecar⟩ := read_of_outcome_load hload
      exact .inl ⟨path, content, s, ⟨hexpand, hnull, hreadable, hread, sidecarPath, octets, hpath,
        hsidecarNull, hfile, hsidecarRead, hsidecar⟩, (Except.ok.inj (Prod.mk.inj h).1).symm⟩
  | false =>
      rw [if_neg Bool.false_ne_true] at h
      -- The sidecar was looked for and is not there.
      have hfile : sidecarPath.hasNull = true ∨ view.disk.isFile sidecarPath = .ok false :=
        hanswer.imp And.left And.right
      cases hdecode : Text.decode content with
      | error fault => simp [ofOctets, hdecode] at h
      | ok t =>
          refine .inr ⟨path, content, t,
            ⟨hexpand, hnull, hreadable, hread, sidecarPath, hpath, hfile⟩, hdecode, ?_⟩
          rw [outcome_of_octets path hdecode] at h
          exact (Except.ok.inj (Prod.mk.inj h).1).symm

/-- What is read is the document of a sidecar or comes from a file with comments. -/
theorem load_cases {notices notices' : List Notice} {d : Document}
    (h : outcome (load written (some commentPrefix) config) view notices = (.ok d, notices')) :
    (∃ s path isReadOnly, d = ofSidecar s (some path) isReadOnly) ∨
      ∃ path content t, CommentFile view written path content ∧ Text.decode content = .ok t ∧
        d = ofFile commentPrefix view path t := by
  rcases load_inversion h with ⟨path, content, s, -, hd⟩ | hfile
  · exact .inl ⟨s, path, _, hd⟩
  · exact .inr hfile

/-- What is read without a sidecar comes from a file with comments. -/
theorem comment_file_of_load {notices notices' : List Notice} {d : Document}
    (h : outcome (load written (some commentPrefix) config) view notices = (.ok d, notices'))
    (hsidecar : d.sidecar = none) : ∃ path content t, CommentFile view written path content ∧
      Text.decode content = .ok t ∧ d = ofFile commentPrefix view path t := by
  rcases load_cases h with ⟨s, path, isReadOnly, rfl⟩ | hfile
  · cases hsidecar
  · exact hfile

/-- What is read with a sidecar has no sections. -/
theorem tracked_of_load {notices notices' : List Notice} {d : Document}
    (h : outcome (load written (some commentPrefix) config) view notices = (.ok d, notices'))
    (hsidecar : d.sidecar ≠ none) : d.tracked = [] := by
  rcases load_cases h with ⟨s, path, isReadOnly, rfl⟩ | ⟨path, content, t, -, -, rfl⟩
  · rfl
  · exact absurd rfl hsidecar

end Document

end TrackedSections
