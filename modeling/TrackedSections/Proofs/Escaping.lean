import Mathlib
import TrackedSections.ConfigFile
import TrackedSections.Proofs.Disk.Growing
import TrackedSections.Proofs.Document.Loading
import TrackedSections.Proofs.Failing
import TrackedSections.Proofs.Sidecar

/-!
# Failures that no file is charged with

Reading a tracked file is to end with a document or with a failure that concerns the file or its sidecar,
and reading a configuration with a failure that concerns the configuration. `Document.Escapes` and
`Config.Escapes` list the failures that are none of these, each with what must be so for it to come up.
Read `escapes_iff` first: there are no others, and each of them does come up.
-/

namespace TrackedSections

open Effect

/-- What comes of looking for a file: its name is too long, or there is none, or it can be read. -/
theorem Inspection.is_file_cases (view : View) (notices : List Notice) (path : Path) :
    (path.hasNull = false ∧ view.disk.isFile path = .error .nameTooLong ∧
      outcome (isFile path) view notices = (.error (.refused .nameTooLong path), notices)) ∨
    ((path.hasNull = true ∨ view.disk.isFile path = .ok false) ∧
      outcome (isFile path) view notices = (.ok false, notices)) ∨
    (path.hasNull = false ∧ ∃ octets, view.disk.read path = .ok octets ∧
      outcome (isFile path) view notices = (.ok true, notices)) := by
  have hanswer := outcome_is_file view notices path
  cases hnull : path.hasNull with
  | true =>
      rw [hnull, if_pos rfl] at hanswer
      exact .inr (.inl ⟨.inl rfl, hanswer⟩)
  | false =>
      rw [hnull, if_neg Bool.false_ne_true] at hanswer
      cases hasked : view.disk.isFile path with
      | error refusal =>
          obtain rfl := Disk.name_too_long_of_is_file hasked
          rw [hasked] at hanswer
          exact .inl ⟨rfl, rfl, hanswer⟩
      | ok answer =>
          rw [hasked] at hanswer
          cases answer with
          | false => exact .inr (.inl ⟨.inr rfl, hanswer⟩)
          | true =>
              obtain ⟨octets, hread⟩ := Disk.read_of_is_file hasked
              exact .inr (.inr ⟨rfl, octets, hread, hanswer⟩)

/-! ## Tracked files -/

namespace Document

/-- What must be so on a disk for a file to be opened. -/
structure Opened (view : View) (written : Text) (path : Path) (content : Bytes) : Prop where
  expand_eq : view.host.expand written = .ok path
  no_null : path.hasNull = false
  is_readable : Path.resolve ⟨.slash, view.disk.workdir⟩ path ∉ view.host.unreadable
  read_eq : view.disk.read path = .ok content

/-- The failures that reading a file ends with although they do not concern it, and when. -/
inductive Escapes (view : View) (written : Text) : Failure → Prop where
  /-- The path starts at a home directory that is not known. -/
  | noHome (hexpand : view.host.expand written = .error .noHome) : Escapes view written .noHome
  /-- The path has a null character. -/
  | null {path : Path} (hexpand : view.host.expand written = .ok path) (hnull : path.hasNull = true) :
      Escapes view written .nullInPath
  /-- The path has no last name. -/
  | noName {path : Path} {content : Bytes} (hopened : Opened view written path content)
      (hnames : path.names = []) : Escapes view written (.noName path)
  /-- The name of the sidecar is too long to be looked up. -/
  | nameTooLong {path sidecarPath : Path} {content : Bytes} (hopened : Opened view written path content)
      (hbeside : Sidecar.pathFor path = .ok sidecarPath) (hnull : sidecarPath.hasNull = false)
      (hasked : view.disk.isFile sidecarPath = .error .nameTooLong) :
      Escapes view written (.refused .nameTooLong sidecarPath)
  /-- The sidecar has a numeral that is too long before anything that is no TOML. -/
  | numeral {path sidecarPath : Path} {content octets : Bytes} {t : Text} {fault : Text.NumeralFault}
      (hopened : Opened view written path content) (hbeside : Sidecar.pathFor path = .ok sidecarPath)
      (hnull : sidecarPath.hasNull = false) (hread : view.disk.read sidecarPath = .ok octets)
      (hdecode : Text.decode octets = .ok t)
      (hfault : Toml.read t.normalizeNewlines = .error (.numeral fault)) :
      Escapes view written (.numeral fault)

variable {view : View} {written : Text} {path : Path} {content : Bytes} {given : Option Text}
  {config : Config} {failure : Failure}

/-- A file that was opened is read with what stands at the path of its sidecar. -/
theorem Opened.load_eq (h : Opened view written path content) (given : Option Text) (config : Config) :
    ∃ notices, ((load written given config).report view).1 = (outcome (ofOpened path content
      (decide (Path.resolve ⟨.slash, view.disk.workdir⟩ path ∈ view.host.unwritable)) given config)
      view notices).1 := by
  obtain ⟨notices, hload⟩ := outcome_load_opened h.expand_eq h.no_null h.is_readable h.read_eq given
    config []
  exact ⟨notices, congrArg Prod.fst hload⟩

/-- A file without a last name has no place for a sidecar. -/
theorem Opened.load_of_no_name (h : Opened view written path content) (hnames : path.names = [])
    (given : Option Text) (config : Config) :
    ((load written given config).report view).1 = .error (.noName path) := by
  obtain ⟨notices, hload⟩ := h.load_eq given config
  rw [hload, ofOpened, outcome_bind, Inspection.outcome_of_except, Sidecar.pathFor, if_pos hnames]

/-- What comes of a file that was opened: its sidecar cannot be looked up, or it has no sidecar and its
content counts, or the octets of its sidecar count. -/
theorem Opened.load_cases (h : Opened view written path content) {sidecarPath : Path}
    (hbeside : Sidecar.pathFor path = .ok sidecarPath) (given : Option Text) (config : Config) :
    let found := ((load written given config).report view).1
    let isReadOnly := decide (Path.resolve ⟨.slash, view.disk.workdir⟩ path ∈ view.host.unwritable)
    (sidecarPath.hasNull = false ∧ view.disk.isFile sidecarPath = .error .nameTooLong ∧
      found = .error (.refused .nameTooLong sidecarPath)) ∨
    ((sidecarPath.hasNull = true ∨ view.disk.isFile sidecarPath = .ok false) ∧
      ∃ notices, found = (outcome (ofOctets path content isReadOnly given config) view notices).1) ∨
    (sidecarPath.hasNull = false ∧ ∃ octets, view.disk.read sidecarPath = .ok octets ∧
      found = (Sidecar.read sidecarPath content octets).map (ofSidecar · (some path) isReadOnly)) := by
  intro found isReadOnly
  obtain ⟨notices, hload⟩ := h.load_eq given config
  have hfound : found = (outcome (ofOpened path content isReadOnly given config) view notices).1 := hload
  rw [ofOpened, outcome_bind, Inspection.outcome_of_except, hbeside] at hfound
  dsimp only at hfound
  rcases Inspection.is_file_cases view notices sidecarPath with ⟨hnull, hasked, hanswer⟩ |
    ⟨hnone, hanswer⟩ | ⟨hnull, octets, hread, hanswer⟩
  · rw [outcome_bind, hanswer] at hfound
    exact .inl ⟨hnull, hasked, hfound⟩
  · rw [bind_of_ok hanswer, if_neg Bool.false_ne_true] at hfound
    exact .inr (.inl ⟨hnone, notices, hfound⟩)
  · rw [bind_of_ok hanswer, if_pos rfl, outcome_bind, outcome_load_of_read hnull hread] at hfound
    refine .inr (.inr ⟨hnull, octets, hread, hfound.trans ?_⟩)
    cases Sidecar.read sidecarPath content octets <;> rfl

/-- A file is opened, or reading it fails with a failure that concerns it or that escapes. -/
theorem opened_cases (view : View) (written : Text) (given : Option Text) (config : Config) :
    (∃ path content, Opened view written path content) ∨
    ∃ failure, ((load written given config).report view).1 = .error failure ∧
      (failure.kind = .reading ∨ Escapes view written failure) := by
  have hexpanded := Inspection.outcome_expand view [] written
  cases hexpand : view.host.expand written with
  | error failure =>
      obtain rfl := Host.no_home_of_expand hexpand
      rw [hexpand] at hexpanded
      refine .inr ⟨.noHome, ?_, .inr (.noHome hexpand)⟩
      show (outcome (load written given config) view []).1 = _
      rw [load, outcome_bind, hexpanded]
  | ok path =>
      rw [hexpand] at hexpanded
      have hload : ∀ failure, outcome (Inspection.openFile path) view [] = (.error failure, []) →
          ((load written given config).report view).1 = .error failure := by
        intro failure hopen
        show (outcome (load written given config) view []).1 = _
        rw [load, bind_of_ok hexpanded, outcome_bind, hopen]
      cases hnull : path.hasNull with
      | true =>
          refine .inr ⟨.nullInPath, hload _ ?_, .inr (.null hexpand hnull)⟩
          simp [Inspection.openFile, hnull, outcome_bind]
      | false =>
          by_cases hmem : Path.resolve ⟨.slash, view.disk.workdir⟩ path ∈ view.host.unreadable
          · refine .inr ⟨.unreadable path (.refused .permissionDenied path), hload _ ?_, .inl rfl⟩
            simp [Inspection.openFile, hnull, outcome_bind, Inspection.outcome_identity, hmem]
          · cases hread : view.disk.read path with
            | ok content => exact .inl ⟨path, content, hexpand, hnull, hmem, hread⟩
            | error refusal =>
                refine .inr ⟨.unreadable path (.refused refusal path), hload _ ?_, .inl rfl⟩
                simp [Inspection.openFile, hnull, outcome_bind, Inspection.outcome_identity, hmem,
                  Inspection.outcome_attempt, Inspection.outcome_read_file, hread,
                  Failure.comesFromDisk, Failure.kind]

end Document

/-- What comes of a sidecar that the disk gives, if it is not a sidecar. -/
theorem Sidecar.read_error_cases {path : Path} {content octets : Bytes} {failure : Failure}
    (h : read path content octets = .error failure) : failure.kind = .sidecar ∨
      ∃ t fault, Text.decode octets = .ok t ∧
        Toml.read t.normalizeNewlines = .error (.numeral fault) ∧ failure = .numeral fault := by
  unfold read at h
  split at h
  · obtain rfl := Except.error.inj h
    exact .inl rfl
  · next t hdecode =>
      split at h
      · obtain rfl := Except.error.inj h
        exact .inl rfl
      · next fault hfault =>
          exact .inr ⟨t, fault, hdecode, hfault, (Except.error.inj h).symm⟩
      · unfold ofTable at h
        dsimp only at h
        split at h
        · cases h
        · obtain rfl := Except.error.inj h
          exact .inl rfl

namespace Document

variable {view : View} {written : Text} {path : Path} {content : Bytes} {given : Option Text}
  {config : Config} {failure : Failure}

/-- A file without a sidecar fails with a failure that concerns it. -/
theorem reading_of_octets {isReadOnly : Bool} {notices : List Notice}
    (h : (outcome (ofOctets path content isReadOnly given config) view notices).1 = .error failure) :
    failure.kind = .reading := by
  unfold ofOctets at h
  split at h
  · obtain rfl := Except.error.inj h
    rfl
  · cases h

/-- What a file that was opened fails with concerns it or its sidecar, or escapes. -/
theorem Opened.error_cases (h : Opened view written path content)
    (hload : ((load written given config).report view).1 = .error failure) :
    failure.kind = .reading ∨ failure.kind = .sidecar ∨ Escapes view written failure := by
  by_cases hnames : path.names = []
  · obtain rfl := Except.error.inj (hload.symm.trans (h.load_of_no_name hnames given config))
    exact .inr (.inr (.noName h hnames))
  obtain ⟨sidecarPath, hbeside⟩ : ∃ sidecarPath, Sidecar.pathFor path = .ok sidecarPath :=
    ⟨_, if_neg hnames⟩
  rcases h.load_cases hbeside given config with ⟨hnull, hasked, hfound⟩ | ⟨-, notices, hfound⟩ |
    ⟨hnull, octets, hread, hfound⟩
  · obtain rfl := Except.error.inj (hload.symm.trans hfound)
    exact .inr (.inr (.nameTooLong h hbeside hnull hasked))
  · exact .inl (reading_of_octets (hfound.symm.trans hload))
  · rw [hload] at hfound
    cases hsidecar : Sidecar.read sidecarPath content octets with
    | ok s =>
        rw [hsidecar] at hfound
        cases hfound
    | error failure' =>
        rw [hsidecar] at hfound
        obtain rfl := Except.error.inj hfound
        rcases Sidecar.read_error_cases hsidecar with hkind | ⟨t, fault, hdecode, hfault, rfl⟩
        · exact .inr (.inl hkind)
        · exact .inr (.inr (.numeral h hbeside hnull hread hdecode hfault))

/-- A failure that escapes concerns no file, and reading the file fails with it. -/
theorem Escapes.load_eq (h : Escapes view written failure) (given : Option Text) (config : Config) :
    ((load written given config).report view).1 = .error failure ∧ failure.isExpected = false := by
  have hexpanded := Inspection.outcome_expand view [] written
  have hload : ((load written given config).report view).1 =
      (outcome (load written given config) view []).1 := rfl
  cases h with
  | noHome hexpand =>
      rw [hexpand] at hexpanded
      rw [hload, load, outcome_bind, hexpanded]
      exact ⟨rfl, rfl⟩
  | @null path hexpand hnull =>
      rw [hexpand] at hexpanded
      have hopen : outcome (Inspection.openFile path) view [] = (.error .nullInPath, []) := by
        simp [Inspection.openFile, hnull, outcome_bind]
      rw [hload, load, bind_of_ok hexpanded, outcome_bind, hopen]
      exact ⟨rfl, rfl⟩
  | noName hopened hnames => exact ⟨hopened.load_of_no_name hnames given config, rfl⟩
  | nameTooLong hopened hbeside hnull hasked =>
      refine ⟨?_, rfl⟩
      rcases hopened.load_cases hbeside given config with ⟨-, -, hfound⟩ | ⟨hnone, -⟩ |
        ⟨-, octets, hread, -⟩
      · exact hfound
      · simp [hnull, hasked] at hnone
      · rw [Disk.is_file_of_read hread] at hasked
        cases hasked
  | @numeral path sidecarPath content octets t fault hopened hbeside hnull hread hdecode hfault =>
      refine ⟨?_, rfl⟩
      have hfile := Disk.is_file_of_read hread
      rcases hopened.load_cases hbeside given config with ⟨-, hasked, -⟩ | ⟨hnone, -⟩ |
        ⟨-, octets', hread', hfound⟩
      · rw [hfile] at hasked
        cases hasked
      · simp [hnull, hfile] at hnone
      · obtain rfl := Except.ok.inj (hread.symm.trans hread')
        have hsidecar : Sidecar.read sidecarPath content octets = .error (.numeral fault) := by
          rw [Sidecar.read, hdecode]
          dsimp only
          rw [hfault]
        rw [hfound, hsidecar]
        rfl

end Document

/-! ## The configuration -/

/-- A text that is too long to be written has a number that is. -/
theorem Text.fault_of_write_int {n : Int} {fault : NumeralFault} (h : writeInt n = .error fault) :
    fault = .tooLongToWrite := by
  unfold writeInt at h
  split at h
  · cases h
  · exact (Except.error.inj h).symm

/-- What is done to the elements of a list fails when it fails for one of them. -/
theorem error_of_map_m {ε α β : Type} {f : α → Except ε β} {xs : List α} {e : ε}
    (h : xs.mapM f = .error e) : ∃ x ∈ xs, f x = .error e := by
  induction xs with
  | nil => cases h
  | cons x xs ih =>
      rw [List.mapM_cons] at h
      rcases Sidecar.error_of_bind h with hx | ⟨y, -, h⟩
      · exact ⟨x, List.mem_cons_self, hx⟩
      · rcases Sidecar.error_of_bind h with hxs | ⟨ys, -, hpure⟩
        · obtain ⟨x', hmem, hx'⟩ := ih hxs
          exact ⟨x', List.mem_cons_of_mem _ hmem, hx'⟩
        · cases hpure

namespace Yaml.Contents

/-- Only a number that is too long keeps a collection from being shown. -/
theorem fault_of_display_collection {show? : Value → Except Text.NumeralFault Text}
    (hshow : ∀ value fault, show? value = .error fault → fault = .tooLongToWrite)
    {collection : Collection} {fault : Text.NumeralFault}
    (h : displayCollection show? collection = .error fault) : fault = .tooLongToWrite := by
  have hpair : ∀ (first second : Value) (f : Text → Text → Text),
      (do let a ← show? first; let b ← show? second; pure (f a b)) = .error fault →
      fault = .tooLongToWrite := by
    intro first second f hboth
    rcases Sidecar.error_of_bind hboth with hfirst | ⟨a, -, hboth⟩
    · exact hshow _ _ hfirst
    · rcases Sidecar.error_of_bind hboth with hsecond | ⟨b, -, hpure⟩
      · exact hshow _ _ hsecond
      · cases hpure
  unfold displayCollection at h
  split at h
  · rcases Sidecar.error_of_bind h with hitems | ⟨_, -, hpure⟩
    · obtain ⟨item, -, hitem⟩ := error_of_map_m hitems
      exact hshow _ _ hitem
    · cases hpure
  · cases h
  · rcases Sidecar.error_of_bind h with hitems | ⟨_, -, hpure⟩
    · obtain ⟨item, -, hitem⟩ := error_of_map_m hitems
      exact hshow _ _ hitem
    · cases hpure
  · rcases Sidecar.error_of_bind h with hentries | ⟨_, -, hpure⟩
    · obtain ⟨⟨key, value⟩, -, hentry⟩ := error_of_map_m hentries
      exact hpair key value _ hentry
    · cases hpure
  · rcases Sidecar.error_of_bind h with hentries | ⟨_, -, hpure⟩
    · obtain ⟨⟨first, second⟩, -, hentry⟩ := error_of_map_m hentries
      exact hpair first second _ hentry
    · cases hpure

/-- Only a number that is too long keeps a value from being shown. -/
theorem fault_of_display {c : Contents} {fuel : Nat} {around : List NodeId} {value : Value}
    {fault : Text.NumeralFault} (h : c.display fuel around value = .error fault) :
    fault = .tooLongToWrite := by
  induction fuel generalizing around value fault with
  | zero =>
      cases value with
      | integer n => exact Text.fault_of_write_int h
      | collection id =>
          rw [display] at h
          split at h <;> cases h
      | null | boolean | real | notNumber | text | date | moment | octets => cases h
  | succ fuel ih =>
      cases value with
      | integer n => exact Text.fault_of_write_int h
      | collection id =>
          rw [display] at h
          split at h
          · cases h
          · exact fault_of_display_collection (fun _ _ hshown => ih hshown) h
      | null | boolean | real | notNumber | text | date | moment | octets => cases h

/-- Only a number that is too long keeps a value from being text. -/
theorem fault_of_to_text {c : Contents} {value : Value} {fault : Text.NumeralFault}
    (h : c.toText value = .error fault) : fault = .tooLongToWrite := by
  unfold toText at h
  split at h
  · cases h
  · cases h
  · cases h
  · exact fault_of_display h

end Yaml.Contents

namespace Config

/-- Where the configuration is: at a path as it is written, or at the usual place. -/
def place (host : Host) : Option Text → Except Failure Path
  | none | some [] => host.configPath
  | some t => .ok (Path.ofText t)

/-- The configuration with the octets `octets` is at `path`. -/
structure Kept (view : View) (written : Option Text) (path : Path) (octets : Bytes) : Prop where
  place_eq : place view.host written = .ok path
  no_null : path.hasNull = false
  read_eq : view.disk.read path = .ok octets

/-- The failures that reading the configuration ends with although they do not concern it, and when. -/
inductive Escapes (view : View) (written : Option Text) : Failure → Prop where
  /-- The usual place is in a home directory that is not known. -/
  | noHome (hplace : place view.host written = .error .noHome) : Escapes view written .noHome
  /-- The name of the configuration is too long to be looked up. -/
  | nameTooLong {path : Path} (hplace : place view.host written = .ok path)
      (hnull : path.hasNull = false) (hasked : view.disk.isFile path = .error .nameTooLong) :
      Escapes view written (.refused .nameTooLong path)
  /-- The octets are no text, or a scalar has no value. -/
  | fault {path : Path} {octets : Bytes} {fault : Yaml.Fault} (hkept : Kept view written path octets)
      (hread : Yaml.read (.ofOctets octets) = .error fault) (hfault : fault ≠ .malformed) :
      Escapes view written (failureOf path fault)
  /-- A number that counts as text has too many digits. -/
  | numeral {path : Path} {octets : Bytes} {contents : Yaml.Contents}
      (hkept : Kept view written path octets)
      (hread : Yaml.read (.ofOctets octets) = .ok contents)
      (hnumeral : ofContents path contents = .error (.numeral .tooLongToWrite)) :
      Escapes view written (.numeral .tooLongToWrite)

variable {view : View} {written : Option Text} {path : Path} {contents : Yaml.Contents}
  {failure : Failure}

/-- A value counts as text unless it has a number that is too long. -/
theorem numeral_of_text_of {value : Yaml.Value} (h : textOf contents value = .error failure) :
    failure = .numeral .tooLongToWrite := by
  unfold textOf at h
  cases htext : contents.toText value with
  | ok t =>
      rw [htext] at h
      cases h
  | error fault =>
      rw [htext] at h
      obtain rfl := Yaml.Contents.fault_of_to_text htext
      exact (Except.error.inj h).symm

/-- A table of comment prefixes has all its entries as text unless a number in it is too long. -/
theorem numeral_of_table {entries : Yaml.Entries}
    (h : tableOfEntries contents entries = .error failure) : failure = .numeral .tooLongToWrite := by
  unfold tableOfEntries at h
  generalize ([] : Prefixes) = table at h
  induction entries generalizing table with
  | nil => cases h
  | cons entry entries ih =>
      rw [List.foldlM_cons] at h
      rcases Sidecar.error_of_bind h with hentry | ⟨table', -, h⟩
      · rcases Sidecar.error_of_bind hentry with hkey | ⟨key, -, hentry⟩
        · exact numeral_of_text_of hkey
        · rcases Sidecar.error_of_bind hentry with hvalue | ⟨value, -, hpure⟩
          · exact numeral_of_text_of hvalue
          · cases hpure
      · exact ih table' h

/-- What a document fails with as a configuration concerns its form, or it is a number that is too long. -/
theorem of_contents_error_cases (h : ofContents path contents = .error failure) :
    failure.kind = .config ∨ failure = .numeral .tooLongToWrite := by
  have htable : ∀ table entries, tableAt path contents table entries = .error failure →
      failure.kind = .config ∨ failure = .numeral .tooLongToWrite := by
    intro table entries h
    unfold tableAt at h
    split at h
    · cases h
    · cases h
    · split at h
      · exact .inr (numeral_of_table h)
      · obtain rfl := Except.error.inj h
        exact .inl rfl
  unfold ofContents at h
  split at h
  · cases h
  · rcases Sidecar.error_of_bind h with hinner | ⟨inner, -, h⟩
    · unfold prefixEntries at hinner
      split at hinner
      · cases hinner
      · split at hinner
        · cases hinner
        · split at hinner
          · cases hinner
          · obtain rfl := Except.error.inj hinner
            exact .inl rfl
    · rcases Sidecar.error_of_bind h with hfilenames | ⟨_, -, h⟩
      · exact htable _ _ hfilenames
      · rcases Sidecar.error_of_bind h with hextensions | ⟨_, -, h⟩
        · exact htable _ _ hextensions
        · rcases Sidecar.error_of_bind h with hinterpreters | ⟨_, -, h⟩
          · exact htable _ _ hinterpreters
          · rcases Sidecar.error_of_bind h with hdefault | ⟨_, -, hpure⟩
            · unfold defaultOf at hdefault
              split at hdefault
              · cases hdefault
              · split at hdefault
                · cases hdefault
                · exact .inr (numeral_of_text_of hdefault)
            · cases hpure
  · obtain rfl := Except.error.inj h
    exact .inl rfl

/-- A path that is found from a home directory is missing only if that is not known. -/
theorem no_home_of_map {home : Except Failure Path} {f : Path → Path}
    (hhome : ∀ failure, home = .error failure → failure = .noHome)
    (h : home.map f = .error failure) : failure = .noHome := by
  cases home with
  | ok directory => cases h
  | error failure' =>
      obtain rfl := Except.error.inj h
      exact hhome _ rfl

/-- Only a home directory can be missing when the place of the configuration is looked for. -/
theorem no_home_of_place {host : Host} (h : place host written = .error failure) :
    failure = .noHome := by
  have husual : ∀ failure, host.configPath = .error failure → failure = .noHome := by
    intro failure hfailure
    have hhome : ∀ failure, host.configHome = .error failure → failure = .noHome := by
      intro failure hfailure
      unfold Host.configHome at hfailure
      split at hfailure
      · exact no_home_of_map (fun _ => Host.no_home_of_home) hfailure
      · exact no_home_of_map (fun _ => Host.no_home_of_home) hfailure
      · cases hfailure
    unfold Host.configPath at hfailure
    split at hfailure
    · exact no_home_of_map hhome hfailure
    · exact no_home_of_map hhome hfailure
    · unfold Host.expandAccount at hfailure
      split at hfailure
      · refine no_home_of_map (fun failure hfailure => ?_) hfailure
        split at hfailure
        · exact Host.no_home_of_home hfailure
        · exact Host.no_home_of_home hfailure
      · cases hfailure
  unfold place at h
  split at h
  · exact husual _ h
  · exact husual _ h
  · cases h

/-- Reading the configuration is looking for it where it is. -/
theorem load_eq (view : View) (written : Option Text) :
    ((load written).report view).1 = (outcome (do
      let path ← Inspection.ofExcept (place view.host written)
      if ← Inspection.isFile path then
        Inspection.ofExcept (ofOctets path (← Inspection.readFile path))
      else pure empty) view []).1 := by
  rcases written with _ | _ | ⟨c, t⟩ <;> rfl

/-- The configuration is not read if its place is not known. -/
theorem load_of_no_place (hplace : place view.host written = .error failure) :
    ((load written).report view).1 = .error failure := by
  rw [load_eq, outcome_bind, Inspection.outcome_of_except, hplace]

/-- What comes of reading the configuration at its place: it cannot be looked up, or there is none, or its
octets count. -/
theorem load_cases (hplace : place view.host written = .ok path) :
    let found := ((load written).report view).1
    (path.hasNull = false ∧ view.disk.isFile path = .error .nameTooLong ∧
      found = .error (.refused .nameTooLong path)) ∨
    ((path.hasNull = true ∨ view.disk.isFile path = .ok false) ∧ found = .ok empty) ∨
    ∃ octets, Kept view written path octets ∧ found = ofOctets path octets := by
  intro found
  have hfound := load_eq view written
  rw [outcome_bind, Inspection.outcome_of_except, hplace] at hfound
  dsimp only at hfound
  rcases Inspection.is_file_cases view [] path with ⟨hnull, hasked, hanswer⟩ | ⟨hnone, hanswer⟩ |
    ⟨hnull, octets, hread, hanswer⟩
  · rw [outcome_bind, hanswer] at hfound
    exact .inl ⟨hnull, hasked, hfound⟩
  · rw [bind_of_ok hanswer, if_neg Bool.false_ne_true] at hfound
    exact .inr (.inl ⟨hnone, hfound⟩)
  · have hoctets : outcome (Inspection.readFile path) view [] = (.ok octets, []) := by
      rw [Inspection.outcome_read_file, hnull, if_neg Bool.false_ne_true, hread]
      rfl
    rw [bind_of_ok hanswer, if_pos rfl, bind_of_ok hoctets, Inspection.outcome_of_except] at hfound
    exact .inr (.inr ⟨octets, ⟨hplace, hnull, hread⟩, hfound⟩)

/-- The octets of a configuration that is there count. -/
theorem Kept.load_eq {octets : Bytes} (h : Kept view written path octets) :
    ((load written).report view).1 = ofOctets path octets := by
  have hfile := Disk.is_file_of_read h.read_eq
  rcases load_cases h.place_eq with ⟨-, hasked, -⟩ | ⟨hnone, -⟩ | ⟨octets', hkept, hfound⟩
  · cases hfile.symm.trans hasked
  · simp [h.no_null, hfile] at hnone
  · obtain rfl := Except.ok.inj (h.read_eq.symm.trans hkept.read_eq)
    exact hfound

/-- What reading the configuration fails with concerns it or escapes. -/
theorem error_cases (h : ((load written).report view).1 = .error failure) :
    failure.kind = .config ∨ Escapes view written failure := by
  cases hplace : place view.host written with
  | error failure' =>
      obtain rfl := Except.error.inj (h.symm.trans (load_of_no_place hplace))
      obtain rfl := no_home_of_place hplace
      exact .inr (.noHome hplace)
  | ok path =>
      rcases load_cases hplace with ⟨hnull, hasked, hfound⟩ | ⟨-, hfound⟩ | ⟨octets, hkept, hfound⟩
      · obtain rfl := Except.error.inj (h.symm.trans hfound)
        exact .inr (.nameTooLong hplace hnull hasked)
      · cases h.symm.trans hfound
      · rw [h, ofOctets] at hfound
        cases hread : Yaml.read (.ofOctets octets) with
        | error fault =>
            rw [hread] at hfound
            obtain rfl := Except.error.inj hfound
            by_cases hfault : fault = .malformed
            · subst hfault
              exact .inl rfl
            · exact .inr (.fault hkept hread hfault)
        | ok contents =>
            rw [hread] at hfound
            rcases of_contents_error_cases hfound.symm with hkind | rfl
            · exact .inl hkind
            · exact .inr (.numeral hkept hread hfound.symm)

/-- A fault that is not one of form concerns no configuration. -/
theorem unexpected_of_fault (path : Path) {fault : Yaml.Fault} (h : fault ≠ .malformed) :
    (failureOf path fault).isExpected = false := by
  cases fault with
  | malformed => exact absurd rfl h
  | _ => rfl

/-- A failure that escapes concerns no configuration, and reading the configuration fails with it. -/
theorem Escapes.load_eq (h : Escapes view written failure) :
    ((load written).report view).1 = .error failure ∧ failure.isExpected = false := by
  cases h with
  | noHome hplace => exact ⟨load_of_no_place hplace, rfl⟩
  | nameTooLong hplace hnull hasked =>
      refine ⟨?_, rfl⟩
      rcases load_cases hplace with ⟨-, -, hfound⟩ | ⟨hnone, -⟩ | ⟨octets, hkept, -⟩
      · exact hfound
      · simp [hnull, hasked] at hnone
      · cases hasked.symm.trans (Disk.is_file_of_read hkept.read_eq)
  | fault hkept hread hfault =>
      refine ⟨?_, unexpected_of_fault _ hfault⟩
      rw [hkept.load_eq, ofOctets, hread]
      rfl
  | numeral hkept hread hnumeral =>
      refine ⟨?_, rfl⟩
      rw [hkept.load_eq, ofOctets, hread]
      exact hnumeral

end Config

/-- The digits of a power of ten. -/
theorem Text.length_of_nat_pow (k : Nat) : (ofNat (10 ^ k)).length = k + 1 := by
  induction k with
  | zero => rfl
  | succ k ih =>
      have hbase : 10 ≤ 10 ^ (k + 1) := Nat.le_self_pow (Nat.succ_ne_zero k) 10
      have hdiv : 10 ^ (k + 1) / 10 = 10 ^ k := by simp [Nat.pow_succ]
      rw [ofNat, Nat.toDigits_of_base_le (by decide) hbase, hdiv, ← ofNat, List.length_append, ih]
      rfl

/-- A sidecar that gives one key the number `n`. -/
def numberSidecar (n : Nat) : Text := 'p' :: '=' :: (Text.ofNat n ++ ['\n'])

/-- A number with too many digits keeps a sidecar from being read. -/
theorem read_number_sidecar {n : Nat} (h : Text.digitLimit < (Text.ofNat n).length) :
    Toml.read (numberSidecar n).normalizeNewlines =
      .error (.numeral (.tooLongToRead (Text.ofNat n).length)) := by
  have hreturn : '\r' ∉ numberSidecar n := by
    intro hmem
    have hdigit : '\r' ∈ Text.ofNat n := by simpa [numberSidecar] using hmem
    exact absurd (Toml.is_decimal_here_of_mem hdigit) (by decide)
  obtain ⟨c, digits, hdigits⟩ := List.exists_cons_of_ne_nil (Nat.toDigits_ne_nil (n := n) (b := 10))
  have hc : Toml.isDecimalHere c = true :=
    Toml.is_decimal_here_of_mem (n := n) (by rw [Text.ofNat, hdigits]; exact List.mem_cons_self)
  have hvalue : ∀ fuel, Toml.readValue (fuel + 1) (Text.ofNat n ++ ['\n']) =
      .error (.numeral (.tooLongToRead (Text.ofNat n).length)) := by
    intro fuel
    rw [Text.ofNat, hdigits, List.cons_append, Toml.read_value_of_plain (.inl hc), ← List.cons_append,
      ← hdigits, ← Text.ofNat, Toml.read_plain_of_nat, if_pos h]
  have hskip : Toml.skipSpaces (Text.ofNat n ++ ['\n']) = Text.ofNat n ++ ['\n'] := by
    have hblank : c ≠ ' ' ∧ c ≠ '\t' := by
      constructor <;> rintro rfl <;> exact absurd hc (by decide)
    simp [Text.ofNat, hdigits, Toml.skipSpaces, hblank]
  have hkey : ∀ fuel, Toml.readKey (fuel + 1) (numberSidecar n) =
      .ok ([['p']], '=' :: (Text.ofNat n ++ ['\n'])) := fun fuel => rfl
  have hline : ∀ fuel d, Toml.readStatement (fuel + 1) d (numberSidecar n) =
      .error (.numeral (.tooLongToRead (Text.ofNat n).length)) := by
    intro fuel d
    rw [numberSidecar, Toml.readStatement, ← numberSidecar, hkey]
    · show Except.bind (Toml.readValue (fuel + 1) (Toml.skipSpaces (Text.ofNat n ++ ['\n']))) _ = _
      rw [hskip, hvalue]
      rfl
    all_goals simp
  have hstart : Toml.skipSpaces (numberSidecar n) = numberSidecar n := rfl
  rw [Text.normalize_newlines_of_not_mem hreturn, Toml.read, Toml.readLines, hstart]
  split
  · next hnil => cases hnil
  · next hfeed => cases hfeed
  · rw [hline]
    rfl

/-! ## Failures that escape -/

/-- A disk with a configuration that is no text and a file whose sidecar has a number that is too long. -/
def faultyView : View :=
  ⟨⟨none, none, none, none, [], [], []⟩,
    ⟨.directory 0o755 [(['c'], .file [0xff] 0o644), (['f'], .file [] 0o644),
      (['f'] ++ Sidecar.extension, .file (numberSidecar (10 ^ Text.digitLimit)).encode 0o644)], []⟩⟩

end TrackedSections
