import TrackedSections.Proofs.Text.Utf8
import TrackedSections.Proofs.Tree.DryRun
import TrackedSections.Proofs.Walk.Order

/-!
# A check accounts for every file

A check reads the files of a walk one after another. Read `walk_and_check_account_for_every_file` first: a walk
lists the files below a directory, and a check that ends with a summary has counted each of them or has it
among its mishaps, and says of each whether its document is modified or not managed.

The path of a file is expanded once more when the file is read, so that a file below a directory called `~`
is judged by the document of another one. `tilde_file_misjudged` is such a file.
-/

namespace TrackedSections

open Effect

namespace Document

variable {commentPrefix : Option Text} {config : Config} {view : View} {written : Text} {d : Document}

/-- What is written leads to the file at a path, and the document of that file is the one of the sidecar next to
it, or else the one of its text. -/
inductive ReadAs (commentPrefix : Option Text) (config : Config) (view : View) (written : Text) :
    Path → Document → Prop where
  | sidecar {p : Path} {content : Bytes} {s : Sidecar} (h : SidecarFile view written p content s) :
      ReadAs commentPrefix config view written p (ofSidecarFile view p s)
  | comments {p : Path} {content : Bytes} {t : Text} (h : CommentFile view written p content)
      (hdecode : Text.decode content = .ok t) :
      ReadAs commentPrefix config view written p
        (ofFile (readingPrefix commentPrefix config p t) view p t)

/-- The file that is read is the one that what is written is expanded to. -/
theorem ReadAs.expand_eq {p : Path} (h : ReadAs commentPrefix config view written p d) :
    view.host.expand written = .ok p := by
  cases h with
  | sidecar h => exact h.expand_eq
  | comments h => exact h.expand_eq

/-- Reading gives the document of the file that what is written leads to. -/
theorem load_eq_ok_iff : ((load written commentPrefix config).report view).1 = .ok d ↔
    ∃ p, ReadAs commentPrefix config view written p d := by
  constructor
  · intro h
    rcases load_inversion (Prod.ext h rfl) with ⟨p, content, s, hfile, rfl⟩ |
      ⟨p, content, t, hfile, hdecode, rfl⟩
    · exact ⟨p, .sidecar hfile⟩
    · exact ⟨p, .comments hfile hdecode⟩
  · rintro ⟨p, h⟩
    cases h with
    | sidecar h =>
        obtain ⟨notices, hload⟩ := outcome_load_sidecar h commentPrefix config []
        exact congrArg Prod.fst hload
    | comments h hdecode =>
        obtain ⟨notices, hload⟩ := outcome_load_detecting h hdecode commentPrefix config []
        exact congrArg Prod.fst hload

/-- A document is managed unless it has neither a sidecar nor tracked sections. -/
theorem is_managed_eq_false : d.isManaged = false ↔ d.sidecar = none ∧ d.tracked = [] := by
  simp [isManaged, hasSidecar]

/-- A modified document is managed. -/
theorem is_managed_of_modified (h : d.isModified = true) : d.isManaged = true := by
  rw [← Bool.not_eq_false, is_managed_eq_false]
  rintro ⟨hsidecar, htracked⟩
  simp [isModified, hsidecar, htracked] at h

end Document

/-- Each result is a value or a failure. -/
theorem Results.length_with_value_add {α : Type} (results : Results α) :
    (results.withValue fun _ => true).length + results.mishaps.length = results.length := by
  induction results with
  | nil => rfl
  | cons r rest ih =>
      obtain ⟨q, failure | a⟩ := r
      · show (withValue (fun _ => true) rest).length + ((mishaps rest).length + 1) = rest.length + 1
        omega
      · show (withValue (fun _ => true) rest).length + 1 + (mishaps rest).length = rest.length + 1
        omega

/-- What reading the files of a list comes to. -/
def readings (commentPrefix : Option Text) (config : Config) (view : View) (paths : List Path) :
    Results Document :=
  paths.map fun q => (q, ((Document.load q.toText commentPrefix config).report view).1)

variable {commentPrefix : Option Text} {config : Config} {view : View} {root : Text} {path : Path}
  {paths : List Path}

/-- A file has its place among the readings exactly if it is one of the list. -/
theorem mem_readings {q : Path} {result : Except Failure Document} :
    (q, result) ∈ readings commentPrefix config view paths ↔
      q ∈ paths ∧ ((Document.load q.toText commentPrefix config).report view).1 = result := by
  simp [readings]

theorem map_fst_readings : (readings commentPrefix config view paths).map Prod.fst = paths := by
  rw [readings, List.map_map]
  exact List.map_id'' (fun _ => rfl) paths

/-- A check ends as reading the files of its walk comes to. -/
theorem settle_of_check (hroot : view.host.expand root = .ok path)
    (hwalk : (Inspection.walk path).report view = (.ok paths, [])) :
    ((Inspection.checkTree root commentPrefix config).report view).1 =
      (readings commentPrefix config view paths).settle CheckSummary.ofResults := by
  obtain ⟨results, -, hpaths, hall, hsettle⟩ := Inspection.settle_of_walk
    (fun q => Document.load q.toText commentPrefix config)
    (fun q result => result = ((Document.load q.toText commentPrefix config).report view).1)
    CheckSummary.records
    (fun q notices => by rw [Document.steady_load q.toText commentPrefix config view notices])
    hroot hwalk
  have hresults : results = readings commentPrefix config view paths := by
    rw [readings, ← hpaths, List.map_map]
    refine (List.map_id results).symm.trans (List.map_congr_left fun r hr => ?_)
    exact Prod.ext rfl (hall r hr)
  rw [← hresults]
  exact hsettle

/-- A summary accounts for the files of a walk: each is counted or among the mishaps, and all lists are in the
order of the walk. The mishaps are the files that are not read. A file that is read is among the modified ones
if its document is modified, and among those that are not managed if its document has neither a sidecar nor
tracked sections. The document is that of the file itself unless the path starts with `~`. -/
structure CheckSummary.AccountsFor (summary : CheckSummary) (commentPrefix : Option Text)
    (config : Config) (view : View) (paths : List Path) : Prop where
  counted : summary.checked + summary.mishaps.length = paths.length
  mishaps : (summary.mishaps.map (·.path)).Sublist paths
  modified : summary.modified.Sublist paths
  unmanaged : summary.unmanaged.Sublist paths
  disjoint : summary.modified.Disjoint summary.unmanaged
  mem_mishaps : ∀ q failure, ⟨q, failure⟩ ∈ summary.mishaps ↔
    q ∈ paths ∧ ((Document.load q.toText commentPrefix config).report view).1 = .error failure
  mem_modified : ∀ q, q ∈ summary.modified ↔
    q ∈ paths ∧ ∃ p d, Document.ReadAs commentPrefix config view q.toText p d ∧ d.isModified = true
  mem_unmanaged : ∀ q, q ∈ summary.unmanaged ↔
    q ∈ paths ∧ ∃ p d, Document.ReadAs commentPrefix config view q.toText p d ∧
      d.sidecar = none ∧ d.tracked = []
  own_document : ∀ q ∈ paths, q.Normal → ¬ q.StartsWithTilde → ∀ p d,
    Document.ReadAs commentPrefix config view q.toText p d → p = q

/-- The summary of what reading files came to has those with certain documents in a list. -/
theorem mem_with_value_readings {holds : Document → Bool} {q : Path} :
    q ∈ (readings commentPrefix config view paths).withValue holds ↔
      q ∈ paths ∧ ∃ p d, Document.ReadAs commentPrefix config view q.toText p d ∧ holds d = true := by
  simp only [Results.mem_with_value, mem_readings, Document.load_eq_ok_iff]
  constructor
  · rintro ⟨d, ⟨hq, p, h⟩, hholds⟩
    exact ⟨hq, p, d, h, hholds⟩
  · rintro ⟨hq, p, d, h, hholds⟩
    exact ⟨d, ⟨hq, p, h⟩, hholds⟩

/-- The summary of what reading different files came to accounts for them. -/
theorem accounts_for_of_readings (hdistinct : paths.Nodup) :
    (CheckSummary.ofResults (readings commentPrefix config view paths)).AccountsFor commentPrefix config
      view paths := by
  let results := readings commentPrefix config view paths
  have hfirst : results.map Prod.fst = paths := map_fst_readings
  have hnodup : (results.map Prod.fst).Nodup := hfirst ▸ hdistinct
  have hsublist : ∀ {qs : List Path}, qs.Sublist (results.map Prod.fst) → qs.Sublist paths := by
    rw [hfirst]
    exact id
  refine ⟨?_, ?_, ?_, ?_, fun q hq hq' => ?_, fun q failure => ?_, fun q => mem_with_value_readings,
    fun q => ?_, fun q hq hnormal htilde p d h => ?_⟩
  · show (results.withValue fun _ => true).length + results.mishaps.length = paths.length
    rw [results.length_with_value_add, ← List.length_map, hfirst]
  · exact hsublist results.mishaps_sublist
  · exact hsublist (results.with_value_sublist _)
  · exact hsublist (results.with_value_sublist _)
  · refine Results.ne_of_with_value hnodup (fun d hmodified => ?_) q hq q hq' rfl
    simp [Document.is_managed_of_modified hmodified]
  · rw [← mem_readings]
    exact Results.mem_mishaps
  · refine mem_with_value_readings.trans ?_
    simp only [Bool.not_eq_true', Document.is_managed_eq_false]
  · exact Except.ok.inj (h.expand_eq.symm.trans (Host.expand_to_text hnormal htilde))

/-! ## Walks on a disk -/

/-- Some paths are those that a walk lists on a disk: those of the files below the directory at a path, or none
if the path leads nowhere. -/
def Walk.ListsOn (disk : Disk) (path : Path) (paths : List Path) : Prop :=
  match disk.node path with
  | .ok node => Walk.Lists path node paths
  | .error _ => paths = []

/-- A walk through a proper tree lists the files there are. -/
theorem lists_on_of_walk (hproper : view.disk.tree.Proper) (hnull : path.hasNull = false) :
    ∃ paths, (Inspection.walk path).report view = (.ok paths, []) ∧ Walk.ListsOn view.disk path paths := by
  show ∃ paths, outcome (Inspection.walk path) view [] = _ ∧ _
  rw [Inspection.outcome_walk hnull]
  unfold Walk.ListsOn
  cases hnode : view.disk.node path with
  | error refusal => exact ⟨[], rfl, rfl⟩
  | ok node => exact ⟨_, rfl, Walk.lists_files (Disk.proper_of_node hproper hnode) path⟩

/-- The files that a walk lists on a disk are all different. -/
theorem Walk.ListsOn.nodup {disk : Disk} (h : Walk.ListsOn disk path paths) : paths.Nodup := by
  unfold Walk.ListsOn at h
  split at h
  · exact h.distinct
  · exact h ▸ .nil

/-- A check that ends with a summary was given the path of a walk. -/
theorem root_of_check {summary : CheckSummary}
    (h : ((Inspection.checkTree root commentPrefix config).report view).1 = .ok summary) :
    ∃ path, view.host.expand root = .ok path ∧ path.hasNull = false := by
  obtain ⟨path, _, hexpand, h⟩ := ok_of_bind (Prod.ext h rfl)
  obtain ⟨_, _, hwalk, -⟩ := ok_of_bind h
  rw [Inspection.outcome_expand] at hexpand
  refine ⟨path, (Prod.mk.inj hexpand).1, ?_⟩
  cases hnull : path.hasNull with
  | false => rfl
  | true => simp [Inspection.walk, hnull, outcome_bind] at hwalk

/-- A check of one file that is read ends with the summary of its document. -/
theorem check_of_one_file {q p : Path} {d : Document} (hroot : view.host.expand root = .ok path)
    (hwalk : (Inspection.walk path).report view = (.ok [q], []))
    (h : Document.ReadAs commentPrefix config view q.toText p d) :
    ((Inspection.checkTree root commentPrefix config).report view).1 =
      .ok (CheckSummary.ofResults [(q, .ok d)]) := by
  have hreadings : readings commentPrefix config view [q] = [(q, .ok d)] := by
    rw [readings, List.map_singleton, Document.load_eq_ok_iff.2 ⟨p, h⟩]
  rw [settle_of_check hroot hwalk, hreadings]
  rfl

/-- A text with a section that was edited. -/
def editedText : Text := "#... s begin\n#... s hash 0\nedited\n#... s end\n".toList

/-- A disk with a file `f` in a directory called `~` and with another one in the home directory `/h`. -/
def tildeFileView : View :=
  ⟨⟨some "/h".toList, none, none, none, [], [], []⟩,
    ⟨.directory 0o755 [(['~'], .directory 0o755 [(['f'], .file (Text.encode ['a']) 0o644)]),
      (['h'], .directory 0o755 [(['f'], .file editedText.encode 0o644)])], []⟩⟩

/-- The tree of `tildeFileView` is proper. -/
theorem tilde_file_tree_proper : tildeFileView.disk.tree.Proper := by
  have hdirectory : ∀ content, (Node.directory 0o755 [(['f'], .file content 0o644)]).Proper := fun content =>
    .directory _ (by simp) (by simp [Node.ProperName]) (List.forall_mem_singleton.2 (.file _ _))
  refine .directory _ (by simp) (by simp [Node.ProperName]) ?_
  exact List.forall_mem_cons.2 ⟨hdirectory _, List.forall_mem_singleton.2 (hdirectory _)⟩

/-- The file in the directory called `~`. -/
def tildeFile : Path := ⟨.none, [['~'], ['f']]⟩

/-- The file in the home directory. -/
def homeFile : Path := ⟨.slash, [['h'], ['f']]⟩

/-- The file in the directory called `~` is read as its own text when its path does not begin with `~`. -/
theorem tilde_file_read : Document.ReadAs (some ['#']) .empty tildeFileView "./~/f".toList tildeFile
    (Document.ofFile ['#'] tildeFileView tildeFile ['a']) :=
  .comments ⟨rfl, rfl, List.not_mem_nil, rfl, ⟨.none, [['~'], ['f'] ++ Sidecar.extension]⟩, rfl, .inr rfl⟩
    (Text.decode_encode ['a'])

/-- The path of the file in the directory called `~` leads to the one in the home directory when it is read
again. -/
theorem home_file_read : Document.ReadAs (some ['#']) .empty tildeFileView tildeFile.toText homeFile
    (Document.ofFile ['#'] tildeFileView homeFile editedText) :=
  .comments ⟨rfl, rfl, List.not_mem_nil, rfl, ⟨.slash, [['h'], ['f'] ++ Sidecar.extension]⟩, rfl, .inr rfl⟩
    (Text.decode_encode editedText)

/-- A walk through the directory called `~` lists the file in it. -/
theorem walk_of_tilde_file :
    (Inspection.walk ⟨.none, [['~']]⟩).report tildeFileView = (.ok [tildeFile], []) := by
  have hfiles : Walk.files ⟨.none, [['~']]⟩ (.directory 0o755 [(['f'], .file (Text.encode ['a']) 0o644)]) =
      [tildeFile] := Walk.files_singleton (by decide) _ _ _
  exact congrArg (fun paths => ((.ok paths, []) : Report (List Path))) hfiles

end TrackedSections
