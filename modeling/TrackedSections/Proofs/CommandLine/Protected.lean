import TrackedSections.Proofs.CommandLine.Looking
import TrackedSections.Proofs.Document.Guarded
import TrackedSections.Proofs.Walk.Visits

/-!
# Files that may not be opened for writing

A file that cannot be opened for writing is read all the same, and a document that was read from it is not
saved. Read `protected_file_spared` first: whatever command is run, such a file stays as it is, unless a
document is applied that names it by a path where the disk finds no file, since a directory on the way is
missing. Then the directory is made and the file is taken for a new one (`held_target_overwritten`).
A command that is to rewrite such a file fails and says so.
-/

namespace TrackedSections.CommandLine

open TrackedSections.Effect TrackedSections.Operation

/-! ## What a command comes to -/

/-- The application of a directory comes to the file at `q`, with the summary of the files before it. -/
inductive AppliesEntry (settings : Settings) (view : View) (file : Text) (config : Config) (q : Path)
    (summary : ApplySummary) (progress : Progress) : Prop where
  | intro {directory root : Path} {start between : Progress}
      (hdirectory : outcome (look (applicant settings file)) view.host ⟨view.disk, []⟩ =
        (.ok (.directory directory config), start))
      (hroot : outcome (look (Inspection.expand directory.toText)) view.host start = (.ok root, between))
      (hvisits : Visits (applyAndRecord settings.readingPrefix config) view.host Disk.pathLimit .empty
        root between q summary progress)

/-- The application of a file or directory comes to a document, with the disk as it is then. -/
inductive Applies (settings : Settings) (view : View) (file : Text) (config : Config) (source : Document) :
    Disk → Prop where
  /-- The file is applied. -/
  | file {named : Text}
      (happlicant : ((applicant settings file).report view).1 = .ok (.document source named config)) :
      Applies settings view file config source view.disk
  /-- The document is that of a file below the directory. -/
  | entry {q : Path} {summary : ApplySummary} {progress : Progress}
      (hentry : AppliesEntry settings view file config q summary progress)
      (hload : ((Document.load q.toText settings.readingPrefix config).report
        ⟨view.host, progress.disk⟩).1 = .ok source) :
      Applies settings view file config source progress.disk

/-- A document is applied whose target is to be created, since the disk finds no file at its path. But by
its names, some of which are `..`, the path leads to the file at `place`. -/
inductive CreatesOver (settings : Settings) (view : View) (place : List Text) : Command → Prop where
  | intro {file : Text} {config : Config} {source : Document} {disk : Disk} {path : Path}
      (happlies : Applies settings view file config source disk)
      (hplan : ((source.plan config).report ⟨view.host, disk⟩).1 = .ok (.create path))
      (hleads : path.LeadsTo disk.workdir place) (hmissing : disk.isFile path = .ok false)
      (hup : ['.', '.'] ∈ path.names) : CreatesOver settings view place (.apply file false)

/-- The document that the application of a directory decides to write to its own path when it comes to the
file at `q`. -/
inductive RewritesEntry (settings : Settings) (view : View) (file : Text) (config : Config) (q : Path)
    (summary : ApplySummary) (progress : Progress) (d : Document) : Prop where
  | intro {source : Document} {path : Path}
      (hentry : AppliesEntry settings view file config q summary progress)
      (hload : ((Document.load q.toText settings.readingPrefix config).report
        ⟨view.host, progress.disk⟩).1 = .ok source)
      (hplan : ((source.plan config).report ⟨view.host, progress.disk⟩).1 = .ok (.update path d))

/-- The document that a command decides to write to its own path. -/
inductive Rewrites (settings : Settings) (view : View) : Command → Document → Prop where
  /-- Accepting a file changes its document. -/
  | compile {file : Text} {config : Config} {d : Document}
      (hfile : ((Inspection.isFile (Path.ofText file)).report view).1 = .ok true)
      (hconfig : (settings.loadConfig.report view).1 = .ok config)
      (hload : ((Document.load file settings.readingPrefix config).report view).1 = .ok d)
      (hchange : d.change = .changed) : Rewrites settings view (.compile file false) d.accept
  /-- A section is tracked no longer. -/
  | delete {file : Text} {name : Argument} {d rest : Document}
      (hload : ((settings.loadDocument file).report view).1 = .ok d) (hsidecar : d.hasSidecar = false)
      (hdelete : name.bind d.delete? = some rest) : Rewrites settings view (.delete file name) rest
  /-- A target took something. -/
  | update {file : Text} {input : Argument} {sections : List Argument} {printsOnly : Bool} {d : Document}
      (hupdated : ((updated settings file input sections printsOnly).report view).1 = .ok (.changed d)) :
      Rewrites settings view (.update file input sections printsOnly) d
  /-- The target of a file took something. -/
  | apply {file named : Text} {source d : Document} {config : Config} {path : Path}
      (happlicant : ((applicant settings file).report view).1 = .ok (.document source named config))
      (hplan : ((source.plan config).report view).1 = .ok (.update path d)) :
      Rewrites settings view (.apply file false) d

/-- A failure that concerns a file becomes a reply, and nothing else about an operation changes. -/
theorem outcome_answered (x : Operation Reply) (host : Host) (progress : Progress) :
    outcome (Operation.answered x) host progress =
      (match (outcome x host progress).1 with
        | .ok reply => .ok reply
        | .error failure =>
          if failure.isExpected then .ok (.refusal failure.message) else .error failure,
        (outcome x host progress).2) := by
  rw [Operation.answered, outcome_try_catch]
  rcases outcome x host progress with ⟨failure | reply, progress'⟩
  · dsimp only
    split <;> rfl
  · rfl

/-- What is made of the value of an operation leaves the state. -/
theorem state_of_bind_pure {ρ σ α β : Type} (x : TrackedSections.Effect ρ σ α) (f : α → β) (env : ρ) (s : σ) :
    (outcome (x >>= fun a => pure (f a)) env s).2 = (outcome x env s).2 :=
  congrArg Prod.snd (outcome_map f x env s)

/-! ## What a command reads -/

section Spares

variable {settings : Settings} {written : Text} {view : View} {place : List Text} {d : Document}

/-- What is read spares a file that may not be opened for writing. -/
theorem spares_of_report {given : Option Text} {config : Config}
    (h : ((Document.load written given config).report view).1 = .ok d)
    (hunwritable : Path.ofPlace place ∈ view.host.unwritable)
    (hplace : Sidecar.isPath (.ofPlace place) = false) : d.Spares view.disk.workdir place := by
  have hload : outcome (Document.load written given config) view [] = (.ok d, _) := Prod.ext h rfl
  exact Document.spares_of_load hunwritable hplace hload

theorem spares_of_load_document (h : ((settings.loadDocument written).report view).1 = .ok d)
    (hunwritable : Path.ofPlace place ∈ view.host.unwritable)
    (hplace : Sidecar.isPath (.ofPlace place) = false) : d.Spares view.disk.workdir place := by
  obtain ⟨config, notices, -, hload⟩ := ok_of_bind (Prod.ext h rfl)
  exact Document.spares_of_load hunwritable hplace hload

/-- What an update comes to is a document of the file of its target. -/
theorem spares_of_updated {input : Argument} {sections : List Argument} {printsOnly : Bool}
    (h : ((updated settings written input sections printsOnly).report view).1 = .ok (.changed d))
    (hunwritable : Path.ofPlace place ∈ view.host.unwritable)
    (hplace : Sidecar.isPath (.ofPlace place) = false) : d.Spares view.disk.workdir place := by
  obtain ⟨config, _, -, h⟩ := ok_of_bind (Prod.ext h rfl)
  obtain ⟨target, _, hload, h⟩ := ok_of_bind h
  obtain ⟨input?, _, -, h⟩ := ok_of_bind h
  cases input? with
  | none => cases (Prod.mk.inj h).1
  | some taken =>
      obtain ⟨source, cache⟩ := taken
      obtain ⟨seen, _, -, h⟩ := ok_of_bind h
      dsimp only at h
      have hsame := target.update_same_file cache sections source seen
      generalize target.update cache sections source seen = run at h hsame
      obtain ⟨result, pull⟩ := run
      obtain ⟨_, _, -, h⟩ := ok_of_bind h
      obtain ⟨_, _, -, h⟩ := ok_of_bind h
      split at h
      · cases (Prod.mk.inj h).1
      · split at h
        · cases (Prod.mk.inj h).1
        · obtain rfl := Updated.changed.inj (Except.ok.inj (Prod.mk.inj h).1)
          exact (Document.spares_of_load hunwritable hplace hload).of_same_file hsame

end Spares

/-! ## A file that is not written to -/

section Stands

variable {host : Host} {workdir place : List Text} {content : Bytes} {mode : Nat} {progress : Progress}
  {settings : Settings} {config : Config} {source d : Document}
  (hworkdir : Disk.IsPlace workdir)

include hworkdir in
/-- Saving a document that spares a file leaves it. -/
theorem stands_of_save (hd : d.Spares workdir place) :
    MaintainsDisk (Disk.Stands workdir place content mode) d.save :=
  Document.maintains_save_steps (Disk.kept_at_aside hworkdir) fun _ hq => hd.writes_aside hq

include hworkdir in
/-- So does an operation that ends with saving it. -/
theorem stands_of_save_bind {α : Type} (hd : d.Spares workdir place) (a : α) :
    MaintainsDisk (Disk.Stands workdir place content mode) (d.save >>= fun _ => pure a) :=
  maintains_bind (stands_of_save hworkdir hd) fun _ => maintains_pure a

variable (hunwritable : Path.ofPlace place ∈ host.unwritable)
  (hplace : Sidecar.isPath (.ofPlace place) = false)
  (hstands : Disk.Stands workdir place content mode progress.disk)

include hworkdir hunwritable hplace hstands

/-- Accepting a file leaves the file. -/
theorem stands_of_accepting (file : Text) (wantsSidecar : Bool) (given : Option Text) :
    Disk.Stands workdir place content mode
      (outcome (Operation.compile file wantsSidecar given config) host progress).2.disk := by
  unfold Operation.compile
  split
  · exact maintains_compile_sidecar (Disk.kept_at_aside hworkdir)
      (fun _ _ hpath => Sidecar.not_leads_to hpath hplace) file host progress hstands
  · refine disk_of_look_bind hstands fun d progress' hload hdisk => ?_
    have hd := spares_of_report hload hunwritable hplace
    rw [hstands.workdir_eq] at hd
    rw [← hdisk] at hstands
    split
    · exact stands_of_save_bind hworkdir (hd.of_same_file d.accept_same_file) true host progress' hstands
    · exact hstands

theorem stands_of_compile (file : Text) (wantsSidecar : Bool) :
    Disk.Stands workdir place content mode
      (outcome (compile settings file wantsSidecar) host progress).2.disk := by
  refine disk_of_look_bind hstands fun found progress₁ _ hdisk₁ => ?_
  rw [← hdisk₁] at hstands
  split
  · rw [outcome_answered]
    refine disk_of_look_bind hstands fun config progress₂ _ hdisk₂ => ?_
    rw [← hdisk₂] at hstands
    rw [state_of_bind_pure]
    exact stands_of_accepting hworkdir hunwritable hplace hstands file wantsSidecar _
  · exact hstands

theorem stands_of_delete (file : Text) (name : Argument) :
    Disk.Stands workdir place content mode
      (outcome (delete settings file name) host progress).2.disk := by
  rw [delete, outcome_answered]
  refine disk_of_look_bind hstands fun d progress' hload hdisk => ?_
  have hd := spares_of_load_document hload hunwritable hplace
  rw [hstands.workdir_eq] at hd
  rw [← hdisk] at hstands
  split
  · exact hstands
  · split
    · exact hstands
    · next rest hdelete =>
        obtain ⟨_, -, hdelete⟩ := Option.bind_eq_some_iff.1 hdelete
        exact stands_of_save_bind hworkdir (hd.of_same_file (Document.delete_same_file hdelete)) _ host
          progress' hstands

theorem stands_of_update (file : Text) (input : Argument) (sections : List Argument)
    (printsOnly : Bool) :
    Disk.Stands workdir place content mode
      (outcome (update settings file input sections printsOnly) host progress).2.disk := by
  rw [update, outcome_answered]
  refine disk_of_look_bind hstands fun result progress' hupdated hdisk => ?_
  cases result with
  | done reply =>
      rw [← hdisk] at hstands
      exact hstands
  | changed d =>
      have hd := spares_of_updated hupdated hunwritable hplace
      rw [hstands.workdir_eq] at hd
      rw [← hdisk] at hstands
      exact stands_of_save_bind hworkdir hd _ host progress' hstands

/-- Applying a document leaves the file, unless it is to be created. -/
theorem stands_of_apply
    (hcreate : ∀ path, ((source.plan config).report ⟨host, progress.disk⟩).1 = .ok (.create path) →
      ¬ path.LeadsTo workdir place) :
    Disk.Stands workdir place content mode
      (outcome (Operation.apply source config) host progress).2.disk := by
  refine disk_of_look_bind hstands fun plan progress' hplan hdisk => ?_
  have hplanned := Document.planned_of_report hplan
  have haside : ∀ q, plan.Writes source q → ¬ q.LeadsTo workdir place := by
    intro q hq
    rw [← hstands.workdir_eq] at hcreate ⊢
    exact Document.plan_writes_aside hunwritable hplace hplanned
      (fun path hpath => hcreate path (hpath ▸ hplan)) hq
  rw [← hdisk] at hstands
  exact maintains_bind (Plan.maintains_carry_out (Disk.kept_at_aside hworkdir) haside)
    (fun _ => maintains_pure _) host progress' hstands

/-- Handling a file below a directory leaves the file, unless it is to be created. -/
theorem stands_of_visit {given : Option Text} {summary : ApplySummary} {q : Path}
    (hcreate : ∀ source,
      ((Document.load q.toText given config).report ⟨host, progress.disk⟩).1 = .ok source →
      ∀ path, ((source.plan config).report ⟨host, progress.disk⟩).1 = .ok (.create path) →
        ¬ path.LeadsTo workdir place) :
    Disk.Stands workdir place content mode
      (outcome (applyAndRecord given config summary q) host progress).2.disk := by
  have happly : Disk.Stands workdir place content mode
      (outcome (applyPath given config q) host progress).2.disk := by
    refine disk_of_look_bind hstands fun source progress' hload hdisk => ?_
    rw [← hdisk] at hstands
    split
    · exact hstands
    · rw [outcome_map]
      refine stands_of_apply hworkdir hunwritable hplace hstands ?_
      rw [hdisk]
      exact hcreate source hload
  rw [outcome_apply_and_record]
  exact happly

end Stands

section Run

variable {settings : Settings} {view : View} {place : List Text} (hprotects : view.Protects place)
include hprotects

/-- Applying a file or directory leaves the file, unless it is to be created. -/
theorem stands_of_application {content : Bytes} {mode : Nat}
    (hstands : Disk.Stands view.disk.workdir place content mode view.disk) {file : Text}
    (hcreate : ∀ config source disk path, Applies settings view file config source disk →
      Disk.Stands view.disk.workdir place content mode disk →
      ((source.plan config).report ⟨view.host, disk⟩).1 = .ok (.create path) →
      ¬ path.LeadsTo view.disk.workdir place) :
    Disk.Stands view.disk.workdir place content mode
      (outcome (apply settings file) view.host ⟨view.disk, []⟩).2.disk := by
  obtain ⟨hworkdir, -, -, hunwritable, hplace⟩ := hprotects
  rw [apply, outcome_answered]
  refine disk_of_bind (maintains_look _ view.host ⟨view.disk, []⟩ hstands)
    fun answer start hlook hstart => ?_
  obtain ⟨happlicant, hdisk⟩ := of_outcome_look hlook
  cases answer with
  | done reply => exact hstart
  | directory directory config =>
      dsimp only
      rw [state_of_bind_pure, applyTree]
      refine disk_of_bind (maintains_look _ view.host start hstart) fun root between hroot hbetween => ?_
      refine disk_of_visits (fun q summary progress hvisits hprogress => ?_) hbetween
      -- Each file that has its turn is one that the application comes to, so it creates nothing here.
      have hentry : AppliesEntry settings view file config q summary progress := ⟨hlook, hroot, hvisits⟩
      exact stands_of_visit hworkdir hunwritable hplace hprogress fun source hload path =>
        hcreate config source progress.disk path (.entry hentry hload) hprogress
  | document source named config =>
      dsimp only
      rw [state_of_bind_pure]
      refine stands_of_apply hworkdir hunwritable hplace hstart fun path hplan => ?_
      rw [hdisk] at hplan
      exact hcreate config source view.disk path (.file happlicant) hstands hplan

/-- A command leaves the file, unless it is to be created. -/
theorem stands_of_run {content : Bytes} {mode : Nat}
    (hstands : Disk.Stands view.disk.workdir place content mode view.disk) (command : Command)
    (hcreate : ∀ file config source disk path, command = .apply file false →
      Applies settings view file config source disk →
      Disk.Stands view.disk.workdir place content mode disk →
      ((source.plan config).report ⟨view.host, disk⟩).1 = .ok (.create path) →
      ¬ path.LeadsTo view.disk.workdir place) :
    Disk.Stands view.disk.workdir place content mode ((command.run settings).report view).2 := by
  let start : Progress := ⟨view.disk, []⟩
  have hstart : Disk.Stands view.disk.workdir place content mode start.disk := hstands
  have hlooks (h : command.isInspection = true) := Command.maintains_inspection
    (p := Disk.Stands view.disk.workdir place content mode) h settings view.host start hstart
  obtain ⟨hworkdir, -, -, hunwritable, hplace⟩ := id hprotects
  cases command with
  | info | query | check => exact hlooks rfl
  | compile file wantsSidecar =>
      exact stands_of_compile hworkdir hunwritable hplace hstart file wantsSidecar
  | delete file name =>
      exact stands_of_delete hworkdir hunwritable hplace hstart file name
  | update file input sections printsOnly =>
      exact stands_of_update hworkdir hunwritable hplace hstart file input sections printsOnly
  | apply file isDry =>
      cases isDry with
      | true => exact hlooks rfl
      | false =>
          exact stands_of_application hprotects hstands fun config source disk path =>
            hcreate file config source disk path rfl

end Run

/-! ## A file that is to be written to -/

section ComesTo

variable {α β : Type} {view : View} {failure : Failure} {result : Except Failure β}

/-- An operation comes to a result and leaves the disk. -/
def ComesTo (x : Operation α) (view : View) (result : Except Failure α) : Prop :=
  ∀ notices, ∃ notices',
    outcome x view.host ⟨view.disk, notices⟩ = (result, ⟨view.disk, notices'⟩)

theorem ComesTo.bind {x : Operation α} (h : ComesTo x view (.error failure)) (f : α → Operation β) :
    ComesTo (x >>= f) view (.error failure) := by
  intro notices
  obtain ⟨notices', h⟩ := h notices
  exact ⟨notices', by rw [outcome_bind, h]⟩

theorem ComesTo.map {x : Operation α} (h : ComesTo x view (.error failure)) (f : α → β) :
    ComesTo (f <$> x) view (.error failure) := by
  intro notices
  obtain ⟨notices', h⟩ := h notices
  exact ⟨notices', by rw [outcome_map, h]; rfl⟩

/-- An operation that begins with a look comes to what the rest comes to. -/
theorem ComesTo.after_look {x : Inspection α} {a : α} {f : α → Operation β}
    (hx : (x.report view).1 = .ok a) (hf : ComesTo (f a) view result) :
    ComesTo (look x >>= f) view result := by
  intro notices
  obtain ⟨notices', h⟩ := hf (notices ++ (x.report view).2)
  refine ⟨notices', ?_⟩
  rw [outcome_bind, outcome_look, hx]
  exact h

/-- A failure that concerns a file becomes the reply. -/
theorem ComesTo.answered {x : Operation Reply} (h : ComesTo x view (.error failure))
    (hexpected : failure.isExpected = true) :
    ComesTo (Operation.answered x) view (.ok (.refusal failure.message)) := by
  intro notices
  obtain ⟨notices', h⟩ := h notices
  refine ⟨notices', ?_⟩
  rw [outcome_answered, h]
  dsimp only
  rw [if_pos hexpected]

end ComesTo

section Refuses

variable {settings : Settings} {config : Config} {view : View} {place : List Text} {d : Document}
  {path : Path} (hpath : d.path = some path) (hleads : path.LeadsTo view.disk.workdir place)
include hpath hleads

/-- A document that spares the file is not saved to it. -/
theorem refuses_save (hd : d.Spares view.disk.workdir place) :
    ComesTo d.save view (.error (.readOnly path)) :=
  fun notices => ⟨notices,
    Document.outcome_save_read_only hpath (hd.guarded path hpath hleads) view.host ⟨view.disk, notices⟩⟩

variable (hunwritable : Path.ofPlace place ∈ view.host.unwritable)
  (hplace : Sidecar.isPath (.ofPlace place) = false)
include hunwritable hplace

/-- A target that would be written to such a file is not. -/
theorem refuses_apply {source : Document} {named : Path}
    (hplan : ((source.plan config).report view).1 = .ok (.update named d)) :
    ComesTo (Operation.apply source config) view (.error (.readOnly path)) := by
  refine .after_look hplan (.bind (.bind (refuses_save hpath hleads ?_) _) _)
  cases Document.planned_of_report hplan with
  | update _ _ _ _ hload _ =>
      exact (Document.spares_of_load hunwritable hplace hload).of_same_file
        (Document.apply_same_file _ source)

/-- Handling a file below a directory fails if its target would be written to such a file. -/
theorem refuses_entry {q named : Path} {given : Option Text} {source : Document}
    (hload : ((Document.load q.toText given config).report view).1 = .ok source)
    (hplan : ((source.plan config).report view).1 = .ok (.update named d)) :
    ComesTo (applyPath given config q) view (.error (.readOnly path)) := by
  have htarget : source.target.isNone = false := by
    cases Document.planned_of_report hplan with
    | update htarget _ _ _ _ _ => rw [htarget]; rfl
  refine .after_look hload ?_
  rw [if_neg (by rw [htarget]; exact Bool.false_ne_true)]
  exact .map (refuses_apply hpath hleads hunwritable hplace hplan) _

/-- A command that is to rewrite such a file says that it must not be written. -/
theorem refuses_rewriting {command : Command} (h : Rewrites settings view command d) :
    ComesTo (command.run settings) view (.ok (.refusal (Failure.readOnly path).message)) := by
  cases h with
  | @compile file config e hfile hconfig hload hchange =>
      have he := spares_of_report hload hunwritable hplace
      have hsave := refuses_save hpath hleads (he.of_same_file e.accept_same_file)
      have haccept : ComesTo (compileDocument file settings.readingPrefix config) view
          (.error (.readOnly path)) := by
        refine .after_look hload ?_
        rw [if_pos hchange]
        exact hsave.bind _
      refine .after_look hfile ?_
      rw [if_pos rfl]
      exact .answered (.after_look hconfig (haccept.bind _)) rfl
  | @delete file name e rest hload hsidecar hdelete =>
      obtain ⟨_, -, hdeleted⟩ := Option.bind_eq_some_iff.1 hdelete
      have he := spares_of_load_document hload hunwritable hplace
      have hsave := refuses_save hpath hleads (he.of_same_file (Document.delete_same_file hdeleted))
      refine .answered (.after_look hload ?_) rfl
      rw [if_neg (by simp [hsidecar]), hdelete]
      exact hsave.bind _
  | update hupdated =>
      have hsave := refuses_save hpath hleads (spares_of_updated hupdated hunwritable hplace)
      exact .answered (.after_look hupdated (hsave.bind _)) rfl
  | apply happlicant hplan =>
      have happly := refuses_apply hpath hleads hunwritable hplace hplan
      exact .answered (.after_look happlicant (happly.bind _)) rfl

end Refuses

/-! ## A file of a directory that is to be written to -/

section Recorded

variable {settings : Settings} {config : Config} {view : View} {given : Option Text} {q : Path}
  {summary total : ApplySummary} {failure : Failure}

/-- A summary that is added to keeps what could not be handled. -/
theorem mem_mishaps_of_record {result : Except Failure (Option Outcome)} {mishap : Mishap}
    (h : summary.record q result = .ok total) (hmishap : mishap ∈ summary.mishaps) :
    mishap ∈ total.mishaps := by
  unfold ApplySummary.record at h
  split at h
  · obtain rfl := Except.ok.inj h
    exact hmishap
  · next outcome =>
      obtain rfl := Except.ok.inj h
      cases outcome <;> exact hmishap
  · split at h
    · obtain rfl := Except.ok.inj h
      exact List.mem_append_left _ hmishap
    · cases h

/-- Only a failure that concerns no file ends a run over a directory. -/
theorem unexpected_of_record {result : Except Failure (Option Outcome)}
    (h : summary.record q result = .error failure) : failure.isExpected = false := by
  unfold ApplySummary.record at h
  split at h
  · cases h
  · cases h
  · split at h
    · cases h
    · next hexpected =>
        obtain rfl := Except.error.inj h
        exact Bool.eq_false_iff.2 hexpected

theorem fails_only_apply_and_record :
    FailsOnly (·.isExpected = false) (applyAndRecord given config summary q) := by
  intro host progress failure h
  rw [outcome_apply_and_record] at h
  exact unexpected_of_record h

/-- A failure that concerns a file of the directory is in the reply to its application. -/
theorem reply_to_entry {file : Text} {progress : Progress} {reply : Reply}
    (hentry : AppliesEntry settings view file config q summary progress)
    (hfailure : ComesTo (applyPath settings.readingPrefix config q) ⟨view.host, progress.disk⟩
      (.error failure)) (hexpected : failure.isExpected = true)
    (hreply : ((apply settings file).report view).1.1 = .ok reply) :
    reply.exitCode = 1 ∧ ∃ total, reply = .ofApplication total false ∧ ⟨q, failure⟩ ∈ total.mishaps := by
  obtain @⟨directory, root, start, between, hdirectory, hroot, hvisits⟩ := hentry
  have htree : outcome (applyTree directory.toText settings.readingPrefix config) view.host start =
      outcome (visitFiles (applyAndRecord settings.readingPrefix config) .empty root) view.host between :=
    bind_of_ok hroot
  rw [report_eq, apply, outcome_answered, bind_of_ok hdirectory] at hreply
  dsimp only at hreply
  rw [outcome_bind, htree] at hreply
  cases hwalk : outcome (visitFiles (applyAndRecord settings.readingPrefix config) .empty root) view.host
      between with
  | mk result last =>
      rw [hwalk] at hreply
      cases result with
      | error failure' =>
          -- A failure that ends the run is no failure that is replied to.
          have hunexpected : failure'.isExpected = false :=
            fails_only_visit_files_to (p := (·.isExpected = false)) rfl
              (fun _ _ => fails_only_apply_and_record) _ _ _ view.host between failure'
              (congrArg Prod.fst hwalk)
          simp [hunexpected] at hreply
      | ok total =>
          obtain rfl := Except.ok.inj hreply
          have hmishap : ⟨q, failure⟩ ∈ total.mishaps := by
            refine value_of_visits (r := fun summary => ⟨q, failure⟩ ∈ summary.mishaps) hvisits
              (fun after last hafter => ?_) (fun q summary progress after last hkept hafter => ?_) hwalk
            · obtain ⟨notices, hfails⟩ := hfailure progress.notices
              rw [outcome_apply_and_record, hfails, ApplySummary.record, if_pos hexpected] at hafter
              obtain rfl := Except.ok.inj (Prod.mk.inj hafter).1
              exact List.mem_append_right _ (List.mem_singleton_self _)
            · rw [outcome_apply_and_record] at hafter
              exact mem_mishaps_of_record (Prod.mk.inj hafter).1 hkept
          refine ⟨?_, total, rfl, hmishap⟩
          exact if_neg fun hempty => List.ne_nil_of_mem hmishap (List.isEmpty_iff.1 hempty)

end Recorded

/-! ## Protected files -/

/-- The text of an accepted file that names a target. -/
def acceptedFor (target : String) : Text :=
  ("#... s begin\n#... s hash 7AA7A5359173D05B63CFD682E3C38487F3CB4F7F1D60659FE59FAB1505977D4C\n" ++
    "#... all target ").toList ++ target.toList ++ "\nnew\n#... s end\n".toList

/-- Such a file, and a file `t` for it that may not be opened for writing. -/
def heldView (target : String) : View :=
  let view := Document.filesOnly [(['s'], acceptedFor target), (['t'], Document.sourcedTarget)]
  { view with host := { view.host with unwritable := [.ofPlace [['t']]] } }

/-- The settings to read such files, with a configuration that is not there. -/
def plainSettings : Settings := ⟨some (some ['#']), some ['c'], 0⟩

theorem protects_held (target : String) : (heldView target).Protects [['t']] where
  workdir_is_place _ h := (List.not_mem_nil h).elim
  is_place _ h := by
    obtain rfl := List.mem_singleton.1 h
    constructor <;> decide
  is_file := ⟨_, _, rfl⟩
  is_unwritable := List.mem_singleton_self _
  no_sidecar := by decide

end TrackedSections.CommandLine
