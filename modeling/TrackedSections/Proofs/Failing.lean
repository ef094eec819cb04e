import TrackedSections.Proofs.Document.Saving
import TrackedSections.Tree

/-!
# What can end a run over many files

An operation over many files goes on after every failure that concerns a file. `Failure.EndsRun` lists
those that do not. Read `fails_only_apply_path` first: handling one file fails with a failure that
concerns a file or with one of the list. `FailsOnly` proves that along the text of the operation, as
`Maintains` does for properties of the state.
-/

namespace TrackedSections

namespace Effect

variable {ρ σ α β : Type} {p q : Failure → Prop}

/-- An operation fails with certain failures only. -/
def FailsOnly (p : Failure → Prop) (x : Effect ρ σ α) : Prop :=
  ∀ env s failure, (outcome x env s).1 = .error failure → p failure

theorem FailsOnly.mono {x : Effect ρ σ α} (h : FailsOnly q x)
    (himp : ∀ failure, q failure → p failure) : FailsOnly p x :=
  fun env s failure hfailure => himp failure (h env s failure hfailure)

theorem fails_only_pure (a : α) : FailsOnly p (pure a : Effect ρ σ α) :=
  fun _ _ _ h => nomatch h

theorem fails_only_throw {failure : Failure} (h : p failure) :
    FailsOnly p (throw failure : Effect ρ σ α) := by
  intro env s failure' hfailure
  obtain rfl := Except.error.inj hfailure
  exact h

theorem fails_only_read : FailsOnly p (read : Effect ρ σ ρ) := fun _ _ _ h => nomatch h

theorem fails_only_get : FailsOnly p (get : Effect ρ σ σ) := fun _ _ _ h => nomatch h

theorem fails_only_set (s : σ) : FailsOnly p (set s : Effect ρ σ PUnit) := fun _ _ _ h => nomatch h

theorem fails_only_modify (f : σ → σ) : FailsOnly p (modify f : Effect ρ σ PUnit) :=
  fun _ _ _ h => nomatch h

/-- Two operations one after the other fail only as each of them does. -/
theorem fails_only_bind {x : Effect ρ σ α} {f : α → Effect ρ σ β} (hx : FailsOnly p x)
    (hf : ∀ a, FailsOnly p (f a)) : FailsOnly p (x >>= f) := by
  intro env s failure hfailure
  rw [outcome_bind] at hfailure
  cases hfirst : outcome x env s with
  | mk first s' =>
      rw [hfirst] at hfailure
      cases first with
      | error failure' =>
          obtain rfl := Except.error.inj hfailure
          exact hx env s failure' (by rw [hfirst])
      | ok a => exact hf a env s' failure hfailure

/-- An operation that begins by checking something fails as the check and the rest do. -/
theorem fails_only_guard {c : Prop} [Decidable c] {failure : Failure} {rest : PUnit → Effect ρ σ β}
    (h : p failure) (hrest : FailsOnly p (rest ⟨⟩)) :
    FailsOnly p (if c then throw failure >>= rest else rest ⟨⟩) := by
  split
  · exact fails_only_bind (fails_only_throw h) fun _ => hrest
  · exact hrest

/-- A fold fails as its steps do. -/
theorem fails_only_fold {f : α → β → Effect ρ σ α} (hf : ∀ a b, FailsOnly p (f a b)) (bs : List β)
    (a : α) : FailsOnly p (bs.foldlM f a) := by
  induction bs generalizing a with
  | nil => exact fails_only_pure a
  | cons b rest ih =>
      rw [List.foldlM_cons]
      exact fails_only_bind (hf a b) fun _ => ih _

/-- Changing the value of an operation does not change its failures. -/
theorem fails_only_map {f : α → β} {x : Effect ρ σ α} (hx : FailsOnly p x) : FailsOnly p (f <$> x) := by
  intro env s failure hfailure
  rw [outcome_map] at hfailure
  cases hfirst : (outcome x env s).1 with
  | error failure' =>
      rw [hfirst] at hfailure
      obtain rfl := Except.error.inj hfailure
      exact hx env s failure' hfirst
  | ok a =>
      rw [hfirst] at hfailure
      cases hfailure

/-- What is done about a failure fails as it may with the failures that there are. -/
theorem fails_only_try_catch {x : Effect ρ σ α} {handle : Failure → Effect ρ σ α}
    (hx : FailsOnly q x) (hhandle : ∀ failure, q failure → FailsOnly p (handle failure)) :
    FailsOnly p (tryCatch x handle) := by
  intro env s failure hfailure
  rw [outcome_try_catch] at hfailure
  cases hfirst : outcome x env s with
  | mk first s' =>
      rw [hfirst] at hfailure
      cases first with
      | ok a => cases hfailure
      | error failure' =>
          exact hhandle failure' (hx env s failure' (by rw [hfirst])) env s' failure hfailure

/-- After an attempt, the failure in the value is one with which the attempted operation may fail. -/
theorem fails_only_attempt_bind {x : Effect ρ σ α} {f : Except Failure α → Effect ρ σ β}
    (hx : FailsOnly q x)
    (hf : ∀ result, (∀ failure, result = .error failure → q failure) → FailsOnly p (f result)) :
    FailsOnly p ((tryCatch (Except.ok <$> x) fun failure => pure (.error failure)) >>= f) := by
  intro env s failure hfailure
  rw [outcome_bind, outcome_try_catch, outcome_map] at hfailure
  cases hfirst : outcome x env s with
  | mk first s' =>
      rw [hfirst] at hfailure
      have hresult : ∀ failure, first = .error failure → q failure := fun failure hfailure =>
        hx env s failure (by rw [hfirst, hfailure])
      cases first with
      | ok a => exact hf (.ok a) (fun _ h => nomatch h) env s' failure hfailure
      | error failure' => exact hf (.error failure') hresult env s' failure hfailure

end Effect

open Effect

namespace Failure

/-- The failures that no file is charged with. They end a run over many files. -/
inductive EndsRun : Failure → Prop where
  /-- A path has a null character. -/
  | null : EndsRun .nullInPath
  /-- A path has no last name. -/
  | noName (path : Path) : EndsRun (.noName path)
  /-- A home directory is not known. -/
  | noHome : EndsRun .noHome
  /-- A numeral is too long to be read or written. -/
  | numeral (fault : Text.NumeralFault) : EndsRun (.numeral fault)
  /-- A number is too large or too small to stand for permission bits. -/
  | permissions {fault : Permissions.Fault} (h : fault.isFormal = false) :
      EndsRun (.permissions fault)
  /-- The disk cannot even say whether there is a file of such a name. -/
  | nameTooLong (path : Path) : EndsRun (.refused .nameTooLong path)

/-- The failures that handling one file may end with. -/
def Handled (failure : Failure) : Prop := failure.isExpected = true ∨ failure.EndsRun

/-- The failures before the disk is given as the reason for another one. -/
def Raw (failure : Failure) : Prop := failure.comesFromDisk = true ∨ failure.Handled

end Failure

open Failure

/-- A home directory that is not known is all that can be wrong with one. -/
theorem Host.no_home_of_home {home : Option Text} {failure : Failure}
    (h : homeOf home = .error failure) : failure = .noHome := by
  unfold homeOf at h
  split at h
  · exact (Except.error.inj h).symm
  · split at h
    · exact (Except.error.inj h).symm
    · cases h

/-- A path cannot be expanded only if a home directory is not known. -/
theorem Host.no_home_of_expand {host : Host} {t : Text} {failure : Failure}
    (h : host.expand t = .error failure) : failure = .noHome := by
  unfold expand at h
  split at h
  · exact no_home_of_home h
  · cases hdirectory : host.homeDirectory with
    | error failure' =>
        rw [hdirectory] at h
        obtain rfl := Except.error.inj h
        exact no_home_of_home hdirectory
    | ok directory =>
        rw [hdirectory] at h
        cases h
  · cases h

/-- The disk cannot say whether there is a file only of a name that is too long. -/
theorem Disk.name_too_long_of_is_file {d : Disk} {path : Path} {refusal : Refusal}
    (h : d.isFile path = .error refusal) : refusal = .nameTooLong := by
  unfold isFile at h
  split at h
  · cases h
  · exact (Except.error.inj h).symm
  · cases h

namespace Inspection

variable {α : Type} {p : Failure → Prop}

theorem fails_only_tell (notice : Notice) : FailsOnly p (tell notice) := fails_only_modify _

theorem fails_only_tell_all (notices : List Notice) : FailsOnly p (tellAll notices) :=
  fails_only_modify _

theorem fails_only_of_except {x : Except Failure α} (h : ∀ failure, x = .error failure → p failure) :
    FailsOnly p (ofExcept x) := by
  cases x with
  | ok a => exact fails_only_pure a
  | error failure => exact fails_only_throw (h failure rfl)

/-- A path cannot be expanded only if a home directory is not known. -/
theorem fails_only_expand (t : Text) : FailsOnly Handled (expand t) := by
  refine fails_only_bind fails_only_read fun view => fails_only_of_except fun failure h => ?_
  obtain rfl := Host.no_home_of_expand h
  exact .inr .noHome

/-- A question to the disk fails with its refusal. -/
theorem fails_only_ask {question : Disk → Path → Except Refusal α} {path : Path}
    (h : ∀ d refusal, question d path = .error refusal → p (.refused refusal path)) :
    FailsOnly p (ask question path) := by
  refine fails_only_bind fails_only_read fun view => ?_
  split
  · exact fails_only_pure _
  · next refusal hrefusal => exact fails_only_throw (h _ _ hrefusal)

theorem fails_only_is_file (path : Path) : FailsOnly Handled (isFile path) := by
  unfold isFile
  split
  · exact fails_only_pure _
  · refine fails_only_ask fun d refusal h => ?_
    obtain rfl := Disk.name_too_long_of_is_file h
    exact .inr (.nameTooLong path)

/-- The disk cannot say whether there is a directory only of a name that is too long. -/
theorem fails_only_is_directory (path : Path) : FailsOnly Handled (isDirectory path) := by
  unfold isDirectory
  split
  · exact fails_only_pure _
  · refine fails_only_ask fun d refusal h => ?_
    unfold Disk.isDirectory at h
    split at h
    · cases h
    · obtain rfl := Except.error.inj h
      exact .inr (.nameTooLong path)
    · cases h

theorem fails_only_read_file (path : Path) : FailsOnly Raw (readFile path) := by
  unfold readFile
  split
  · exact fails_only_throw (.inr (.inr .null))
  · exact fails_only_ask fun d refusal h => .inl rfl

theorem fails_only_resolve (path : Path) : FailsOnly Handled (resolve path) :=
  fails_only_guard (.inr .null) (fails_only_bind fails_only_read fun _ => fails_only_pure _)

/-- A failure to read something is charged with a reason, or it is none of the disk. -/
theorem fails_only_charge {failure : Failure} (hraw : Raw failure) {reason : Failure → Failure}
    (hreason : (reason failure).isExpected = true) :
    FailsOnly Handled (if failure.comesFromDisk then throw (reason failure) else throw failure :
      Inspection α) := by
  split
  · exact fails_only_throw (.inl hreason)
  · next hdisk => exact fails_only_throw (hraw.resolve_left hdisk)

theorem fails_only_open_file (path : Path) : FailsOnly Handled (openFile path) := by
  refine fails_only_guard (.inr .null) ?_
  refine fails_only_bind fails_only_read fun view => ?_
  refine fails_only_bind (fails_only_bind fails_only_read fun _ => fails_only_pure _) fun file => ?_
  refine fails_only_guard (.inl rfl) ?_
  refine fails_only_attempt_bind (fails_only_read_file path) fun result hresult => ?_
  split
  · exact fails_only_pure _
  · exact fails_only_charge (hresult _ rfl) rfl

end Inspection

/-- A sidecar is read, or something is wrong with it, or it has a numeral that is too long. -/
theorem Sidecar.fails_only_load (path : Path) (content : Bytes) :
    FailsOnly Handled (Sidecar.load path content) := by
  refine fails_only_attempt_bind (Inspection.fails_only_read_file path) fun result hresult => ?_
  split
  · refine Inspection.fails_only_of_except fun failure h => ?_
    unfold Sidecar.read at h
    split at h
    · obtain rfl := Except.error.inj h
      exact .inl rfl
    · split at h
      · obtain rfl := Except.error.inj h
        exact .inl rfl
      · obtain rfl := Except.error.inj h
        exact .inr (.numeral _)
      · unfold Sidecar.ofTable at h
        dsimp only at h
        split at h
        · cases h
        · obtain rfl := Except.error.inj h
          exact .inl rfl
  · exact Inspection.fails_only_charge (hresult _ rfl) rfl

/-- A path has a sidecar unless it has no last name. -/
theorem Sidecar.handled_of_path_for {path : Path} {failure : Failure}
    (h : Sidecar.pathFor path = .error failure) : failure.Handled := by
  unfold Sidecar.pathFor at h
  split at h
  · obtain rfl := Except.error.inj h
    exact .inr (.noName path)
  · cases h

namespace Operation

variable {α : Type} {p : Failure → Prop}

theorem fails_only_tell (notice : Notice) : FailsOnly p (tell notice) := fails_only_modify _

/-- A look at the disk fails as the inspection does. -/
theorem fails_only_look {x : Inspection α} (hx : FailsOnly p x) : FailsOnly p (look x) := by
  intro host progress failure hfailure
  rw [outcome_look] at hfailure
  exact hx ⟨host, progress.disk⟩ [] failure hfailure

/-- A change of the disk is refused by the disk or made at a path with a null character. -/
theorem fails_only_change (action : Disk → Path → Except Refusal Disk) (path : Path) :
    FailsOnly Raw (change action path) := by
  refine fails_only_guard (.inr (.inr .null)) ?_
  refine fails_only_bind fails_only_get fun progress => ?_
  split
  · exact fails_only_set _
  · exact fails_only_throw (.inl rfl)

/-- Once the failures of the disk are explained, there are none of them left. -/
theorem fails_only_explain {reason : Failure → Failure}
    (hreason : ∀ failure, (reason failure).isExpected = true) {x : Operation α}
    (hx : FailsOnly Raw x) : FailsOnly Handled (explain reason x) := by
  refine fails_only_try_catch hx fun failure hraw => ?_
  split
  · exact fails_only_throw (.inl (hreason failure))
  · next hdisk => exact fails_only_throw (hraw.resolve_left hdisk)

theorem fails_only_make_directory (path : Path) : FailsOnly Raw (makeDirectory path) := by
  refine fails_only_attempt_bind (fails_only_change _ path) fun result hresult => ?_
  split
  · exact fails_only_pure _
  · exact fails_only_throw (.inl rfl)
  · refine fails_only_bind ((fails_only_look (Inspection.fails_only_is_directory path)).mono
      fun _ => .inr) fun found => ?_
    split
    · exact fails_only_throw (hresult _ rfl)
    · exact fails_only_pure _

theorem fails_only_make_directories (path : Path) : FailsOnly Raw (makeDirectories path) := by
  rw [makeDirectories]
  refine fails_only_attempt_bind (fails_only_make_directory path) fun result hresult => ?_
  split
  · split
    · exact fails_only_throw (.inl rfl)
    · next hnames =>
        exact fails_only_bind (fails_only_make_directories path.parent) fun _ =>
          fails_only_make_directory path
  · exact fails_only_throw (hresult _ rfl)
  · exact fails_only_pure _
termination_by path.names.length
decreasing_by
  have := List.length_pos_iff.2 ‹¬path.names = []›
  simp only [Path.parent, List.length_dropLast]
  omega

theorem fails_only_create_file (written : Text) : FailsOnly Handled (createFile written) := by
  refine fails_only_bind (fails_only_look (Inspection.fails_only_expand written)) fun path => ?_
  refine fails_only_bind (fails_only_look (Inspection.fails_only_is_file path)) fun found => ?_
  split
  · exact fails_only_pure _
  · refine fails_only_bind (fails_only_explain (fun _ => rfl) ?_) fun _ => fails_only_pure _
    exact fails_only_bind (fails_only_make_directories path.parent) fun _ =>
      fails_only_change _ path

/-- A number that is no permission bits because of its form belongs to a file. -/
theorem fails_only_set_permissions (path : Path) (permissions : Int) :
    FailsOnly Handled (setPermissions path permissions) := by
  unfold setPermissions
  split
  · exact fails_only_bind (fails_only_explain (fun _ => rfl) (fails_only_change _ path)) fun _ =>
      fails_only_tell _
  · split
    · split
      · exact fails_only_throw (.inl rfl)
      · exact fails_only_throw (.inr (.numeral _))
    · next hformal => exact fails_only_throw (.inr (.permissions (by simpa using hformal)))

/-- Where no permissions are asked for, nothing fails. -/
theorem fails_only_permissions (permissions : Option Int) (path : Path) :
    FailsOnly Handled (match permissions with
      | some permissions => setPermissions path permissions
      | none => pure ()) := by
  cases permissions with
  | none => exact fails_only_pure _
  | some permissions => exact fails_only_set_permissions path permissions

end Operation

namespace Sidecar

/-- A computation fails at its first step or afterwards. -/
theorem error_of_bind {ε α β : Type} {x : Except ε α} {f : α → Except ε β} {e : ε}
    (h : x >>= f = .error e) : x = .error e ∨ ∃ a, x = .ok a ∧ f a = .error e := by
  cases x with
  | error e' =>
      obtain rfl := Except.error.inj h
      exact .inl rfl
  | ok a => exact .inr ⟨a, rfl, h⟩

/-- An entry with an integer is written unless the numeral is too long. -/
theorem handled_of_integer_entry {key : String} {n : Int} {failure : Failure}
    (h : integerEntry key n = .error failure) : failure.Handled := by
  unfold integerEntry at h
  split at h
  · cases h
  · next fault _ =>
      obtain rfl := Except.error.inj h
      exact .inr (.numeral fault)

/-- The text of a sidecar is written unless a numeral is too long. -/
theorem handled_of_write {s : Sidecar} {failure : Failure} (h : s.write = .error failure) :
    failure.Handled := by
  have hfinish : ∀ permissions, (do
      let formatVersion ← integerEntry "syntaxversion" s.formatVersion
      pure (textEntry "hash" s.accepted ++ textEntry "parent" s.fileName ++
        optionalEntry "target" s.target ++ optionalEntry "source" s.source ++ permissions ++
        textEntry "imosidversion" s.version ++ formatVersion)) = Except.error failure →
      failure.Handled := by
    intro permissions h
    rcases error_of_bind h with h | ⟨_, -, h⟩
    · exact handled_of_integer_entry h
    · cases h
  unfold write at h
  cases hpermissions : s.permissions with
  | none =>
      rw [hpermissions] at h
      exact hfinish [] h
  | some n =>
      rw [hpermissions] at h
      rcases error_of_bind h with h | ⟨permissions, -, h⟩
      · exact handled_of_integer_entry h
      · exact hfinish permissions h

theorem fails_only_save (s : Sidecar) : FailsOnly Handled s.save := by
  unfold save
  split
  · next failure hwrite => exact fails_only_throw (handled_of_write hwrite)
  · exact Operation.fails_only_explain (fun _ => rfl) (Operation.fails_only_change _ s.path)

end Sidecar

namespace Document

theorem fails_only_of_octets (path : Path) (content : Bytes) (isReadOnly : Bool)
    (commentPrefix : Option Text) (config : Config) :
    FailsOnly Handled (ofOctets path content isReadOnly commentPrefix config) := by
  unfold ofOctets
  split
  · exact fails_only_throw (.inl rfl)
  · exact fails_only_bind (Inspection.fails_only_tell_all _) fun _ => fails_only_pure _

theorem fails_only_of_opened (path : Path) (content : Bytes) (isReadOnly : Bool)
    (commentPrefix : Option Text) (config : Config) :
    FailsOnly Handled (ofOpened path content isReadOnly commentPrefix config) := by
  refine fails_only_bind (Inspection.fails_only_of_except fun failure h =>
    Sidecar.handled_of_path_for h) fun sidecarPath => ?_
  refine fails_only_bind (Inspection.fails_only_is_file sidecarPath) fun found => ?_
  split
  · exact fails_only_bind (Sidecar.fails_only_load sidecarPath content) fun _ => fails_only_pure _
  · exact fails_only_of_octets path content isReadOnly commentPrefix config

/-- Reading a file fails with a failure that concerns the file or with one that ends a run. -/
theorem fails_only_load (written : Text) (commentPrefix : Option Text) (config : Config) :
    FailsOnly Handled (load written commentPrefix config) := by
  refine fails_only_bind (Inspection.fails_only_expand written) fun path => ?_
  refine fails_only_bind (Inspection.fails_only_open_file path) fun opened => ?_
  have hrest := fails_only_of_opened path opened.1 opened.2 commentPrefix config
  dsimp only
  split
  · exact fails_only_bind (Inspection.fails_only_tell _) fun _ => hrest
  · exact hrest

theorem fails_only_plan_creation (source : Document) (target : Path) :
    FailsOnly Handled (source.planCreation target) := by
  unfold planCreation
  split
  · exact fails_only_bind (Inspection.fails_only_tell _) fun _ => fails_only_pure _
  · split
    · exact fails_only_bind (Inspection.fails_only_tell _) fun _ => fails_only_pure _
    · exact fails_only_pure _

theorem fails_only_plan_update (source : Document) (path : Path) (config : Config) :
    FailsOnly Handled (source.planUpdate path config) := by
  refine fails_only_bind (fails_only_load _ _ config) fun target => ?_
  refine fails_only_bind (Inspection.fails_only_tell_all _) fun _ => ?_
  split
  · exact fails_only_pure _
  · split <;> exact fails_only_pure _

theorem fails_only_plan (source : Document) (config : Config) :
    FailsOnly Handled (source.plan config) := by
  unfold plan
  split
  · exact fails_only_bind (Inspection.fails_only_tell _) fun _ => fails_only_pure _
  · refine fails_only_bind (Inspection.fails_only_expand _) fun path => ?_
    refine fails_only_bind (Inspection.fails_only_is_file path) fun found => ?_
    split
    · exact fails_only_plan_update source path config
    · exact fails_only_plan_creation source path

/-- Writing a document fails because of a file or with a failure that ends a run. -/
theorem fails_only_save_to (d : Document) (path : Path) : FailsOnly Handled (d.saveTo path) := by
  refine fails_only_bind (Operation.fails_only_explain (fun _ => rfl) ?_) fun _ => ?_
  · unfold saveContent
    split
    · exact fails_only_bind (Operation.fails_only_change _ path) fun _ =>
        (Sidecar.fails_only_save _).mono fun _ => .inr
    · exact Operation.fails_only_change _ path
  · exact Operation.fails_only_permissions d.permissions path

theorem fails_only_save (d : Document) : FailsOnly Handled d.save := by
  unfold save
  split
  · exact fails_only_throw (.inl rfl)
  · next path _ =>
      refine fails_only_guard (.inl rfl) ?_
      exact fails_only_bind (fails_only_save_to d path) fun _ => fails_only_pure _

theorem fails_only_create_with_sections (source : Document) (target : Path) :
    FailsOnly Handled (source.createWithSections target) :=
  fails_only_bind (fails_only_save _) fun _ => fails_only_pure _

theorem fails_only_create_with_sidecar (source : Document) (s : Sidecar) (target : Path) :
    FailsOnly Handled (source.createWithSidecar s target) := by
  refine fails_only_bind (Operation.fails_only_explain (fun _ => rfl)
    (Operation.fails_only_change _ target)) fun _ => ?_
  refine fails_only_bind (Operation.fails_only_look (Inspection.fails_only_of_except fun _ h =>
    Sidecar.handled_of_path_for h)) fun sidecarPath => ?_
  have hrest (created : Sidecar) {finish : Operation Unit} (h : FailsOnly Handled finish) :
      FailsOnly Handled (do created.accept.save; finish) :=
    fails_only_bind (Sidecar.fails_only_save _) fun _ => h
  dsimp only
  split
  · exact hrest _ (Operation.fails_only_permissions s.permissions target)
  · exact fails_only_bind (Operation.fails_only_look (Inspection.fails_only_resolve _)) fun _ =>
      hrest _ (Operation.fails_only_permissions s.permissions target)

end Document

theorem Plan.fails_only_carry_out (source : Document) (plan : Plan) :
    FailsOnly Handled (plan.carryOut source) := by
  cases plan with
  | skip => exact fails_only_pure _
  | keep => exact fails_only_pure _
  | create target =>
      refine fails_only_bind (Operation.fails_only_create_file _) fun _ => ?_
      have htell : ∀ _ : Unit, FailsOnly Handled
          (Operation.tell (.appliedToCreate source.name target)) :=
        fun _ => Operation.fails_only_tell _
      dsimp only
      split
      · exact fails_only_bind (source.fails_only_create_with_sidecar _ target) htell
      · exact fails_only_bind (source.fails_only_create_with_sections target) htell
  | update path target =>
      exact fails_only_bind target.fails_only_save fun _ => Operation.fails_only_tell _

/-- Applying the document at a path fails with a failure that concerns a file or with one that ends a
run. -/
theorem Operation.fails_only_apply_path (commentPrefix : Option Text) (config : Config) (path : Path) :
    FailsOnly Handled (applyPath commentPrefix config path) := by
  refine fails_only_bind (fails_only_look (Document.fails_only_load _ _ config)) fun source => ?_
  split
  · exact fails_only_pure _
  · refine fails_only_map ?_
    refine fails_only_bind (fails_only_look (source.fails_only_plan config)) fun plan => ?_
    exact fails_only_bind (plan.fails_only_carry_out source) fun _ => fails_only_pure _

/-- A dry run fails as far as applying a document does before anything is written. -/
theorem Inspection.fails_only_dry_apply_path (commentPrefix : Option Text) (config : Config)
    (path : Path) : FailsOnly Handled (dryApplyPath commentPrefix config path) := by
  refine fails_only_bind (Document.fails_only_load _ _ config) fun source => ?_
  split
  · exact fails_only_pure _
  · refine fails_only_map ?_
    refine fails_only_bind (source.fails_only_plan config) fun plan => ?_
    refine fails_only_bind ?_ fun _ => fails_only_pure _
    unfold Plan.announce
    split
    · exact fails_only_tell _
    all_goals exact fails_only_pure _

end TrackedSections
