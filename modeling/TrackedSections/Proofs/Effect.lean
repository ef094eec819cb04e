import TrackedSections.Failure

/-!
# Running operations step by step

Looking at the disk, pulling from sources and changing the disk are operations of one kind: they see an
environment, may fail, and have a state that survives a failure. `Effect.outcome` runs one, and its
equations run it step by step. `Effect.Maintains` says of an operation that it keeps a property of
the state whether it fails or not; `maintains_bind` and its companions prove that along the text of
the operation.
-/

namespace TrackedSections

/-- An operation that sees an environment, may fail, and has a state that survives the failure. -/
abbrev Effect (ρ σ α : Type) : Type := ReaderT ρ (ExceptT Failure (StateM σ)) α

namespace Effect

variable {ρ σ α β : Type}

/-- A value that may be had was computed without a failure. -/
theorem ok_of_to_option {ε : Type} {x : Except ε α} {a : α} (h : x.toOption = some a) : x = .ok a := by
  cases x with
  | error e => cases h
  | ok b => exact congrArg Except.ok (Option.some.inj h)

/-- A value that there is was computed without a failure. -/
theorem ok_of_is_some {ε α : Type} {x : Except ε α} (h : x.toOption.isSome = true) (a : α) :
    x = .ok (x.toOption.getD a) := by
  cases x with
  | error e => cases h
  | ok b => rfl

/-- What is done to a result does not make it fail. -/
theorem error_of_map {ε α β : Type} {x : Except ε α} {f : α → β} {e : ε}
    (h : x.map f = .error e) : x = .error e := by
  cases x with
  | ok a => cases h
  | error e' => exact congrArg _ (Except.error.inj h)

@[simp] theorem map_error_ok {ε ε' : Type} (f : ε → ε') (a : α) :
    (Except.ok a : Except ε α).mapError f = .ok a :=
  rfl

@[simp] theorem map_error_error {ε ε' : Type} (f : ε → ε') (e : ε) :
    (Except.error e : Except ε α).mapError f = .error (f e) :=
  rfl

/-- The outcome of an operation and the state after it. -/
def outcome (x : Effect ρ σ α) (env : ρ) (s : σ) : Except Failure α × σ := (x.run env).run.run s

@[simp] theorem outcome_pure (a : α) (env : ρ) (s : σ) :
    outcome (pure a : Effect ρ σ α) env s = (.ok a, s) :=
  rfl

@[simp] theorem outcome_throw (failure : Failure) (env : ρ) (s : σ) :
    outcome (throw failure : Effect ρ σ α) env s = (.error failure, s) :=
  rfl

@[simp] theorem outcome_read (env : ρ) (s : σ) :
    outcome (read : Effect ρ σ ρ) env s = (.ok env, s) :=
  rfl

@[simp] theorem outcome_get (env : ρ) (s : σ) : outcome (get : Effect ρ σ σ) env s = (.ok s, s) :=
  rfl

@[simp] theorem outcome_set (env : ρ) (s s' : σ) :
    outcome (set s' : Effect ρ σ PUnit) env s = (.ok ⟨⟩, s') :=
  rfl

@[simp] theorem outcome_modify (f : σ → σ) (env : ρ) (s : σ) :
    outcome (modify f : Effect ρ σ PUnit) env s = (.ok ⟨⟩, f s) :=
  rfl

/-- An operation after another one runs in the state that the other one leaves, unless that fails. -/
theorem outcome_bind (x : Effect ρ σ α) (f : α → Effect ρ σ β) (env : ρ) (s : σ) :
    outcome (x >>= f) env s =
      match outcome x env s with
      | (.ok a, s') => outcome (f a) env s'
      | (.error failure, s') => (.error failure, s') := by
  show (ExceptT.bindCont (fun a => (f a).run env) (outcome x env s).1).run (outcome x env s).2 = _
  rcases outcome x env s with ⟨_ | a, s'⟩ <;> rfl

/-- The value of an operation may be changed afterwards. -/
theorem outcome_map (f : α → β) (x : Effect ρ σ α) (env : ρ) (s : σ) :
    outcome (f <$> x) env s = ((outcome x env s).1.map f, (outcome x env s).2) := by
  show outcome (x >>= fun a => pure (f a)) env s = _
  rw [outcome_bind]
  rcases outcome x env s with ⟨_ | a, s'⟩ <;> rfl

/-- An operation that gives a value gave one at each step. -/
theorem ok_of_bind {x : Effect ρ σ α} {f : α → Effect ρ σ β} {env : ρ} {s s'' : σ} {b : β}
    (h : outcome (x >>= f) env s = (.ok b, s'')) :
    ∃ a s', outcome x env s = (.ok a, s') ∧ outcome (f a) env s' = (.ok b, s'') := by
  rw [outcome_bind] at h
  cases hx : outcome x env s with
  | mk first s' =>
      rw [hx] at h
      cases first with
      | error failure => cases h
      | ok a => exact ⟨a, s', rfl, h⟩

/-- An operation goes on after a step that gives a value. -/
theorem bind_of_ok {x : Effect ρ σ α} {f : α → Effect ρ σ β} {env : ρ} {s s' : σ} {a : α}
    (h : outcome x env s = (.ok a, s')) : outcome (x >>= f) env s = outcome (f a) env s' := by
  rw [outcome_bind, h]

/-- What is done about a failure runs in the state that the failed operation leaves. -/
theorem outcome_try_catch (x : Effect ρ σ α) (handle : Failure → Effect ρ σ α) (env : ρ) (s : σ) :
    outcome (tryCatch x handle) env s =
      match outcome x env s with
      | (.ok a, s') => (.ok a, s')
      | (.error failure, s') => outcome (handle failure) env s' := by
  simp only [outcome, tryCatch, tryCatchThe, MonadExceptOf.tryCatch, ExceptT.tryCatch, ExceptT.run,
    ExceptT.mk, ReaderT.run, StateT.run, bind, StateT.bind]
  rcases x env s with ⟨_ | a, s'⟩ <;> rfl

/-! ## Properties of the state -/

/-- An operation maintains a property when the state has it afterwards if it had it before, whatever
the outcome. -/
def Maintains (p : σ → Prop) (x : Effect ρ σ α) : Prop := ∀ env s, p s → p (outcome x env s).2

variable {p : σ → Prop}

/-- The state after an operation that maintains a property has it. -/
theorem Maintains.of_outcome {x : Effect ρ σ α} (h : Maintains p x) {env : ρ} {s s' : σ}
    {result : Except Failure α} (hs : p s) (hx : outcome x env s = (result, s')) : p s' := by
  have hs' := h env s hs
  rw [hx] at hs'
  exact hs'

theorem maintains_pure (a : α) : Maintains p (pure a : Effect ρ σ α) := fun _ _ h => h

theorem maintains_throw (failure : Failure) : Maintains p (throw failure : Effect ρ σ α) :=
  fun _ _ h => h

theorem maintains_modify {f : σ → σ} (h : ∀ s, p s → p (f s)) :
    Maintains p (modify f : Effect ρ σ PUnit) :=
  fun _ s hs => h s hs

/-- Two operations one after the other maintain what each of them does. -/
theorem maintains_bind {x : Effect ρ σ α} {f : α → Effect ρ σ β} (hx : Maintains p x)
    (hf : ∀ a, Maintains p (f a)) : Maintains p (x >>= f) := by
  intro env s hs
  have hs' := hx env s hs
  rw [outcome_bind]
  generalize outcome x env s = result at hs' ⊢
  rcases result with ⟨failure | a, s'⟩
  · exact hs'
  · exact hf a env s' hs'

/-- What holds after a step, and after each way to go on from a value that the step gives, holds after
both. -/
theorem of_bind {x : Effect ρ σ α} {f : α → Effect ρ σ β} {env : ρ} {s : σ}
    (hx : p (outcome x env s).2)
    (hf : ∀ a s', outcome x env s = (.ok a, s') → p (outcome (f a) env s').2) :
    p (outcome (x >>= f) env s).2 := by
  rw [outcome_bind]
  cases hresult : outcome x env s with
  | mk first s' =>
      cases first with
      | error failure => simpa only [hresult] using hx
      | ok a => exact hf a s' hresult

/-- Changing the value of an operation does not change what it maintains. -/
theorem maintains_map {f : α → β} {x : Effect ρ σ α} (hx : Maintains p x) :
    Maintains p (f <$> x) := by
  intro env s hs
  rw [outcome_map]
  exact hx env s hs

/-- An operation that starts by looking at the state may use the property of it. -/
theorem maintains_get_bind {f : σ → Effect ρ σ β} (hf : ∀ s, p s → Maintains p (f s)) :
    Maintains p (get >>= f) := by
  intro env s hs
  rw [outcome_bind, outcome_get]
  exact hf s hs env s hs

/-- What is done about a failure maintains a property when the rest does. -/
theorem maintains_try_catch {x : Effect ρ σ α} {handle : Failure → Effect ρ σ α}
    (hx : Maintains p x) (hhandle : ∀ failure, Maintains p (handle failure)) :
    Maintains p (tryCatch x handle) := by
  intro env s hs
  have hs' := hx env s hs
  rw [outcome_try_catch]
  generalize outcome x env s = result at hs' ⊢
  rcases result with ⟨failure | a, s'⟩
  · exact hhandle failure env s' hs'
  · exact hs'

/-- Doing something for each element of a list maintains what doing it once does. -/
theorem maintains_for_m {xs : List α} {f : α → Effect ρ σ PUnit} (hf : ∀ a ∈ xs, Maintains p (f a)) :
    Maintains p (xs.forM f) := by
  induction xs with
  | nil => exact maintains_pure _
  | cons a xs ih =>
      obtain ⟨ha, hxs⟩ := List.forall_mem_cons.1 hf
      exact maintains_bind ha fun _ => ih hxs

end Effect

end TrackedSections
