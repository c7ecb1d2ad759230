import XrpLedger.Error

/-!
# Results of fallible steps

When a chain of steps that may fail has a result, each step has one. The proofs about readers and
codecs take their computations apart with these equivalences.

Steps may also change a state, and keep their changes when a later one fails. `settle` is the
outcome of a computation that does better: it changes the state as a whole or leaves it as it was.
-/

set_option autoImplicit false

namespace XrpLedger

variable {ε α β : Type}

/-- Two steps give a result exactly if the first gives one from which the second gives it. -/
theorem bind_eq_ok_iff {x : Except ε α} {f : α → Except ε β} {b : β} :
    (x >>= f) = .ok b ↔ ∃ a, x = .ok a ∧ f a = .ok b := by
  cases x with
  | error e => simp [bind, Except.bind]
  | ok a => simp [bind, Except.bind]

/-- A mapped result is one whose preimage was given. -/
theorem map_eq_ok_iff {x : Except ε α} {f : α → β} {b : β} :
    x.map f = .ok b ↔ ∃ a, x = .ok a ∧ f a = b := by
  cases x with
  | error e => simp [Except.map]
  | ok a => simp [Except.map]

/-- A failure of two steps is one of the first, or of the second after the first. -/
theorem bind_eq_error_iff {x : Except ε α} {f : α → Except ε β} {e : ε} :
    (x >>= f) = .error e ↔ x = .error e ∨ ∃ a, x = .ok a ∧ f a = .error e := by
  cases x with
  | error e' => simp [bind, Except.bind]
  | ok a => simp [bind, Except.bind]

/-- A computation without steps gives its value and nothing else. -/
theorem pure_eq_ok_iff {a b : α} : (pure a : Except ε α) = .ok b ↔ a = b := by
  simp [pure, Except.pure]

/-- A computation without steps does not fail. -/
theorem pure_ne_error {a : α} {e : ε} : (pure a : Except ε α) ≠ .error e := by
  simp [pure, Except.pure]

/-- A thrown error is no result. -/
theorem throw_ne_ok {e : ε} {b : α} : (throw e : Except ε α) ≠ .ok b := by
  simp [throw, throwThe, MonadExceptOf.throw]

/-- Errors renamed behind a result change nothing about what follows it. -/
theorem mapError_ok_bind {ε' : Type} (g : ε → ε') (a : α) (f : α → Except ε' β) :
    ((.ok a : Except ε α).mapError g >>= f) = f a := rfl

/-- A computation that undoes a function on every element undoes it on a list. -/
theorem mapM_map_eq_ok {γ : Type} {f : β → Except ε γ} {g : α → β} {h : α → γ}
    (hstep : ∀ a, f (g a) = .ok (h a)) (as : List α) : (as.map g).mapM f = .ok (as.map h) := by
  induction as with
  | nil => rfl
  | cons a as ih =>
    rw [List.map_cons, List.mapM_cons, hstep, ih]
    rfl

/-! ## Steps that change a state -/

section Stateful

variable {σ : Type}

/-- The answer and the state after a computation that changes the state only if it succeeds. -/
def settle (s : σ) : Except ε (α × σ) → Except ε α × σ
  | .ok (a, s') => (.ok a, s')
  | .error e => (.error e, s)

/-- Where settling an outcome fails, the state is the one before. -/
theorem settle_of_error {s : σ} {outcome : Except ε (α × σ)} {e : ε}
    (h : (settle s outcome).1 = .error e) : (settle s outcome).2 = s := by
  cases outcome with
  | error e' => rfl
  | ok result => cases h

/-- Settling fails exactly where the outcome is no result. -/
theorem settle_fails_iff {s : σ} {outcome : Except ε (α × σ)} :
    (∃ e, (settle s outcome).1 = .error e) ↔ ¬∃ result, outcome = .ok result := by
  cases outcome <;> simp [settle]

/-- A step goes on from the state that the step before it leaves, unless that one fails. -/
theorem run_bind (x : ExceptT ε (StateM σ) α) (f : α → ExceptT ε (StateM σ) β) (s : σ) :
    ((x >>= f).run s).run = match (x.run s).run with
      | (.ok a, s') => ((f a).run s').run
      | (.error e, s') => (.error e, s') := by
  show ExceptT.bindCont f (x s).1 (x s).2 = match x s with
    | (.ok a, s') => f a s'
    | (.error e, s') => (.error e, s')
  cases x s with
  | mk result s' => cases result <;> rfl

/-- A lifted result leaves the state as it is. -/
theorem run_liftExcept (result : Except ε α) (s : σ) :
    ((liftExcept result : ExceptT ε (StateM σ) α).run s).run = (result, s) := by
  cases result <;> rfl

/-- A value leaves the state as it is. -/
theorem run_pure (a : α) (s : σ) : ((pure a : ExceptT ε (StateM σ) α).run s).run = (.ok a, s) := rfl

/-- A thrown error leaves the state as it is. -/
theorem run_throw (e : ε) (s : σ) :
    ((throw e : ExceptT ε (StateM σ) α).run s).run = (.error e, s) := rfl

/-- The state is read without being changed. -/
theorem run_get (s : σ) : ((get : ExceptT ε (StateM σ) σ).run s).run = (.ok s, s) := rfl

/-- A change of the state answers nothing and does not fail. -/
theorem run_modify (change : σ → σ) (s : σ) :
    ((modify change : ExceptT ε (StateM σ) PUnit).run s).run = (.ok ⟨⟩, change s) := rfl

/-- A handler takes over in the state that the failure leaves. -/
theorem run_tryCatch (x : ExceptT ε (StateM σ) α) (handler : ε → ExceptT ε (StateM σ) α) (s : σ) :
    ((tryCatch x handler).run s).run = match (x.run s).run with
      | (.ok a, s') => (.ok a, s')
      | (.error e, s') => ((handler e).run s').run := by
  show ExceptT.tryCatch x handler s = match x s with
    | (.ok a, s') => (.ok a, s')
    | (.error e, s') => handler e s'
  simp only [ExceptT.tryCatch, ExceptT.mk, bind, StateT.bind]
  cases x s with
  | mk result s' => cases result <;> rfl

/-- A check in front keeps a computation one that changes the state only if it succeeds. -/
theorem run_liftExcept_bind {s : σ} {f : β → ExceptT ε (StateM σ) α} {g : β → Except ε (α × σ)}
    (result : Except ε β) (h : ∀ b, ((f b).run s).run = settle s (g b)) :
    ((liftExcept result >>= f).run s).run = settle s (result >>= g) := by
  cases result with
  | error e => rfl
  | ok b => exact h b

end Stateful

end XrpLedger
