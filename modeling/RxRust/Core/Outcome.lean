import Mathlib.Control.Basic

/-!
# What a call does

A call of a piece of imperative code either comes back with a value, panics, or has not come back
(it loops, or waits for something that has not happened).  `Outcome` keeps the three apart, so a
theorem that says "the call returns" cannot be confused with one that says "if it returns, then".

* `Outcome` — the three results, with its monad and the inversion lemma `bind_eq_ret`: a sequence
  of calls returns exactly when each of them does.
* `Panics` — the one operation besides `Monad` that generic code needs in order to give up.
-/

namespace Core

/-- The result of a call: it returned, it panicked, or it has not come back. -/
inductive Outcome (α : Type) where
  | ret (a : α)
  | panic (msg : String)
  | stuck
  deriving Repr, DecidableEq

namespace Outcome

variable {α β γ : Type}

/-- Run the second call on what the first one returned. -/
def bind : Outcome α → (α → Outcome β) → Outcome β
  | ret a, f => f a
  | panic msg, _ => panic msg
  | stuck, _ => stuck

instance : Monad Outcome where
  pure := ret
  bind := bind

@[simp] lemma pure_eq (a : α) : (pure a : Outcome α) = ret a := rfl
@[simp] lemma ret_bind (a : α) (f : α → Outcome β) : (ret a >>= f) = f a := rfl
@[simp] lemma panic_bind (msg : String) (f : α → Outcome β) :
    ((panic msg : Outcome α) >>= f) = panic msg := rfl
@[simp] lemma stuck_bind (f : α → Outcome β) : ((stuck : Outcome α) >>= f) = stuck := rfl

@[simp] lemma map_ret (f : α → β) (a : α) : f <$> (ret a : Outcome α) = ret (f a) := rfl
@[simp] lemma map_panic (f : α → β) (msg : String) :
    f <$> (panic msg : Outcome α) = panic msg := rfl
@[simp] lemma map_stuck (f : α → β) : f <$> (stuck : Outcome α) = stuck := rfl

instance : LawfulMonad Outcome := by
  refine LawfulMonad.mk' Outcome ?_ ?_ ?_
  · intro α x
    cases x <;> rfl
  · intro α β a f
    rfl
  · intro α β γ x f g
    cases x <;> rfl

/-- **A sequence returns exactly when both parts do.** -/
theorem bind_eq_ret {x : Outcome α} {f : α → Outcome β} {b : β} :
    (x >>= f) = ret b ↔ ∃ a, x = ret a ∧ f a = ret b := by
  cases x with
  | ret a => simp
  | panic msg => simp
  | stuck => simp

/-- A mapped call returns exactly when the call does. -/
lemma map_eq_ret {x : Outcome α} {f : α → β} {b : β} :
    f <$> x = ret b ↔ ∃ a, x = ret a ∧ f a = b := by
  cases x with
  | ret a => simp
  | panic msg => simp
  | stuck => simp

/-- A sequence panics exactly when the first part does, or it returns and the second one does. -/
lemma bind_eq_panic {x : Outcome α} {f : α → Outcome β} {msg : String} :
    (x >>= f) = panic msg ↔ x = panic msg ∨ ∃ a, x = ret a ∧ f a = panic msg := by
  cases x with
  | ret a => simp
  | panic msg => simp
  | stuck => simp

/-- A mapped call panics exactly when the call does. -/
lemma map_eq_panic {x : Outcome α} {f : α → β} {msg : String} :
    f <$> x = panic msg ↔ x = panic msg := by
  cases x with
  | ret a => simp
  | panic msg => simp
  | stuck => simp

/-- A guarded call returns exactly when the guard holds and the call returns. -/
lemma guard_eq_ret {p : Prop} [Decidable p] {x : Outcome α} {a : α} :
    (if p then x else stuck) = ret a ↔ p ∧ x = ret a := by
  by_cases h : p
  · simp [h]
  · simp [h]

end Outcome

/-- Code that can give up with a message. -/
class Panics (m : Type → Type) where
  panic : {α : Type} → String → m α

instance : Panics Outcome where
  panic := Outcome.panic

end Core
