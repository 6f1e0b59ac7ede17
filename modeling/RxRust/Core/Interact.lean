import RxRust.Core.Outcome

/-!
# Programs that ask

A program that runs beside others cannot be a function of its input: at each request to the outside
it stops, and goes on with whatever reply it gets, whenever that comes.  `Interact` is such a
program as a tree: it has returned, it has panicked, or it asks and has a continuation for every
reply.

* `Interact` — the programs, with their monad; `LawfulMonad` is by induction on the first program.
-/

namespace Core

/-- A program with requests of type `Q` and replies of type `R`. -/
inductive Interact (Q R : Type) (α : Type) where
  | ret (a : α)
  | panic (msg : String)
  | ask (q : Q) (k : R → Interact Q R α)

namespace Interact

variable {Q R α β : Type}

/-- Run the second program on what the first returned. -/
def bind : Interact Q R α → (α → Interact Q R β) → Interact Q R β
  | ret a, f => f a
  | panic msg, _ => panic msg
  | ask q k, f => ask q fun r => bind (k r) f

instance : Monad (Interact Q R) where
  pure := ret
  bind := bind

instance : Panics (Interact Q R) where
  panic := panic

@[simp] lemma pure_eq (a : α) : (pure a : Interact Q R α) = ret a := rfl
@[simp] lemma ret_bind (a : α) (f : α → Interact Q R β) : (ret a >>= f) = f a := rfl
@[simp] lemma ask_bind (q : Q) (k : R → Interact Q R α) (f : α → Interact Q R β) :
    (ask q k >>= f) = ask q fun r => k r >>= f := rfl
@[simp] lemma map_ret (f : α → β) (a : α) : f <$> (ret a : Interact Q R α) = ret (f a) := rfl
@[simp] lemma map_ask (f : α → β) (q : Q) (k : R → Interact Q R α) :
    f <$> (ask q k) = ask q fun r => f <$> k r := rfl

instance : LawfulMonad (Interact Q R) := by
  refine LawfulMonad.mk' (Interact Q R) ?_ ?_ ?_
  · intro α x
    induction x with
    | ret a => rfl
    | panic msg => rfl
    | ask q k ih =>
        rw [map_ask]
        exact congrArg (ask q) (funext ih)
  · intro α β a f
    rfl
  · intro α β γ x f g
    induction x with
    | ret a => rfl
    | panic msg => rfl
    | ask q k ih =>
        simp only [ask_bind]
        exact congrArg (ask q) (funext ih)

end Interact

end Core
