import RxRust.Stream.Observers

/-!
# Fusing stages

Every processor but `Unzip` and `Take` hands on one value for one, and such stages in a row can be
one `Reduce` that keeps the states of all of them.  So a pipeline, however long, is as good as one
in which a `Reduce` stands before, between and after its `Take`s and `Unzip`s and nothing else does.
Stages that only look are left out first: they are no part of what the pipeline computes, and the
state of a `Reduce` is copied.

* `Proc.one?` — what a processor makes of one value, if that is one value.
* `Chain.fuse` — the pipeline without its observers and with its stages fused.
* `reduce_comp` — a `Reduce` and a stage after it are a `Reduce`.
* **`fuse_pushed`** — a pipeline and its fused one do the same to whatever subscriber is at the end,
  and give the same answers; and the fused one has no more stages than it needs.
-/

namespace Rx

open Core

namespace Proc

variable {σ : Type} {N : Type → Type} {I O : Type}

/-- What the processor makes of one value, if that is always one value. -/
def one? : Proc σ N I O → Option (σ → I → σ × O)
  | doDebug => some fun s t => (s ++ [t], t)
  | debugWhile f => some fun s t => (if f t then s ++ [t] else s, t)
  | doEach _ => some fun s t => (s ++ [t], t)
  | map f => some fun s t => (s, f t)
  | mapVal1 v f => some fun s t => (s, f t v)
  | reduce _ f => some f
  | enumerate => some fun s t => (s + 1, (t, s))
  | tee q _ => some fun s t => ((q.send s t).1, t)
  | unzip => none
  | take _ => none

lemma push_of_one? {p : Proc σ N I O} {g : σ → I → σ × O} (h : p.one? = some g) (s : σ) (t : I) :
    p.push s t = ((g s t).1, [Signal.next (g s t).2]) := by
  cases p with
  | unzip => cases h
  | take max => cases h
  | _ =>
      obtain rfl := Option.some.inj h
      rfl

end Proc

namespace Chain

variable {σ τ : Type} {F : Type → Type} {I A B O : Type}

/-- The `Reduce` of a function, and then a processor. -/
def andThen {V : Type} (f : V → I → V × A) (g : σ → A → σ × B) : V × σ → I → (V × σ) × B :=
  fun v x =>
    let r := f v.1 x
    let q := g v.2 r.2
    ((r.1, q.1), q.2)

/-- The chain behind a `Reduce` that takes in as many of its stages as it can. -/
def fuseFrom : {V I A : Type} → V → (V → I → V × A) → {σ : Type} → {F : Type → Type} → {O : Type} →
    Chain σ F A O → Packed I O
  | _, _, _, initial, f, _, _, _, nil => ⟨cons (Proc.reduce initial f) nil⟩
  | _, _, _, initial, f, _, _, _, cons p rest =>
      match p.one? with
      | some g => fuseFrom (initial, p.init) (andThen f g) rest
      | none => ⟨cons (Proc.reduce initial f)
          (cons p (fuseFrom () (fun u x => (u, x)) rest).chain)⟩

/-- The chain without its observers, with its stages fused. -/
def fuse (c : Chain σ F I O) : Packed I O := fuseFrom () (fun u x => (u, x)) c.erase.chain

/-- The number of its processors. -/
def stages : {σ : Type} → {F : Type → Type} → {I O : Type} → Chain σ F I O → ℕ
  | _, _, _, _, nil => 0
  | _, _, _, _, cons _ rest => rest.stages + 1

/-- The number of its `Unzip`s and `Take`s. -/
def cuts : {σ : Type} → {F : Type → Type} → {I O : Type} → Chain σ F I O → ℕ
  | _, _, _, _, nil => 0
  | _, _, _, _, cons p rest => if p.one?.isNone then rest.cuts + 1 else rest.cuts

/-- **A `Reduce` and a stage after it are a `Reduce`.** -/
lemma reduce_comp {V : Type} (initial : V) (f : V → I → V × A) {N : Type → Type}
    {p : Proc σ N A B} {g : σ → A → σ × B} (h : p.one? = some g) :
    (Proc.reduce initial f).transducer.comp p.transducer
      = (Proc.reduce (initial, p.init) (andThen f g)).transducer := by
  refine congrArg Transducer.mk (funext fun v => funext fun c => ?_)
  cases c with
  | next t =>
      have hfirst : (Proc.reduce initial f).push v.1 t
          = ((f v.1 t).1, [Signal.next (f v.1 t).2]) := rfl
      have hboth : (Proc.reduce (initial, p.init) (andThen f g)).push v t
          = ((andThen f g v t).1, [Signal.next (andThen f g v t).2]) := rfl
      simp [hfirst, hboth, Proc.push_of_one? h, andThen]
  | complete b => simp
  | error e => simp

lemma fuseFrom_some {V : Type} (initial : V) (f : V → I → V × A) {N : Type → Type}
    {p : Proc σ N A B} {g : σ → A → σ × B} (h : p.one? = some g) (rest : Chain τ F B O) :
    fuseFrom initial f (cons p rest) = fuseFrom (initial, p.init) (andThen f g) rest := by
  simp only [fuseFrom, h]

lemma fuseFrom_none {V : Type} (initial : V) (f : V → I → V × A) {N : Type → Type}
    {p : Proc σ N A B} (h : p.one? = none) (rest : Chain τ F B O) :
    fuseFrom initial f (cons p rest) = ⟨cons (Proc.reduce initial f)
      (cons p (fuseFrom () (fun u x => (u, x)) rest).chain)⟩ := by
  simp only [fuseFrom, h]

/-- The fused chain writes the same for every call. -/
lemma fuseFrom_outputs (c : Chain σ F A O) {V : Type} (initial : V) (f : V → I → V × A)
    (cs : List (Signal I)) :
    ((Proc.reduce initial f).transducer.comp c.transducer).outputs (initial, c.init) cs
      = (fuseFrom initial f c).chain.transducer.outputs (fuseFrom initial f c).chain.init cs := by
  induction c generalizing V I with
  | nil => rfl
  | @cons σ τ N F A B O p rest ih =>
      cases hone : p.one? with
      | some g =>
          rw [fuseFrom_some initial f hone, ← ih, ← reduce_comp initial f hone]
          exact Transducer.outputs_comp_assoc _ _ _ _ _ _ _
      | none =>
          rw [fuseFrom_none initial f hone]
          refine Transducer.outputs_comp_congr _ (fun bs => ?_) _ cs
          refine Transducer.outputs_comp_congr _ (fun ds => ?_) _ bs
          -- the next `Reduce` begins as one that copies
          rw [← ih]
          refine (Transducer.outputs_comp_copy ?_ _ _ _ ds).symm
          intro s d
          cases d <;> rfl

lemma fuse_outputs (c : Chain σ F I O) (cs : List (Signal I)) :
    c.transducer.outputs c.init cs = c.fuse.chain.transducer.outputs c.fuse.chain.init cs := by
  rw [fuse, ← fuseFrom_outputs, erase_outputs]
  refine (Transducer.outputs_comp_copy ?_ _ _ _ cs).symm
  intro s d
  cases d <;> rfl

lemma fuseFrom_stages (c : Chain σ F A O) {V : Type} (initial : V) (f : V → I → V × A) :
    (fuseFrom initial f c).chain.stages = 2 * c.cuts + 1 := by
  induction c generalizing V I with
  | nil => rfl
  | @cons σ τ N F A B O p rest ih =>
      cases hone : p.one? with
      | some g => rw [fuseFrom_some initial f hone, ih, cuts, hone]; rfl
      | none =>
          rw [fuseFrom_none initial f hone, stages, stages, ih, cuts, hone, Option.isNone_none,
            if_pos rfl]
          omega

lemma erase_cuts (c : Chain σ F I O) : c.erase.chain.cuts = c.cuts := by
  induction c with
  | nil => rfl
  | @cons σ τ N F I O R p rest ih =>
      rw [cuts, ← ih]
      cases p <;> rfl

section Pushed

variable {m : Type → Type} [Monad m] [Panics m] [LawfulMonad m] {T : Type}

/-- **Fusion.**  Every chain and its fused chain do the same: whatever subscriber is at the end,
with whatever effects, and whatever calls are made at the top, it ends in the same state and every
`on_next` is answered the same.  The fused chain has one `Reduce` more than it has other stages,
which are the chain's `Unzip`s and `Take`s. -/
theorem fuse_pushed (c : Chain σ F I O) (sub : Subscriber m T O) (t : T) (cs : List (Signal I)) :
    c.pushed sub t cs = c.fuse.chain.pushed sub t cs ∧ c.fuse.chain.stages = 2 * c.cuts + 1 := by
  refine ⟨?_, ?_⟩
  · rw [pushed_eq, pushed_eq, fuse_outputs]
  · rw [fuse, fuseFrom_stages, erase_cuts]

/-- Numbering and adding around a `Take` of two, given three numbers. -/
theorem fuse_pushed_numbered :
    let c := cons Proc.doDebug (cons (Proc.map fun x : ℕ => x + 1) (cons (Proc.take 2)
      (cons Proc.enumerate (cons (Proc.map fun p : ℕ × UInt64 => p.1) nil))))
    let sub : Subscriber Outcome (Watched (List ℕ) ℕ) ℕ := (Collect ℕ).subscriber
    (∃ w, c.pushed sub ⟨[], []⟩ [Signal.next 7, Signal.next 8, Signal.next 9]
      = Outcome.ret (some w, [true, true, false]) ∧ w.state = [8, 9]) ∧
      c.fuse.chain.stages = 3 := by
  intro c sub
  have h := fuse_pushed c sub ⟨[], []⟩ [Signal.next 7, Signal.next 8, Signal.next 9]
  refine ⟨⟨⟨[8, 9], [Received.next 8 true, Received.next 9 true, Received.complete false]⟩, ?_,
    rfl⟩, h.2⟩
  rw [h.1]
  rfl

end Pushed

end Chain

end Rx
