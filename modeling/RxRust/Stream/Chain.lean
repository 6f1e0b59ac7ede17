import RxRust.Core.Transducer
import RxRust.Stream.Processors

/-!
# Chains of processors

A pipeline is put together by calling `subscribe` from the terminal end upwards.  `Proc` names the
processors of the library by the arguments of their `new`, and `Chain` is a well-typed sequence of
them; the queue of a `Tee` in a chain is one whose `send` comes back, and any such queue can be in a
chain (`Queue.exists_sendable_eq`).  Two readings of a chain are given and connected.

* `Chain.toSubscriber`, `Chain.build` — the boxed objects the Rust code makes: each processor holds
  the next one in its `subscriber` field.
* `Chain.transducer` — the chain as a machine on calls: what reaches the terminal subscriber does
  not depend on how that subscriber answers, because no stage looks at an answer before it hands on
  the next value.

**`Chain.feed_assemble`** connects them: making a list of calls on the boxed chain is making the
calls the transducer writes on the terminal subscriber, and the answer is the or of its answers.

The indices of `Proc` and `Chain` are the state a stage keeps (`σ`), the Rust object as a function
of the type behind its box (`N`), and the input and output types.
-/

namespace Rx

open Core

/-- A queue whose `send` always comes back: the queue that the `Tee` of a chain writes to.  Such is
an unbounded channel, or a bounded one whose receiver keeps making room or is gone; the `send` of a
`SyncSender` on a full channel that nobody reads waits, and is not one. -/
structure Queue (Q Item : Type) where
  send : Q → Item → Q × Except Item Unit

namespace Queue

variable {Q Item : Type}

/-- The queue seen through `Sendable`. -/
def sendable {m : Type → Type} [Monad m] (q : Queue Q Item) : Sendable m Q Item where
  send := fun tx t => pure (q.send tx t)

/-- Coming back is all that is asked of a queue. -/
lemma exists_sendable_eq (s : Sendable Outcome Q Item)
    (h : ∀ tx t, ∃ r, s.send tx t = Outcome.ret r) : ∃ q : Queue Q Item, q.sendable = s := by
  choose send hsend using h
  refine ⟨⟨send⟩, ?_⟩
  have hsame : (fun tx t => pure (send tx t)) = s.send := by
    funext tx t
    exact (hsend tx t).symm
  exact congrArg Sendable.mk hsame

end Queue

/-- The processors of the library. -/
inductive Proc : (σ : Type) → (N : Type → Type) → (I O : Type) → Type 1
  | doDebug {I : Type} : Proc (List I) (DoDebug I) I I
  | debugWhile {I : Type} (f : I → Bool) : Proc (List I) (DebugWhile I) I I
  | doEach {I : Type} (f : I → Unit) : Proc (List I) (Do I) I I
  | map {I O : Type} (f : I → O) : Proc Unit (Map I O) I O
  | mapVal1 {I V O : Type} (v : V) (f : I → V → O) : Proc Unit (MapVal1 I V O) I O
  | reduce {I V O : Type} (initial : V) (f : V → I → V × O) : Proc V (Reduce I V O) I O
  | enumerate {I : Type} : Proc UInt64 Enumerate I (I × UInt64)
  | tee {Q I : Type} (q : Queue Q I) (tx : Q) : Proc Q (Tee Q) I I
  | unzip {I : Type} : Proc Unit Unzip (I × I) I
  | take {I : Type} (max : UInt64) : Proc (UInt64 × Bool) Take I I

namespace Proc

variable {m : Type → Type} [Monad m] [Panics m]
variable {σ : Type} {N : Type → Type} {I O S : Type}

/-- The processor's `Subscriber` methods. -/
def toSubscriber (sub : Subscriber m S O) : Proc σ N I O → Subscriber m (N S) I
  | doDebug => DoDebug.toSubscriber sub
  | debugWhile _ => DebugWhile.toSubscriber sub
  | doEach _ => Do.toSubscriber sub
  | map _ => Map.toSubscriber sub
  | mapVal1 _ _ => MapVal1.toSubscriber sub
  | reduce _ _ => Reduce.toSubscriber sub
  | enumerate => Enumerate.toSubscriber sub
  | tee q _ => Tee.toSubscriber q.sendable sub
  | unzip => Unzip.toSubscriber sub
  | take _ => Take.toSubscriber sub

/-- `new` followed by `subscribe`. -/
def build (sub : Subscriber m S O) (s : S) : Proc σ N I O → N S
  | doDebug => DoDebug.new.subscribe sub s
  | debugWhile f => (DebugWhile.new f).subscribe sub s
  | doEach f => (Do.new f).subscribe sub s
  | map f => (Map.new f).subscribe sub s
  | mapVal1 v f => (MapVal1.new v f).subscribe sub s
  | reduce initial f => (Reduce.new initial f).subscribe sub s
  | enumerate => Enumerate.new.subscribe sub s
  | tee _ tx => (Tee.new tx).subscribe sub s
  | unzip => Unzip.new.subscribe sub s
  | take max => (Take.new max).subscribe sub s

/-- The boxed subscriber of a processor, if it has one. -/
def inner : Proc σ N I O → N S → Option S
  | doDebug, p => p.subscriber
  | debugWhile _, p => p.subscriber
  | doEach _, p => p.subscriber
  | map _, p => p.subscriber
  | mapVal1 _ _, p => p.subscriber
  | reduce _ _, p => p.subscriber
  | enumerate, p => p.subscriber
  | tee _ _, p => p.subscriber
  | unzip, p => p.subscriber
  | take _, p => p.subscriber

/-! ## The processor as a machine on calls -/

/-- The state a processor starts with. -/
def init : Proc σ N I O → σ
  | doDebug => []
  | debugWhile _ => []
  | doEach _ => []
  | map _ => ()
  | mapVal1 _ _ => ()
  | reduce initial _ => initial
  | enumerate => 0
  | tee _ tx => tx
  | unzip => ()
  | take _ => (0, false)

/-- What an `on_next` makes the processor do: its next state and the calls it makes downstream. -/
def push : Proc σ N I O → σ → I → σ × List (Signal O)
  | doDebug, printed, t => (printed ++ [t], [Signal.next t])
  | debugWhile f, printed, t => (if f t then printed ++ [t] else printed, [Signal.next t])
  | doEach _, applied, t => (applied ++ [t], [Signal.next t])
  | map f, u, t => (u, [Signal.next (f t)])
  | mapVal1 v f, u, t => (u, [Signal.next (f t v)])
  | reduce _ f, state, t => ((f state t).1, [Signal.next (f state t).2])
  | enumerate, count, t => (count + 1, [Signal.next (t, count)])
  | tee q _, tx, t => ((q.send tx t).1, [Signal.next t])
  | unzip, u, t => (u, [Signal.next t.1, Signal.next t.2])
  | take max, (count, notified), t =>
      if count + 1 > max then ((count + 1, true), [Signal.complete false])
      else ((count + 1, notified), [Signal.next t])

/-- The processor as a transducer: `on_next` is its own, the other calls are handed on. -/
def transducer (p : Proc σ N I O) : Transducer σ (Signal I) (Signal O) where
  step := fun s c => match c with
    | Signal.next t => p.push s t
    | Signal.complete f => (s, [Signal.complete f])
    | Signal.error e => (s, [Signal.error e])

@[simp] lemma transducer_next (p : Proc σ N I O) (s : σ) (t : I) :
    p.transducer.step s (Signal.next t) = p.push s t := rfl
@[simp] lemma transducer_complete (p : Proc σ N I O) (s : σ) (f : Bool) :
    p.transducer.step s (Signal.complete f) = (s, [Signal.complete f]) := rfl
@[simp] lemma transducer_error (p : Proc σ N I O) (s : σ) (e : String) :
    p.transducer.step s (Signal.error e) = (s, [Signal.error e]) := rfl

/-- The Rust object of a subscribed processor in state `s`, with `x` behind the box. -/
def assemble (s : σ) (x : S) : Proc σ N I O → N S
  | doDebug => ⟨some x, some 0, s⟩
  | debugWhile f => ⟨f, some x, some 0, s⟩
  | doEach f => ⟨f, some x, some 0, s⟩
  | map f => ⟨f, some x, some 0⟩
  | mapVal1 v f => ⟨f, some x, some 0, v⟩
  | reduce _ f => ⟨f, some x, some 0, s⟩
  | enumerate => ⟨some x, some 0, s⟩
  | tee _ _ => ⟨some x, some 0, s⟩
  | unzip => ⟨some x, some 0⟩
  | take max => ⟨some x, some 0, s.1, max, s.2⟩

lemma inner_assemble (p : Proc σ N I O) (s : σ) (x : S) :
    p.inner (p.assemble s x) = some x := by
  cases p <;> rfl

lemma onSubscribe_build (sub : Subscriber m S O) (p : Proc σ N I O) (x : S) :
    (p.toSubscriber sub).onSubscribe (p.build sub x) 0
      = p.assemble p.init (sub.onSubscribe x 0) := by
  cases p <;> rfl

variable [LawfulMonad m]

/-- **One `on_next` of the Rust object** is the calls `push` writes, made on what is behind the
box. -/
theorem onNext_assemble (sub : Subscriber m S O) (p : Proc σ N I O) (s : σ) (x : S) (t : I) :
    (p.toSubscriber sub).onNext (p.assemble s x) t
      = (fun r => (p.assemble (p.push s t).1 r.1, r.2)) <$> sub.feed x (p.push s t).2 := by
  cases p with
  | doDebug => simp [toSubscriber, DoDebug.toSubscriber, DoDebug.onNext, assemble, push]
  | debugWhile f =>
      simp only [toSubscriber, DebugWhile.toSubscriber, DebugWhile.onNext, assemble, push,
        Subscriber.feed_next]
      split_ifs <;> simp
  | doEach f => simp [toSubscriber, Do.toSubscriber, Do.onNext, assemble, push]
  | map f => simp [toSubscriber, Map.toSubscriber, Map.onNext, assemble, push]
  | mapVal1 v f => simp [toSubscriber, MapVal1.toSubscriber, MapVal1.onNext, assemble, push]
  | reduce initial f => simp [toSubscriber, Reduce.toSubscriber, Reduce.onNext, assemble, push]
  | enumerate => simp [toSubscriber, Enumerate.toSubscriber, Enumerate.onNext, assemble, push]
  | tee q tx =>
      simp [toSubscriber, Tee.toSubscriber, Tee.onNext, assemble, push, Queue.sendable]
  | unzip =>
      simp [toSubscriber, Unzip.toSubscriber, Unzip.onNext, assemble, push, Subscriber.feed]
  | take max =>
      obtain ⟨count, notified⟩ := s
      simp only [toSubscriber, Take.toSubscriber, Take.onNext, assemble, push]
      split_ifs <;> simp

theorem onComplete_assemble (sub : Subscriber m S O) (p : Proc σ N I O) (s : σ) (x : S)
    (f : Bool) :
    (p.toSubscriber sub).onComplete (p.assemble s x) f
      = (fun y => p.assemble s y) <$> sub.onComplete x f := by
  cases p <;> simp [toSubscriber, DoDebug.toSubscriber, DebugWhile.toSubscriber, Do.toSubscriber,
    Map.toSubscriber, MapVal1.toSubscriber, Reduce.toSubscriber, Enumerate.toSubscriber,
    Tee.toSubscriber, Unzip.toSubscriber, Take.toSubscriber, assemble, defaultPassComplete]

theorem onError_assemble (sub : Subscriber m S O) (p : Proc σ N I O) (s : σ) (x : S)
    (e : String) :
    (p.toSubscriber sub).onError (p.assemble s x) e
      = (fun y => p.assemble s y) <$> sub.onError x e := by
  cases p <;> simp [toSubscriber, DoDebug.toSubscriber, DebugWhile.toSubscriber, Do.toSubscriber,
    Map.toSubscriber, MapVal1.toSubscriber, Reduce.toSubscriber, Enumerate.toSubscriber,
    Tee.toSubscriber, Unzip.toSubscriber, Take.toSubscriber, assemble, defaultPassError]

/-- **A list of calls on the Rust object** is the list its transducer writes, made behind the
box. -/
theorem feed_assemble (sub : Subscriber m S O) (p : Proc σ N I O) (s : σ) (x : S)
    (cs : List (Signal I)) :
    (p.toSubscriber sub).feed (p.assemble s x) cs
      = (fun r => (p.assemble (p.transducer.run s cs).1 r.1, r.2))
          <$> sub.feed x (p.transducer.run s cs).2 := by
  induction cs generalizing s x with
  | nil => simp [Subscriber.feed]
  | cons c cs ih =>
      rw [Transducer.run_cons, Subscriber.feed_append]
      cases c with
      | next t => simp [Subscriber.feed, onNext_assemble, ih]
      | complete f => simp [Subscriber.feed, onComplete_assemble, ih]
      | error e => simp [Subscriber.feed, onError_assemble, ih]

end Proc

/-! ## Chains -/

/-- A well-typed sequence of processors, the one nearest the source first. -/
inductive Chain : (σ : Type) → (F : Type → Type) → (I O : Type) → Type 1
  | nil {I : Type} : Chain Unit (fun T => T) I I
  | cons {σ τ : Type} {N F : Type → Type} {I O R : Type} (p : Proc σ N I O)
      (rest : Chain τ F O R) : Chain (σ × τ) (fun T => N (F T)) I R

namespace Chain

variable {m : Type → Type} [Monad m] [Panics m]
variable {σ τ : Type} {F G : Type → Type} {I O R T : Type}

/-- The methods of the processor at the head, with the rest of the chain behind its box. -/
def toSubscriber : {σ : Type} → {F : Type → Type} → {I O : Type} → Chain σ F I O →
    Subscriber m T O → Subscriber m (F T) I
  | _, _, _, _, nil, sub => sub
  | _, _, _, _, cons p rest, sub => p.toSubscriber (rest.toSubscriber sub)

/-- The boxed chain: every processor made by `new` and subscribed to by the one above it. -/
def build : {σ : Type} → {F : Type → Type} → {I O : Type} → Chain σ F I O →
    Subscriber m T O → T → F T
  | _, _, _, _, nil, _, t => t
  | _, _, _, _, cons p rest, sub, t => p.build (rest.toSubscriber sub) (rest.build sub t)

/-- The terminal subscriber at the end of the boxes. -/
def terminal : {σ : Type} → {F : Type → Type} → {I O : Type} → Chain σ F I O → F T → Option T
  | _, _, _, _, nil, t => some t
  | _, _, _, _, cons p rest, x => (p.inner x).bind rest.terminal

/-- The states the processors start with. -/
def init : {σ : Type} → {F : Type → Type} → {I O : Type} → Chain σ F I O → σ
  | _, _, _, _, nil => ()
  | _, _, _, _, cons p rest => (p.init, rest.init)

/-- The chain as a machine on calls. -/
def transducer : {σ : Type} → {F : Type → Type} → {I O : Type} → Chain σ F I O →
    Transducer σ (Signal I) (Signal O)
  | _, _, _, _, nil => Transducer.ident _
  | _, _, _, _, cons p rest => p.transducer.comp rest.transducer

/-- The boxed chain with its processors in state `s` and the terminal subscriber `t` at its end. -/
def assemble : {σ : Type} → {F : Type → Type} → {I O : Type} → Chain σ F I O → T → σ → F T
  | _, _, _, _, nil, t, _ => t
  | _, _, _, _, cons p rest, t, s => p.assemble s.1 (rest.assemble t s.2)

/-- A chain with its state and object types hidden. -/
structure Packed (I O : Type) where
  {State : Type}
  {Object : Type → Type}
  chain : Chain State Object I O

/-- One chain after the other. -/
def append : {σ : Type} → {F : Type → Type} → {I O : Type} → Chain σ F I O →
    Packed O R → Packed I R
  | _, _, _, _, nil, d => d
  | _, _, _, _, cons p rest, d => ⟨cons p (rest.append d).chain⟩

lemma terminal_assemble (c : Chain σ F I O) (s : σ) (t : T) :
    c.terminal (c.assemble t s) = some t := by
  induction c with
  | nil => rfl
  | cons p rest ih =>
      rw [terminal, assemble, p.inner_assemble]
      exact ih s.2

/-- Once the head has been subscribed to, the boxed chain is the chain in its starting state. -/
lemma onSubscribe_build (sub : Subscriber m T O) (c : Chain σ F I O) (t : T) :
    (c.toSubscriber sub).onSubscribe (c.build sub t) 0
      = c.assemble (sub.onSubscribe t 0) c.init := by
  induction c with
  | nil => rfl
  | cons p rest ih =>
      rw [toSubscriber, build, p.onSubscribe_build, ih]
      rfl

lemma transducer_cons_run {N : Type → Type} (p : Proc σ N I O) (rest : Chain τ F O R)
    (s : σ × τ) (cs : List (Signal I)) :
    (cons p rest).transducer.run s cs
      = (((p.transducer.run s.1 cs).1,
          (rest.transducer.run s.2 (p.transducer.run s.1 cs).2).1),
        (rest.transducer.run s.2 (p.transducer.run s.1 cs).2).2) :=
  Transducer.run_comp p.transducer rest.transducer s.1 s.2 cs

variable [LawfulMonad m]

/-- **The boxed chain refines its transducer.**  A list of calls made on the head of the chain is,
for the terminal subscriber, the list of calls the transducer writes; the chain's answer is the or
of the terminal subscriber's answers. -/
theorem feed_assemble (sub : Subscriber m T O) (c : Chain σ F I O) (s : σ) (t : T)
    (cs : List (Signal I)) :
    (c.toSubscriber sub).feed (c.assemble t s) cs
      = (fun r => (c.assemble r.1 (c.transducer.run s cs).1, r.2))
          <$> sub.feed t (c.transducer.run s cs).2 := by
  induction c with
  | nil => simp [toSubscriber, assemble, transducer, Transducer.run_ident]
  | cons p rest ih =>
      rw [toSubscriber, assemble, p.feed_assemble, ih, transducer_cons_run]
      simp [assemble]

/-- A single `on_next`. -/
theorem onNext_assemble (sub : Subscriber m T O) (c : Chain σ F I O) (s : σ) (t : T) (x : I) :
    (c.toSubscriber sub).onNext (c.assemble t s) x
      = (fun r => (c.assemble r.1 (c.transducer.step s (Signal.next x)).1, r.2))
          <$> sub.feed t (c.transducer.step s (Signal.next x)).2 := by
  rw [← Subscriber.feed_next, feed_assemble, Transducer.run_singleton]

omit [Monad m] [Panics m] [LawfulMonad m] in
/-- `on_complete` goes through every stage unchanged. -/
lemma transducer_complete (c : Chain σ F I O) (s : σ) (f : Bool) :
    c.transducer.step s (Signal.complete f) = (s, [Signal.complete f]) := by
  induction c with
  | nil => rfl
  | cons p rest ih =>
      obtain ⟨s₁, s₂⟩ := s
      have h := transducer_cons_run p rest (s₁, s₂) [Signal.complete f]
      simpa [ih] using h

/-- `on_error` goes through every stage unchanged. -/
lemma transducer_error (c : Chain σ F I O) (s : σ) (e : String) :
    c.transducer.step s (Signal.error e) = (s, [Signal.error e]) := by
  induction c with
  | nil => rfl
  | cons p rest ih =>
      obtain ⟨s₁, s₂⟩ := s
      have h := transducer_cons_run p rest (s₁, s₂) [Signal.error e]
      simpa [ih] using h

/-- A single `on_complete`. -/
theorem onComplete_assemble (sub : Subscriber m T O) (c : Chain σ F I O) (s : σ) (t : T)
    (f : Bool) :
    (c.toSubscriber sub).onComplete (c.assemble t s) f
      = (fun u => c.assemble u s) <$> sub.onComplete t f := by
  induction c with
  | nil => simp [toSubscriber, assemble]
  | cons p rest ih =>
      rw [toSubscriber, assemble, p.onComplete_assemble, ih]
      simp [assemble]

end Chain

end Rx
