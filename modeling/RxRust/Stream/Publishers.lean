import RxRust.Stream.Chain

/-!
# Publishers and `run`

The sources of `publisherimpl.rs` and the loop `Publisher::run` of `reactive.rs`.

* `IterPublisher` — publishes the items of an iterator, here the list of the items still to come.
* `Receiver`, `Coupler` — publishes what arrives on a channel.  The receiving end is the list of the
  messages in the order `recv` will hand them out and whether a sender is left after them; `recv` on
  an empty channel with a sender left does not come back.
* `run` — calls `next` until it answers `false`.  The number of calls is bounded by an argument, and
  a run that would need more is `stuck`; a theorem that a run ends names a bound that is enough.
* `Coupler.run_ofIter` — over a channel that gets closed, a `Coupler` does what an `IterPublisher`
  does over the list of the channel's messages.
-/

namespace Rx

open Core

/-- `Publisher::run`, for at most `fuel` calls of `next`. -/
def run {P : Type} (next : P → Outcome (P × Bool)) : (fuel : ℕ) → P → Outcome P
  | 0, _ => Outcome.stuck
  | fuel + 1, p => do
      let r ← next p
      if !r.2 then pure r.1 else run next fuel r.1

/-- The publisher after `k` calls of `next`, when `run` is about to make one more: all of them
answered `true`. -/
def runsOn {P : Type} (next : P → Outcome (P × Bool)) : (k : ℕ) → P → P → Prop
  | 0, p, q => p = q
  | k + 1, p, q => ∃ r, next p = Outcome.ret (r, true) ∧ runsOn next k r q

section Iter

variable {m : Type → Type} [Monad m] {S O : Type}

/-- `IterPublisher` -/
structure IterPublisher (O S : Type) where
  iter : List O
  subscriber : Option S

namespace IterPublisher

def new (iter : List O) : IterPublisher O S := ⟨iter, none⟩

def subscribe (sub : Subscriber m S O) (self : IterPublisher O S) (s : S) : IterPublisher O S :=
  { self with subscriber := subscribed sub s }

def next (sub : Subscriber m S O) (self : IterPublisher O S) : m (IterPublisher O S × Bool) :=
  match self.subscriber with
  | some s =>
      match self.iter with
      | x :: iter => do
          let r ← sub.onNext s x
          pure (⟨iter, some r.1⟩, r.2)
      | [] => do
          let s ← sub.onComplete s false
          pure (⟨[], some s⟩, false)
  | none => pure (self, false)

end IterPublisher

end Iter

/-! ## Coupler -/

/-- The receiving end of a channel: the messages `recv` will hand out, oldest first, and whether a
sender is left after them. -/
structure Receiver (O : Type) where
  queue : List O
  connected : Bool

/-- Why `try_recv` came back without a message. -/
inductive TryRecvError where
  | empty
  | disconnected
  deriving Repr, DecidableEq

namespace Receiver

variable {O : Type}

/-- `recv`: waits while the channel is empty and a sender is left. -/
def recv (rx : Receiver O) : Outcome (Except Unit O × Receiver O) :=
  match rx.queue with
  | d :: queue => pure (Except.ok d, { rx with queue := queue })
  | [] => if rx.connected then Outcome.stuck else pure (Except.error (), rx)

/-- `try_recv`: never waits. -/
def tryRecv (rx : Receiver O) : Except TryRecvError O × Receiver O :=
  match rx.queue with
  | d :: queue => (Except.ok d, { rx with queue := queue })
  | [] => (Except.error (if rx.connected then .empty else .disconnected), rx)

/-- The channel whose messages are the list and which is closed after them. -/
def ofList (xs : List O) : Receiver O := ⟨xs, false⟩

end Receiver

/-- `Coupler` -/
structure Coupler (O S : Type) where
  dataRx : Receiver O
  subscriber : Option S

namespace Coupler

variable {S O : Type}

def new (rx : Receiver O) : Coupler O S := ⟨rx, none⟩

def subscribe (sub : Subscriber Outcome S O) (self : Coupler O S) (s : S) : Coupler O S :=
  { self with subscriber := subscribed sub s }

def next (sub : Subscriber Outcome S O) (self : Coupler O S) : Outcome (Coupler O S × Bool) :=
  match self.subscriber with
  | some s => do
      let got ← self.dataRx.recv
      match got.1 with
      | Except.ok d =>
          let r ← sub.onNext s d
          pure (⟨got.2, some r.1⟩, r.2)
      | Except.error () =>
          let s ← sub.onComplete s false
          pure (⟨got.2, some s⟩, false)
  | none => pure (self, false)

def tryNext (sub : Subscriber Outcome S O) (self : Coupler O S) : Outcome (Coupler O S × Bool) :=
  match self.subscriber with
  | some s =>
      let got := self.dataRx.tryRecv
      match got.1 with
      | Except.ok d => do
          let r ← sub.onNext s d
          pure (⟨got.2, some r.1⟩, r.2)
      | Except.error TryRecvError.empty => pure (⟨got.2, some s⟩, true)
      | Except.error TryRecvError.disconnected => do
          let s ← sub.onComplete s false
          pure (⟨got.2, some s⟩, false)
  | none => pure (self, false)

/-- `try_next` is `next` where that does not wait, and otherwise leaves everything as it is. -/
lemma tryNext_eq (sub : Subscriber Outcome S O) (c : Coupler O S) {s : S}
    (hs : c.subscriber = some s) :
    c.tryNext sub
      = if c.dataRx.queue = [] ∧ c.dataRx.connected = true then Outcome.ret (c, true)
        else c.next sub := by
  obtain ⟨⟨queue, connected⟩, subscriber⟩ := c
  simp only at hs
  subst hs
  cases queue with
  | cons d queue => simp [tryNext, next, Receiver.tryRecv, Receiver.recv]
  | nil =>
      cases connected <;>
        simp [tryNext, next, Receiver.tryRecv, Receiver.recv]

/-- The `Coupler` over the channel whose messages are the iterator's items. -/
def ofIter (p : IterPublisher O S) : Coupler O S := ⟨Receiver.ofList p.iter, p.subscriber⟩

/-- Over a channel that gets closed, one step of a `Coupler` is one step of an `IterPublisher`. -/
theorem next_ofIter (sub : Subscriber Outcome S O) (p : IterPublisher O S) :
    next sub (ofIter p) = (fun r => (ofIter r.1, r.2)) <$> IterPublisher.next sub p := by
  obtain ⟨iter, subscriber⟩ := p
  cases subscriber with
  | none => rfl
  | some s =>
      cases iter with
      | nil =>
          simp [next, IterPublisher.next, ofIter, Receiver.ofList, Receiver.recv]
      | cons x iter =>
          simp [next, IterPublisher.next, ofIter, Receiver.ofList, Receiver.recv]

/-- And so is a whole run. -/
theorem run_ofIter (sub : Subscriber Outcome S O) (fuel : ℕ) (p : IterPublisher O S) :
    run (next sub) fuel (ofIter p) = ofIter <$> run (IterPublisher.next sub) fuel p := by
  induction fuel generalizing p with
  | zero => rfl
  | succ fuel ih =>
      simp only [run, next_ofIter, bind_map_left, map_bind]
      congr 1
      funext r
      split_ifs
      · simp
      · exact ih r.1

/-- Every state a run of the `Coupler` goes through is one of the `IterPublisher`'s. -/
theorem runsOn_ofIter {sub : Subscriber Outcome S O} {k : ℕ} {p : IterPublisher O S}
    {q : Coupler O S} (h : runsOn (next sub) k (ofIter p) q) :
    ∃ p', runsOn (IterPublisher.next sub) k p p' ∧ ofIter p' = q := by
  induction k generalizing p with
  | zero => exact ⟨p, rfl, h⟩
  | succ k ih =>
      obtain ⟨r, hnext, hrest⟩ := h
      rw [next_ofIter] at hnext
      cases hp : IterPublisher.next sub p with
      | ret a =>
          rw [hp] at hnext
          obtain ⟨rfl, hb⟩ : ofIter a.1 = r ∧ a.2 = true := by simpa using hnext
          obtain ⟨p', hp', hq⟩ := ih hrest
          exact ⟨p', ⟨a.1, by rw [← hb]; exact hp, hp'⟩, hq⟩
      | panic msg => rw [hp] at hnext; cases hnext
      | stuck => rw [hp] at hnext; cases hnext

end Coupler

/-! ## Repeat -/

/-- `Repeat`: publishes the same value for ever. -/
structure Repeat (O S : Type) where
  val : O
  subscriber : Option S

namespace Repeat

variable {m : Type → Type} [Monad m] {S O : Type}

def new (o : O) : Repeat O S := ⟨o, none⟩

def subscribe (sub : Subscriber m S O) (self : Repeat O S) (s : S) : Repeat O S :=
  { self with subscriber := subscribed sub s }

def next (sub : Subscriber m S O) (self : Repeat O S) : m (Repeat O S × Bool) :=
  match self.subscriber with
  | some s => do
      let r ← sub.onNext s self.val
      pure ({ self with subscriber := some r.1 }, r.2)
  | none => pure (self, false)

end Repeat

/-! ## A whole pipeline -/

section Pipeline

variable {σ : Type} {F : Type → Type} {I O T : Type}

/-- `IterPublisher(xs)` subscribed to by the chain, with the observer at its end. -/
def pipeline (xs : List I) (c : Chain σ F I O) (o : Observer T O) (t : T) :
    IterPublisher I (F (Watched T O)) :=
  let sub : Subscriber Outcome (Watched T O) O := o.subscriber
  (IterPublisher.new xs).subscribe (c.toSubscriber sub) (c.build sub ⟨t, []⟩)

/-- The same pipeline fed by a `Coupler` over a channel. -/
def coupled (rx : Receiver I) (c : Chain σ F I O) (o : Observer T O) (t : T) :
    Coupler I (F (Watched T O)) :=
  let sub : Subscriber Outcome (Watched T O) O := o.subscriber
  (Coupler.new rx).subscribe (c.toSubscriber sub) (c.build sub ⟨t, []⟩)

/-- The pipeline as built is the chain in its starting state over the observer, which has been
told its index. -/
lemma pipeline_eq (xs : List I) (c : Chain σ F I O) (o : Observer T O) (t : T) :
    pipeline xs c o t = ⟨xs, some (c.assemble ⟨o.onSubscribe t 0, []⟩ c.init)⟩ := by
  simp only [pipeline, IterPublisher.subscribe, IterPublisher.new, subscribed]
  rw [c.onSubscribe_build]
  rfl

lemma coupled_ofList (xs : List I) (c : Chain σ F I O) (o : Observer T O) (t : T) :
    coupled (Receiver.ofList xs) c o t = Coupler.ofIter (pipeline xs c o t) := rfl

end Pipeline

end Rx
