import RxRust.Core.Outcome

/-!
# Subscribers

The `Subscriber` trait of `reactive.rs`.  A boxed trait object is its state `S` together with the
four methods; `&mut self` becomes a state that is passed in and returned.  The methods live in a
monad `m`, so that the same processor code can be run to the end (`Outcome`) or be stopped at every
message it puts on a channel.

* `Subscriber` — the trait.
* `Signal`, `Subscriber.feed` — the calls a publisher can make on its subscriber, and a whole list
  of them made in order.  `feed` answers `true` when some `on_next` in the list did.
* `Observer`, `Watched` — a terminal subscriber is any state machine with any answers; watching it
  adds the record of what was delivered, which no code reads.
* `Collect`, `StdoutSubscriber` — the terminal subscribers of `subscriber.rs`.
* `Sendable`, `Decoupler` — the queue end of `sendable.rs` and the subscriber that writes to it.
-/

namespace Rx

open Core

/-- The `Subscriber` trait for an implementing type `S` with input `I`. -/
structure Subscriber (m : Type → Type) (S I : Type) where
  onNext : S → I → m (S × Bool)
  onSubscribe : S → UInt64 → S
  onError : S → String → m S
  onComplete : S → Bool → m S

/-- One call of a publisher on its subscriber. -/
inductive Signal (I : Type) where
  | next (t : I)
  | complete (force : Bool)
  | error (err : String)
  deriving Repr, DecidableEq

namespace Signal

variable {I O : Type}

/-- The value an `on_next` carries. -/
def value? : Signal I → Option I
  | next t => some t
  | complete _ => none
  | error _ => none

/-- The values of the `on_next` calls of a list, in order. -/
def values (cs : List (Signal I)) : List I := cs.filterMap value?

@[simp] lemma values_nil : values ([] : List (Signal I)) = [] := rfl
@[simp] lemma values_next (t : I) (cs : List (Signal I)) :
    values (next t :: cs) = t :: values cs := rfl
@[simp] lemma values_complete (f : Bool) (cs : List (Signal I)) :
    values (complete f :: cs) = values cs := rfl
@[simp] lemma values_error (e : String) (cs : List (Signal I)) :
    values (error e :: cs) = values cs := rfl
@[simp] lemma values_append (cs ds : List (Signal I)) :
    values (cs ++ ds) = values cs ++ values ds := by
  simp [values]
@[simp] lemma values_map_next (xs : List I) : values (xs.map next) = xs := by
  induction xs with
  | nil => rfl
  | cons x xs ih => simp [ih]

/-- Is this an `on_next`? -/
def isNext : Signal I → Bool
  | next _ => true
  | complete _ => false
  | error _ => false

/-- A list of `on_next` calls is the list of its values. -/
lemma eq_map_next_of_forall_isNext {cs : List (Signal I)} (h : ∀ c ∈ cs, c.isNext = true) :
    cs = (values cs).map next := by
  induction cs with
  | nil => rfl
  | cons c cs ih =>
      have htail := ih fun d hd => h d (List.mem_cons_of_mem _ hd)
      cases c with
      | next t => simpa using htail
      | complete f => exact absurd (h _ List.mem_cons_self) (by simp [isNext])
      | error e => exact absurd (h _ List.mem_cons_self) (by simp [isNext])

lemma isNext_of_mem_map_next {xs : List I} {c : Signal I} (h : c ∈ xs.map next) :
    c.isNext = true := by
  obtain ⟨x, -, rfl⟩ := List.mem_map.mp h
  rfl

end Signal

namespace Subscriber

variable {m : Type → Type} [Monad m] {S I : Type}

/-- Make the calls of a list in order.  The answer is `true` when one of the `on_next` calls
answered `true`: a stage that hands on several items ors their answers. -/
def feed (sub : Subscriber m S I) : S → List (Signal I) → m (S × Bool)
  | s, [] => pure (s, false)
  | s, Signal.next t :: cs => do
      let r ← sub.onNext s t
      let q ← feed sub r.1 cs
      pure (q.1, r.2 || q.2)
  | s, Signal.complete f :: cs => do
      let s ← sub.onComplete s f
      feed sub s cs
  | s, Signal.error e :: cs => do
      let s ← sub.onError s e
      feed sub s cs

variable [LawfulMonad m]

@[simp] lemma feed_next (sub : Subscriber m S I) (s : S) (t : I) :
    sub.feed s [Signal.next t] = sub.onNext s t := by
  simp [feed]

@[simp] lemma feed_complete (sub : Subscriber m S I) (s : S) (f : Bool) :
    sub.feed s [Signal.complete f] = (fun s => (s, false)) <$> sub.onComplete s f := by
  simp [feed]

@[simp] lemma feed_error (sub : Subscriber m S I) (s : S) (e : String) :
    sub.feed s [Signal.error e] = (fun s => (s, false)) <$> sub.onError s e := by
  simp [feed]

/-- Two lists of calls, one after the other; the answers are ored. -/
theorem feed_append (sub : Subscriber m S I) (s : S) (cs ds : List (Signal I)) :
    sub.feed s (cs ++ ds)
      = sub.feed s cs >>= fun r => (fun q => (q.1, r.2 || q.2)) <$> sub.feed r.1 ds := by
  induction cs generalizing s with
  | nil => simp [feed]
  | cons c cs ih =>
      cases c with
      | next t => simp [feed, ih, Bool.or_assoc]
      | complete f => simp [feed, ih]
      | error e => simp [feed, ih]

end Subscriber

/-! ## Terminal subscribers -/

/-- A terminal subscriber: any state machine, with any boolean answers. -/
structure Observer (T I : Type) where
  onNext : T → I → T × Bool
  onSubscribe : T → UInt64 → T := fun s _ => s
  onError : T → String → T := fun s _ => s
  onComplete : T → Bool → T := fun s _ => s

/-- A call that reached the terminal subscriber, with its answer. -/
inductive Received (I : Type) where
  | next (t : I) (answer : Bool)
  | complete (force : Bool)
  | error (err : String)
  deriving Repr, DecidableEq

namespace Received

variable {I : Type}

/-- The value an `on_next` carried. -/
def value? : Received I → Option I
  | next t _ => some t
  | complete _ => none
  | error _ => none

/-- The values of the `on_next` calls of a record, in order. -/
def values (rs : List (Received I)) : List I := rs.filterMap value?

@[simp] lemma values_nil : values ([] : List (Received I)) = [] := rfl
@[simp] lemma values_append (rs qs : List (Received I)) :
    values (rs ++ qs) = values rs ++ values qs := by
  simp [values]
@[simp] lemma values_next (t : I) (b : Bool) (rs : List (Received I)) :
    values (next t b :: rs) = t :: values rs := rfl
@[simp] lemma values_complete (f : Bool) (rs : List (Received I)) :
    values (complete f :: rs) = values rs := rfl
@[simp] lemma values_error (e : String) (rs : List (Received I)) :
    values (error e :: rs) = values rs := rfl

/-- The call without its answer. -/
def signal : Received I → Signal I
  | next t _ => Signal.next t
  | complete f => Signal.complete f
  | error e => Signal.error e

lemma values_map_signal (rs : List (Received I)) : Signal.values (rs.map signal) = values rs := by
  induction rs with
  | nil => rfl
  | cons r rs ih => cases r <;> simp [signal, ih]

end Received

/-- A terminal subscriber together with the record of the calls it received. -/
structure Watched (T I : Type) where
  state : T
  seen : List (Received I)

namespace Observer

variable {m : Type → Type} [Monad m] {T I : Type}

/-- The terminal subscriber as a `Subscriber`, with the record kept beside it. -/
def subscriber (o : Observer T I) : Subscriber m (Watched T I) I where
  onNext := fun s t =>
    let r := o.onNext s.state t
    pure (⟨r.1, s.seen ++ [Received.next t r.2]⟩, r.2)
  onSubscribe := fun s n => ⟨o.onSubscribe s.state n, s.seen⟩
  onError := fun s e => pure ⟨o.onError s.state e, s.seen ++ [Received.error e]⟩
  onComplete := fun s f => pure ⟨o.onComplete s.state f, s.seen ++ [Received.complete f]⟩

@[simp] lemma subscriber_onNext (o : Observer T I) (w : Watched T I) (t : I) :
    (o.subscriber (m := m)).onNext w t
      = pure (⟨(o.onNext w.state t).1, w.seen ++ [Received.next t (o.onNext w.state t).2]⟩,
          (o.onNext w.state t).2) := rfl

@[simp] lemma subscriber_onError (o : Observer T I) (w : Watched T I) (e : String) :
    (o.subscriber (m := m)).onError w e
      = pure ⟨o.onError w.state e, w.seen ++ [Received.error e]⟩ := rfl

@[simp] lemma subscriber_onComplete (o : Observer T I) (w : Watched T I) (f : Bool) :
    (o.subscriber (m := m)).onComplete w f
      = pure ⟨o.onComplete w.state f, w.seen ++ [Received.complete f]⟩ := rfl

/-- A list of calls as the observer answers them. -/
def answers (o : Observer T I) : T → List (Signal I) → List (Received I)
  | _, [] => []
  | s, Signal.next t :: cs =>
      Received.next t (o.onNext s t).2 :: answers o (o.onNext s t).1 cs
  | s, Signal.complete f :: cs => Received.complete f :: answers o (o.onComplete s f) cs
  | s, Signal.error e :: cs => Received.error e :: answers o (o.onError s e) cs

/-- The observer's state after a list of calls. -/
def after (o : Observer T I) : T → List (Signal I) → T
  | s, [] => s
  | s, Signal.next t :: cs => after o (o.onNext s t).1 cs
  | s, Signal.complete f :: cs => after o (o.onComplete s f) cs
  | s, Signal.error e :: cs => after o (o.onError s e) cs

/-- Was an `on_next` of the record answered `true`? -/
def wants : List (Received I) → Bool :=
  fun rs => rs.any fun r => match r with
    | Received.next _ b => b
    | _ => false

@[simp] lemma wants_nil : wants ([] : List (Received I)) = false := rfl
@[simp] lemma wants_next (t : I) (b : Bool) (rs : List (Received I)) :
    wants (Received.next t b :: rs) = (b || wants rs) := rfl
@[simp] lemma wants_complete (f : Bool) (rs : List (Received I)) :
    wants (Received.complete f :: rs) = wants rs := rfl
@[simp] lemma wants_error (e : String) (rs : List (Received I)) :
    wants (Received.error e :: rs) = wants rs := rfl

variable [LawfulMonad m]

/-- **Feeding a terminal subscriber** makes no effect besides its own: the record grows by the calls
and their answers. -/
theorem feed_subscriber (o : Observer T I) (w : Watched T I) (cs : List (Signal I)) :
    (o.subscriber (m := m)).feed w cs
      = pure (⟨o.after w.state cs, w.seen ++ o.answers w.state cs⟩,
          wants (o.answers w.state cs)) := by
  induction cs generalizing w with
  | nil => simp [Subscriber.feed, answers, after]
  | cons c cs ih =>
      cases c with
      | next t => simp [Subscriber.feed, ih, answers, after]
      | complete f => simp [Subscriber.feed, ih, answers, after]
      | error e => simp [Subscriber.feed, ih, answers, after]

omit [Monad m] [LawfulMonad m] in
lemma answers_append (o : Observer T I) (s : T) (cs ds : List (Signal I)) :
    o.answers s (cs ++ ds) = o.answers s cs ++ o.answers (o.after s cs) ds := by
  induction cs generalizing s with
  | nil => rfl
  | cons c cs ih => cases c <;> simp [answers, after, ih]

omit [Monad m] [LawfulMonad m] in
lemma after_append (o : Observer T I) (s : T) (cs ds : List (Signal I)) :
    o.after s (cs ++ ds) = o.after (o.after s cs) ds := by
  induction cs generalizing s with
  | nil => rfl
  | cons c cs ih => cases c <;> simp [after, ih]

omit [Monad m] [LawfulMonad m] in
@[simp] lemma signal_answers (o : Observer T I) (s : T) (cs : List (Signal I)) :
    (o.answers s cs).map Received.signal = cs := by
  induction cs generalizing s with
  | nil => rfl
  | cons c cs ih => cases c <;> simp [answers, Received.signal, ih]

omit [Monad m] [LawfulMonad m] in
@[simp] lemma values_answers (o : Observer T I) (s : T) (cs : List (Signal I)) :
    Received.values (o.answers s cs) = Signal.values cs := by
  rw [← Received.values_map_signal, signal_answers]

omit [Monad m] [LawfulMonad m] in
/-- A stop is asked for only among the values delivered. -/
lemma wants_eq_false_of_values_nil {o : Observer T I} {s : T} {cs : List (Signal I)}
    (h : Signal.values cs = []) : wants (o.answers s cs) = false := by
  induction cs generalizing s with
  | nil => rfl
  | cons c cs ih =>
      cases c with
      | next t => simp at h
      | complete f => simpa [answers] using ih (by simpa using h)
      | error e => simpa [answers] using ih (by simpa using h)

/-- The observer never asks for a stop. -/
def AlwaysTrue (o : Observer T I) : Prop := ∀ s t, (o.onNext s t).2 = true

omit [Monad m] [LawfulMonad m] in
/-- An observer that never asks for a stop answers `true` as soon as one value is delivered. -/
lemma wants_eq_true_iff {o : Observer T I} (ho : o.AlwaysTrue) (s : T) (cs : List (Signal I)) :
    wants (o.answers s cs) = true ↔ Signal.values cs ≠ [] := by
  induction cs generalizing s with
  | nil => simp [answers]
  | cons c cs ih =>
      cases c with
      | next t => simp [answers, ho s t]
      | complete f => simpa [answers] using ih _
      | error e => simpa [answers] using ih _

end Observer

/-- `Collect`: pushes every value on its vector and always asks for more. -/
def Collect (I : Type) : Observer (List I) I where
  onNext := fun val t => (val ++ [t], true)

@[simp] lemma collect_onNext {I : Type} (val : List I) (t : I) :
    (Collect I).onNext val t = (val ++ [t], true) := rfl

lemma collect_alwaysTrue (I : Type) : (Collect I).AlwaysTrue := fun _ _ => rfl

lemma after_collect {I : Type} (val : List I) (cs : List (Signal I)) :
    (Collect I).after val cs = val ++ Signal.values cs := by
  induction cs generalizing val with
  | nil => simp [Observer.after]
  | cons c cs ih =>
      cases c with
      | next t => simp [Observer.after, ih]
      | complete f => exact ih val
      | error e => exact ih val

/-- `StdoutSubscriber`: prints every value (the state is what has been printed) and always asks for
more. -/
def StdoutSubscriber (A : Type) : Observer (List A) A where
  onNext := fun printed t => (printed ++ [t], true)

/-! ## Queue ends -/

/-- The `Sendable` trait: a queue's sending end of type `Q`.  `Err` hands the item back. -/
structure Sendable (m : Type → Type) (Q Item : Type) where
  send : Q → Item → m (Q × Except Item Unit)

/-- `Decoupler`: sends every value down its queue and answers whether the queue took it. -/
structure Decoupler (Q : Type) where
  dataTx : Q

/-- `Decoupler` as a `Subscriber`; only `on_next` is its own, the rest are the trait's defaults. -/
def Decoupler.subscriber {m : Type → Type} [Monad m] {Q I : Type} (q : Sendable m Q I) :
    Subscriber m (Decoupler Q) I where
  onNext := fun self t => do
    let r ← q.send self.dataTx t
    match r.2 with
    | Except.ok () => pure (⟨r.1⟩, true)
    | Except.error _ => pure (⟨r.1⟩, false)
  onSubscribe := fun self _ => self
  onError := fun self _ => pure self
  onComplete := fun self _ => pure self

end Rx
