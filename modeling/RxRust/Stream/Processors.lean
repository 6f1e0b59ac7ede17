import RxRust.Stream.Subscriber

/-!
# Processors

The processors of `processorimpl.rs`, each with the fields of its struct, its `new`, its `subscribe`
(the `Publisher` half) and its `Subscriber` methods.  `S` is the type of the subscriber behind the
box and `sub` its methods.

Three methods are the same text in every processor, generated by the macros of `default_macros.rs`;
they are `defaultPassSubscribe`, `defaultPassComplete` and `defaultPassError` here.  `on_next` is
each processor's own.

Printing and calling a user's procedure have no result, so what was printed, or what the procedure
was called on, is kept as a list beside the fields of the struct (`printed`, `applied`).  The
counters are 64-bit and wrap.
-/

namespace Rx

open Core

section Defaults

variable {m : Type → Type} [Monad m] [Panics m] {S O : Type}

/-- What every `subscribe` does with the boxed subscriber: keep it, and tell it its index is 0. -/
def subscribed (sub : Subscriber m S O) (s : S) : Option S := some (sub.onSubscribe s 0)

/-- `default_pass_complete!` -/
def defaultPassComplete (sub : Subscriber m S O) (subscriber : Option S) (force : Bool) :
    m (Option S) :=
  match subscriber with
  | some s => some <$> sub.onComplete s force
  | none => Panics.panic "on_complete called but I don't have a subscriber"

/-- `default_pass_error!` -/
def defaultPassError (sub : Subscriber m S O) (subscriber : Option S) (err : String) :
    m (Option S) :=
  match subscriber with
  | some s => some <$> sub.onError s err
  | none => Panics.panic "on_error called but I don't have a subscriber"

/-- `default_pass_subscribe!` -/
def defaultPassSubscribe (index : UInt64) : Option UInt64 := some index

end Defaults

variable {m : Type → Type} [Monad m] [Panics m] {I O V Q S : Type}

/-! ## DoDebug -/

/-- `DoDebug`: prints every value. -/
structure DoDebug (I S : Type) where
  subscriber : Option S
  index : Option UInt64
  printed : List I

namespace DoDebug

def new : DoDebug I S := ⟨none, none, []⟩

def subscribe (sub : Subscriber m S I) (self : DoDebug I S) (s : S) : DoDebug I S :=
  { self with subscriber := subscribed sub s }

def onNext (sub : Subscriber m S I) (self : DoDebug I S) (t : I) : m (DoDebug I S × Bool) :=
  match self.subscriber with
  | some s => do
      let self := { self with printed := self.printed ++ [t] }
      let r ← sub.onNext s t
      pure ({ self with subscriber := some r.1 }, r.2)
  | none => pure (self, true)

def toSubscriber (sub : Subscriber m S I) : Subscriber m (DoDebug I S) I where
  onNext := onNext sub
  onSubscribe := fun self n => { self with index := defaultPassSubscribe n }
  onError := fun self e =>
    (fun s => { self with subscriber := s }) <$> defaultPassError sub self.subscriber e
  onComplete := fun self f =>
    (fun s => { self with subscriber := s }) <$> defaultPassComplete sub self.subscriber f

end DoDebug

/-! ## DebugWhile -/

/-- `DebugWhile`: prints the values its predicate holds of. -/
structure DebugWhile (I S : Type) where
  func : I → Bool
  subscriber : Option S
  index : Option UInt64
  printed : List I

namespace DebugWhile

def new (f : I → Bool) : DebugWhile I S := ⟨f, none, none, []⟩

def subscribe (sub : Subscriber m S I) (self : DebugWhile I S) (s : S) : DebugWhile I S :=
  { self with subscriber := subscribed sub s }

def onNext (sub : Subscriber m S I) (self : DebugWhile I S) (t : I) : m (DebugWhile I S × Bool) :=
  match self.subscriber with
  | some s => do
      let self := if self.func t then { self with printed := self.printed ++ [t] } else self
      let r ← sub.onNext s t
      pure ({ self with subscriber := some r.1 }, r.2)
  | none => pure (self, true)

def toSubscriber (sub : Subscriber m S I) : Subscriber m (DebugWhile I S) I where
  onNext := onNext sub
  onSubscribe := fun self n => { self with index := defaultPassSubscribe n }
  onError := fun self e =>
    (fun s => { self with subscriber := s }) <$> defaultPassError sub self.subscriber e
  onComplete := fun self f =>
    (fun s => { self with subscriber := s }) <$> defaultPassComplete sub self.subscriber f

end DebugWhile

/-! ## Do -/

/-- `Do`: calls a procedure on every value. -/
structure Do (I S : Type) where
  func : I → Unit
  subscriber : Option S
  index : Option UInt64
  applied : List I

namespace Do

def new (f : I → Unit) : Do I S := ⟨f, none, none, []⟩

def subscribe (sub : Subscriber m S I) (self : Do I S) (s : S) : Do I S :=
  { self with subscriber := subscribed sub s }

def onNext (sub : Subscriber m S I) (self : Do I S) (t : I) : m (Do I S × Bool) :=
  match self.subscriber with
  | some s => do
      let self := { self with applied := self.applied ++ [t] }
      let r ← sub.onNext s t
      pure ({ self with subscriber := some r.1 }, r.2)
  | none => pure (self, true)

def toSubscriber (sub : Subscriber m S I) : Subscriber m (Do I S) I where
  onNext := onNext sub
  onSubscribe := fun self n => { self with index := defaultPassSubscribe n }
  onError := fun self e =>
    (fun s => { self with subscriber := s }) <$> defaultPassError sub self.subscriber e
  onComplete := fun self f =>
    (fun s => { self with subscriber := s }) <$> defaultPassComplete sub self.subscriber f

end Do

/-! ## Map -/

/-- `Map`: applies a function to every value. -/
structure Map (I O S : Type) where
  func : I → O
  subscriber : Option S
  index : Option UInt64

namespace Map

def new (f : I → O) : Map I O S := ⟨f, none, none⟩

def subscribe (sub : Subscriber m S O) (self : Map I O S) (s : S) : Map I O S :=
  { self with subscriber := subscribed sub s }

def onNext (sub : Subscriber m S O) (self : Map I O S) (t : I) : m (Map I O S × Bool) :=
  match self.subscriber with
  | some s => do
      let r ← sub.onNext s (self.func t)
      pure ({ self with subscriber := some r.1 }, r.2)
  | none => pure (self, true)

def toSubscriber (sub : Subscriber m S O) : Subscriber m (Map I O S) I where
  onNext := onNext sub
  onSubscribe := fun self n => { self with index := defaultPassSubscribe n }
  onError := fun self e =>
    (fun s => { self with subscriber := s }) <$> defaultPassError sub self.subscriber e
  onComplete := fun self f =>
    (fun s => { self with subscriber := s }) <$> defaultPassComplete sub self.subscriber f

end Map

/-! ## MapVal1 -/

/-- `MapVal1`: applies a function of the value and of one fixed argument. -/
structure MapVal1 (I V O S : Type) where
  func : I → V → O
  subscriber : Option S
  index : Option UInt64
  val : V

namespace MapVal1

def new (v : V) (f : I → V → O) : MapVal1 I V O S := ⟨f, none, none, v⟩

def subscribe (sub : Subscriber m S O) (self : MapVal1 I V O S) (s : S) : MapVal1 I V O S :=
  { self with subscriber := subscribed sub s }

def onNext (sub : Subscriber m S O) (self : MapVal1 I V O S) (t : I) :
    m (MapVal1 I V O S × Bool) :=
  match self.subscriber with
  | some s => do
      let r ← sub.onNext s (self.func t self.val)
      pure ({ self with subscriber := some r.1 }, r.2)
  | none => pure (self, true)

def toSubscriber (sub : Subscriber m S O) : Subscriber m (MapVal1 I V O S) I where
  onNext := onNext sub
  onSubscribe := fun self n => { self with index := defaultPassSubscribe n }
  onError := fun self e =>
    (fun s => { self with subscriber := s }) <$> defaultPassError sub self.subscriber e
  onComplete := fun self f =>
    (fun s => { self with subscriber := s }) <$> defaultPassComplete sub self.subscriber f

end MapVal1

/-! ## Reduce -/

/-- `Reduce`: a left scan; the function gives the next state and the value to hand on. -/
structure Reduce (I V O S : Type) where
  func : V → I → V × O
  subscriber : Option S
  index : Option UInt64
  state : V

namespace Reduce

def new (initial : V) (f : V → I → V × O) : Reduce I V O S := ⟨f, none, none, initial⟩

def subscribe (sub : Subscriber m S O) (self : Reduce I V O S) (s : S) : Reduce I V O S :=
  { self with subscriber := subscribed sub s }

/-- Unlike the other processors, `Reduce` calls its function before it looks for a subscriber. -/
def onNext (sub : Subscriber m S O) (self : Reduce I V O S) (t : I) : m (Reduce I V O S × Bool) :=
  let newstate := (self.func self.state t).1
  let outval := (self.func self.state t).2
  let self := { self with state := newstate }
  match self.subscriber with
  | some s => do
      let r ← sub.onNext s outval
      pure ({ self with subscriber := some r.1 }, r.2)
  | none => pure (self, true)

def toSubscriber (sub : Subscriber m S O) : Subscriber m (Reduce I V O S) I where
  onNext := onNext sub
  onSubscribe := fun self n => { self with index := defaultPassSubscribe n }
  onError := fun self e =>
    (fun s => { self with subscriber := s }) <$> defaultPassError sub self.subscriber e
  onComplete := fun self f =>
    (fun s => { self with subscriber := s }) <$> defaultPassComplete sub self.subscriber f

end Reduce

/-! ## Enumerate -/

/-- `Enumerate`: pairs every value with a running count. -/
structure Enumerate (S : Type) where
  subscriber : Option S
  index : Option UInt64
  count : UInt64

namespace Enumerate

def new : Enumerate S := ⟨none, none, 0⟩

def subscribe (sub : Subscriber m S (I × UInt64)) (self : Enumerate S) (s : S) : Enumerate S :=
  { self with subscriber := subscribed sub s }

def onNext (sub : Subscriber m S (I × UInt64)) (self : Enumerate S) (t : I) :
    m (Enumerate S × Bool) :=
  match self.subscriber with
  | some s => do
      let c := self.count
      let self := { self with count := self.count + 1 }
      let r ← sub.onNext s (t, c)
      pure ({ self with subscriber := some r.1 }, r.2)
  | none => pure (self, true)

def toSubscriber (sub : Subscriber m S (I × UInt64)) : Subscriber m (Enumerate S) I where
  onNext := onNext sub
  onSubscribe := fun self n => { self with index := defaultPassSubscribe n }
  onError := fun self e =>
    (fun s => { self with subscriber := s }) <$> defaultPassError sub self.subscriber e
  onComplete := fun self f =>
    (fun s => { self with subscriber := s }) <$> defaultPassComplete sub self.subscriber f

end Enumerate

/-! ## Tee -/

/-- `Tee`: sends a copy of every value down a queue. -/
structure Tee (Q S : Type) where
  subscriber : Option S
  index : Option UInt64
  dataTx : Q

namespace Tee

def new (tx : Q) : Tee Q S := ⟨none, none, tx⟩

def subscribe (sub : Subscriber m S I) (self : Tee Q S) (s : S) : Tee Q S :=
  { self with subscriber := subscribed sub s }

/-- The result of the queue's `send` is discarded. -/
def onNext (q : Sendable m Q I) (sub : Subscriber m S I) (self : Tee Q S) (t : I) :
    m (Tee Q S × Bool) :=
  match self.subscriber with
  | some s => do
      let sent ← q.send self.dataTx t
      let self := { self with dataTx := sent.1 }
      let r ← sub.onNext s t
      pure ({ self with subscriber := some r.1 }, r.2)
  | none => pure (self, true)

def toSubscriber (q : Sendable m Q I) (sub : Subscriber m S I) : Subscriber m (Tee Q S) I where
  onNext := onNext q sub
  onSubscribe := fun self n => { self with index := defaultPassSubscribe n }
  onError := fun self e =>
    (fun s => { self with subscriber := s }) <$> defaultPassError sub self.subscriber e
  onComplete := fun self f =>
    (fun s => { self with subscriber := s }) <$> defaultPassComplete sub self.subscriber f

end Tee

/-! ## Unzip -/

/-- `Unzip`: hands on the two halves of a pair, one after the other. -/
structure Unzip (S : Type) where
  subscriber : Option S
  index : Option UInt64

namespace Unzip

def new : Unzip S := ⟨none, none⟩

def subscribe (sub : Subscriber m S I) (self : Unzip S) (s : S) : Unzip S :=
  { self with subscriber := subscribed sub s }

/-- The two answers are combined by `|`, which evaluates both sides: the second half is delivered
whatever the first one was answered. -/
def onNext (sub : Subscriber m S I) (self : Unzip S) (t : I × I) : m (Unzip S × Bool) :=
  match self.subscriber with
  | some s => do
      let r ← sub.onNext s t.1
      let q ← sub.onNext r.1 t.2
      pure ({ self with subscriber := some q.1 }, r.2 || q.2)
  | none => pure (self, true)

def toSubscriber (sub : Subscriber m S I) : Subscriber m (Unzip S) (I × I) where
  onNext := onNext sub
  onSubscribe := fun self n => { self with index := defaultPassSubscribe n }
  onError := fun self e =>
    (fun s => { self with subscriber := s }) <$> defaultPassError sub self.subscriber e
  onComplete := fun self f =>
    (fun s => { self with subscriber := s }) <$> defaultPassComplete sub self.subscriber f

end Unzip

/-! ## Take -/

/-- `Take`: hands on the first `max` values. -/
structure Take (S : Type) where
  subscriber : Option S
  index : Option UInt64
  count : UInt64
  max : UInt64
  notified : Bool

namespace Take

def new (max : UInt64) : Take S := ⟨none, none, 0, max, false⟩

def subscribe (sub : Subscriber m S O) (self : Take S) (s : S) : Take S :=
  { self with subscriber := subscribed sub s }

/-- The value after the last one taken is answered by `on_complete` downstream and `false` upstream.
`notified` is set here and read nowhere. -/
def onNext (sub : Subscriber m S O) (self : Take S) (t : O) : m (Take S × Bool) :=
  match self.subscriber with
  | some s =>
      let self := { self with count := self.count + 1 }
      if self.count > self.max then do
        let s ← sub.onComplete s false
        pure ({ self with subscriber := some s, notified := true }, false)
      else do
        let r ← sub.onNext s t
        pure ({ self with subscriber := some r.1 }, r.2)
  | none => pure (self, true)

def toSubscriber (sub : Subscriber m S O) : Subscriber m (Take S) O where
  onNext := onNext sub
  onSubscribe := fun self n => { self with index := defaultPassSubscribe n }
  onError := fun self e =>
    (fun s => { self with subscriber := s }) <$> defaultPassError sub self.subscriber e
  onComplete := fun self f =>
    (fun s => { self with subscriber := s }) <$> defaultPassComplete sub self.subscriber f

end Take

end Rx
