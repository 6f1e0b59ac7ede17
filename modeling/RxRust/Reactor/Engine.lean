import Mathlib.Logic.Function.Basic
import RxRust.Core.Runs
import RxRust.Reactor.Connection

/-!
# The engine

`EngineInner` of `reactor.rs` with its event loop and the world around it: client threads that send
messages to the loop's queue, peers that connect, write and hang up.

What the operating system and the crates decide is part of the event: the answers of the sockets,
the outcomes of the system calls, and the slot that a slab hands out, which may be any free one,
also one that was freed before.  A re-registration is taken to succeed, as it is unwrapped, and a
channel to have room for what is sent on it.

* `Slab` — `mio::util::Slab`: a range of tokens, some of them in use.
* `Net` — the fields of `EngineInner`, what the event loop keeps, and a record of what happened:
  `sent` (the messages put on the channels), `handed` (the tokens that client threads have, each
  with the socket it was handed out for) and `closed` (the sockets of removed connections).
* `connect`, `listen`, `readable`, `writable`, `notify` — the methods of `EngineInner`.
* `Net.step` — one event of the whole system.
-/

namespace Rx

open Core

/-! ## Slabs -/

/-- A slab that issues the tokens from `off` up to `off + cap`. -/
structure Slab (α : Type) where
  off : ℕ
  cap : ℕ
  entries : Token → Option α
  within : ∀ t a, entries t = some a → off ≤ t ∧ t < off + cap

namespace Slab

variable {α : Type}

/-- `new_starting_at` -/
def newStartingAt (off cap : ℕ) : Slab α := ⟨off, cap, fun _ => none, fun _ _ h => by cases h⟩

/-- The tokens the slab issues. -/
def Range (self : Slab α) (t : Token) : Prop := self.off ≤ t ∧ t < self.off + self.cap

def get (self : Slab α) (t : Token) : Option α := self.entries t

def contains (self : Slab α) (t : Token) : Bool := (self.entries t).isSome

/-- Write an entry; a token outside the range has none. -/
def put (self : Slab α) (t : Token) (a : α) : Slab α where
  off := self.off
  cap := self.cap
  entries := fun u => if u = t ∧ self.off ≤ t ∧ t < self.off + self.cap then some a
    else self.entries u
  within := by
    intro u b h
    split at h
    · rename_i hu
      obtain ⟨rfl, hlo, hhi⟩ := hu
      exact ⟨hlo, hhi⟩
    · exact self.within u b h

/-- `remove` -/
def remove (self : Slab α) (t : Token) : Slab α where
  off := self.off
  cap := self.cap
  entries := fun u => if u = t then none else self.entries u
  within := by
    intro u b h
    split at h
    · cases h
    · exact self.within u b h

/-- Every token of the range is in use. -/
def full (self : Slab α) : Bool := (List.range self.cap).all fun k => self.contains (self.off + k)

/-- `insert`, at a free token; it fails only when there is none. -/
def insert (self : Slab α) (slot : Option Token) (a : α) : Outcome (Option (Token × Slab α)) :=
  match slot with
  | some t =>
      if self.off ≤ t ∧ t < self.off + self.cap ∧ self.contains t = false then
        pure (some (t, self.put t a))
      else Outcome.stuck
  | none => if self.full then pure none else Outcome.stuck

lemma get_put {self : Slab α} {t : Token} (a : α) (h : self.off ≤ t ∧ t < self.off + self.cap) :
    (self.put t a).get t = some a := by
  simp [get, put, h]

lemma get_put_ne {self : Slab α} {t u : Token} (a : α) (h : u ≠ t) :
    (self.put t a).get u = self.get u := by
  simp [get, put, h]

/-- An entry that is there can be overwritten. -/
lemma get_put_of_get {self : Slab α} {t : Token} {a : α} (b : α) (h : self.get t = some a) :
    (self.put t b).get t = some b := get_put b (self.within t a h)

@[simp] lemma get_remove {self : Slab α} {t : Token} : (self.remove t).get t = none := by
  simp [get, remove]

lemma get_remove_ne {self : Slab α} {t u : Token} (h : u ≠ t) :
    (self.remove t).get u = self.get u := by
  simp [get, remove, h]

/-- What `insert` can do. -/
lemma insert_result {self : Slab α} {slot : Option Token} {a : α} {r : Option (Token × Slab α)}
    (h : self.insert slot a = Outcome.ret r) :
    (slot = none ∧ r = none) ∨ ∃ t, slot = some t ∧ self.get t = none ∧
      (self.put t a).get t = some a ∧ r = some (t, self.put t a) := by
  cases slot with
  | none =>
      simp only [insert] at h
      split at h
      · exact Or.inl ⟨rfl, (Outcome.ret.inj h).symm⟩
      · cases h
  | some t =>
      simp only [insert] at h
      split at h
      · rename_i ht
        refine Or.inr ⟨t, rfl, ?_, get_put a ⟨ht.1, ht.2.1⟩, (Outcome.ret.inj h).symm⟩
        simpa [contains, get] using ht.2.2
      · cases h

/-- The same, without the slot that was not there. -/
lemma insert_cases {self : Slab α} {slot : Option Token} {a : α} {r : Option (Token × Slab α)}
    (h : self.insert slot a = Outcome.ret r) :
    r = none ∨ ∃ t, slot = some t ∧ self.get t = none ∧ (self.put t a).get t = some a ∧
      r = some (t, self.put t a) := (insert_result h).imp_left And.right

end Slab

/-! ## The state -/

/-- What `list.accept()` answers, with the slot the new connection will get. -/
inductive AcceptAnswer where
  | ready (slot : Option Token)
  | failed
  deriving Repr, DecidableEq

/-- `NetStream`: the token of a connection and the number of its channel. -/
structure NetStream where
  tok : Token
  drx : ℕ
  deriving Repr, DecidableEq

/-- The engine, its event loop, and the record of what happened. -/
structure Net (P Out : Type) where
  listeners : Slab ℕ
  conns : Slab (Connection P)
  config : NetEngineConfig
  /-- The interest most recently passed to `register_opt` or `reregister`. -/
  passed : Token → Option Interest
  queue : List StreamBuf
  sent : List (ℕ × ProtoMsg Out)
  handed : List (ℕ × Token)
  closed : List TcpSocket
  nextSock : ℕ
  nextChan : ℕ

namespace Net

variable {P Out : Type}

/-- `EngineInner::new`, with an event loop to run it. -/
def new (cfg : NetEngineConfig) : Net P Out where
  listeners := Slab.newStartingAt 0 128
  conns := Slab.newStartingAt 256 ((cfg.maxConnections + 256) % 2 ^ 64)
  config := cfg
  passed := fun _ => none
  queue := []
  sent := []
  handed := []
  closed := []
  nextSock := 0
  nextChan := 0

/-- `register_opt` or `reregister` is called for the token. -/
def pass (self : Net P Out) (t : Token) (i : Interest) : Net P Out :=
  { self with passed := Function.update self.passed t (some i) }

/-- A connection is inserted and registered with the interest. -/
def opened (self : Net P Out) (t : Token) (conns : Slab (Connection P)) (i : Interest) :
    Net P Out :=
  { self with conns := conns, nextSock := self.nextSock + 1 }.pass t i

section Methods

variable (proto : Protocol P Out) (fuel : ℕ) (self : Net P Out)

/-- `EngineInner::connect`, after the name has been resolved. -/
def connect (hostname : String) (port : ℕ) (socket : Except String Unit) (slot : Option Token)
    (register connected : Except String Unit) :
    Outcome (Net P Out × Except String NetStream) :=
  match socket with
  | Except.error e => pure (self, Except.error ("Failed to create new socket, error:" ++ e))
  | Except.ok () => do
      let sock : TcpSocket := ⟨self.nextSock, []⟩
      let tx := self.nextChan
      let r ← self.conns.insert slot (Connection.new proto sock tx self.config.newBuf)
      match r with
      | none =>
          pure ({ self with nextSock := self.nextSock + 1, nextChan := self.nextChan + 1 },
            Except.error "Failed to insert into connection slab")
      | some (tok, conns) =>
          let self := { self.opened tok conns Interest.READABLE with nextChan := self.nextChan + 1 }
          match register with
          | Except.error e =>
              pure (self, Except.error ("Failed to register with the event loop, error: " ++ e))
          | Except.ok () =>
              match connected with
              | Except.ok () =>
                  pure ({ self with handed := self.handed ++ [(sock.id, tok)] },
                    Except.ok ⟨tok, tx⟩)
              | Except.error e =>
                  pure (self, Except.error ("Failed to connect to " ++ hostname.quote ++ ":"
                    ++ toString port ++ ", error: " ++ e))

/-- `EngineInner::listen`, after the name has been resolved. -/
def listen (addr : String) (port : ℕ) (socket bind listen : Except String Unit)
    (slot : Option Token) (register : Except String Unit) :
    Outcome (Net P Out × Except String ℕ) :=
  let place := addr.quote ++ ":" ++ toString port
  match socket with
  | Except.error e => pure (self, Except.error ("Failed to create TCP socket, error:" ++ e))
  | Except.ok () =>
      match bind with
      | Except.error e =>
          pure (self, Except.error ("Failed to bind to " ++ place ++ ", error:" ++ e))
      | Except.ok () =>
          match listen with
          | Except.error e =>
              pure (self, Except.error ("Failed to listen to socket " ++ place ++ ", error:" ++ e))
          | Except.ok () => do
              let tx := self.nextChan
              let r ← self.listeners.insert slot tx
              let self := { self with nextChan := self.nextChan + 1 }
              match r with
              | none => pure (self, Except.error "failed to insert into listener slab")
              | some (token, listeners) =>
                  let self := { self with listeners := listeners }.pass token Interest.READABLE
                  match register with
                  | Except.error e =>
                      pure (self, Except.error ("event registration failed: " ++ e))
                  | Except.ok () => pure (self, Except.ok tx)

/-- The branch of `readable` for a listener: accept, and re-register the listener. -/
def accept (token : Token) (tx : ℕ) (answer : AcceptAnswer) : Outcome (Net P Out) := do
  let self ← match answer with
    | AcceptAnswer.ready slot => do
        let sock : TcpSocket := ⟨self.nextSock, []⟩
        let r ← self.conns.insert slot (Connection.new proto sock tx self.config.newBuf)
        match r with
        | some (tok, conns) =>
            pure (self.opened tok conns (Interest.READABLE.insert Interest.HUP))
        | none => pure { self with nextSock := self.nextSock + 1 }
    | AcceptAnswer.failed => pure self
  pure (self.pass token Interest.READABLE)

/-- The tail of `readable` for a connection that has been read: hang up, or listen again. -/
def settle (token : Token) (c : Connection P) (hup : Bool) : Net P Out :=
  if hup then
    { self with conns := self.conns.remove token, closed := self.closed ++ [c.sock] }
  else
    let c := { c with interest := c.interest.insert Interest.READABLE }
    { self with conns := self.conns.put token c }.pass token c.interest

/-- `readable`; `hup` says that the hint contains `HUPHINT`. -/
def readable (token : Token) (hup : Bool) (answer : AcceptAnswer) (read : ReadAnswer) :
    Outcome (Net P Out) :=
  match self.listeners.get token with
  | some tx => self.accept proto token tx answer
  | none =>
      match self.conns.get token with
      | none => pure self
      | some c => do
          let (c, msgs) ← c.readAnswered proto self.config token fuel read
          let self := { self with
            sent := self.sent ++ msgs.map fun m => (c.connTx, m)
            handed := self.handed ++ msgs.map fun _ => (c.sock.id, token) }
          pure (self.settle token c hup)

/-- The tail of `writable` and `notify` for a connection that has been drained: ask for a writable
event if something is left. -/
def flushed (token : Token) (c : Connection P) : Net P Out :=
  if c.outbuf.length > 0 then
    let c := { c with interest := c.interest.insert Interest.WRITABLE }
    { self with conns := self.conns.put token c }.pass token c.interest
  else { self with conns := self.conns.put token c }

/-- What `writable` and `notify` do with a connection. -/
def drained (token : Token) (c : Connection P) (answers : List WriteAnswer) :
    Outcome (Net P Out) := do
  let (c, unasked) ← c.drainWriteQueueToSocket answers
  if unasked = [] then pure (self.flushed token c) else Outcome.stuck

/-- `writable` -/
def writable (token : Token) (answers : List WriteAnswer) : Outcome (Net P Out) :=
  match self.conns.get token with
  | some c => self.drained token c answers
  | none => if answers = [] then pure self else Outcome.stuck

/-- `notify` -/
def notify (msg : StreamBuf) (answers : List WriteAnswer) : Outcome (Net P Out) :=
  let tok := msg.tok
  match self.conns.get tok with
  | some c => self.drained tok { c with outbuf := c.outbuf ++ [msg] } answers
  | none => if answers = [] then pure self else Outcome.stuck

end Methods

/-! ## One event -/

inductive Event where
  | connect (hostname : String) (port : ℕ) (socket : Except String Unit) (slot : Option Token)
      (register connected : Except String Unit)
  | listen (addr : String) (port : ℕ) (socket bind listen : Except String Unit)
      (slot : Option Token) (register : Except String Unit)
  | readable (token : Token) (hup : Bool) (answer : AcceptAnswer) (read : ReadAnswer)
  | writable (token : Token) (answers : List WriteAnswer)
  | notify (answers : List WriteAnswer)
  | send (msg : StreamBuf)

/-- A client connects and gets the slot. -/
def Event.connected (slot : Token) : Event :=
  Event.connect "localhost" 10000 (Except.ok ()) (some slot) (Except.ok ()) (Except.ok ())

/-- One event of the system: a call on the engine, an event of the loop, the loop taking the oldest
message off its queue, or a client thread sending one with a token it has been handed. -/
def step (proto : Protocol P Out) (fuel : ℕ) (self : Net P Out) : Event → Outcome (Net P Out)
  | Event.connect hostname port socket slot register connected =>
      Prod.fst <$> self.connect proto hostname port socket slot register connected
  | Event.listen addr port socket bind listen slot register =>
      Prod.fst <$> self.listen addr port socket bind listen slot register
  | Event.readable token hup answer read => self.readable proto fuel token hup answer read
  | Event.writable token answers => self.writable token answers
  | Event.notify answers =>
      match self.queue with
      | [] => Outcome.stuck
      | msg :: queue => { self with queue := queue }.notify msg answers
  | Event.send msg =>
      if (msg.owner, msg.tok) ∈ self.handed then
        pure { self with queue := self.queue ++ [msg] }
      else Outcome.stuck

end Net

end Rx
