import Mathlib.Data.List.Count
import RxRust.Reactor.Pipe

/-!
# The event loop behind bounded channels

The channels of the engine are `sync_channel(queue_size)`: a `send` on a full one waits until the
receiver has taken a message, and `readable` sends from inside its loop, one message after the
other.  So the event loop can be caught in the middle of a handler, while client threads read their
channels, drop them, and send to the loop's queue.

`Engine` has the handlers run in one piece and lets a channel hold anything.  Here a `readable` that
finds bytes is taken apart into the turns of its loop, and the channels are as long as they are.

* `Backpressure.step` — one event: a call on the engine or an event of the loop while it is idle, a
  client thread sending, one turn of the loop of `readable`, a receiver taking a message or going
  away.  A channel of size zero hands a message over when both sides are there.
* `Moves` — what an event can do, and it does nothing else.
* `Filled` — what a receiver has taken and what waits for it is what was sent on its channel.
-/

namespace Rx

open Core

namespace Backpressure

/-! ## The system -/

/-- `readable` of a connection, at the top of its loop. -/
structure Reading (P : Type) where
  token : Token
  hup : Bool
  c : Connection P
  abuf : AROIobuf

/-- What the event loop is doing: nothing, or it is in the loop of `readable`, where it decodes, or
waits in the `send` of an item. -/
inductive Loop (P Out : Type) where
  | idle
  | decoding (r : Reading P)
  | sending (r : Reading P) (item : Out) (remaining : AROIobuf) (consumed : ℕ)

/-- The engine, what its event loop is doing, and the channels: what waits in them, which of the
receivers are gone, and what the receivers have taken. -/
structure State (P Out : Type) where
  net : Net P Out
  loop : Loop P Out
  buffer : ℕ → List (ProtoMsg Out)
  gone : ℕ → Bool
  received : ℕ → List (ProtoMsg Out)

inductive Event where
  | net (e : Net.Event)
  | turn
  | recv (tx : ℕ)
  | drop (tx : ℕ)

/-- The event of the engine, if it is one. -/
def Event.net? : Event → Option Net.Event
  | net e => some e
  | _ => none

variable {P Out : Type}

/-- A new engine. -/
def start (cfg : NetEngineConfig) : State P Out where
  net := Net.new cfg
  loop := Loop.idle
  buffer := fun _ => []
  gone := fun _ => false
  received := fun _ => []

/-- The connection that the event reads bytes from, and the bytes. -/
def reads (self : Net P Out) : Net.Event → Option (Token × Bool × Connection P × List UInt8)
  | Net.Event.readable token hup _ (ReadAnswer.ready data) =>
      match self.listeners.get token with
      | some _ => none
      | none => (self.conns.get token).map fun c => (token, hup, c, data)
  | _ => none

/-- What `readable` does to the buffer after its loop, which left `abuf`. -/
def rolledOver (config : NetEngineConfig) (c : Connection P) (abuf : AROIobuf) : Connection P :=
  if c.buf.len < config.minReadBufSz % 2 ^ 32 then
    let newbuf := config.newBuf
    let newbuf := if abuf.len > 0 then newbuf.fill abuf.window else newbuf
    { c with buf := newbuf, marker := 0 }
  else c

@[simp] lemma rolledOver_connTx (config : NetEngineConfig) (c : Connection P) (abuf : AROIobuf) :
    (rolledOver config c abuf).connTx = c.connTx := by
  rw [rolledOver]
  split_ifs <;> rfl

@[simp] lemma rolledOver_sock (config : NetEngineConfig) (c : Connection P) (abuf : AROIobuf) :
    (rolledOver config c abuf).sock = c.sock := by
  rw [rolledOver]
  split_ifs <;> rfl

/-- The item has been sent: `abuf = remaining; c.marker += consumed`. -/
def Reading.after (r : Reading P) (remaining : AROIobuf) (consumed : ℕ) : Reading P :=
  { r with c := { r.c with marker := (r.c.marker + consumed) % 2 ^ 32 }, abuf := remaining }

/-- The engine notes the message. -/
def tell (self : Net P Out) (r : Reading P) (item : Out) : Net P Out :=
  { self with
    sent := self.sent ++ [(r.c.connTx, ⟨item, r.token⟩)]
    handed := self.handed ++ [(r.c.sock.id, r.token)] }

section Step

variable (proto : Protocol P Out) (s : State P Out)

/-- An event finds the loop idle: a `readable` with bytes goes into its loop, everything else is
done in one piece. -/
def begin (e : Net.Event) : Outcome (State P Out) :=
  match reads s.net e with
  | some (token, hup, c, data) =>
      if data.length ≤ c.buf.len then
        let buf := c.buf.fill data
        match buf.atomicSlicePosFromBegin c.marker data.length with
        | none => Outcome.panic "called `Result::unwrap()` on an `Err` value"
        | some abuf =>
            pure { s with loop := Loop.decoding ⟨token, hup, { c with buf := buf }, abuf⟩ }
      else Outcome.stuck
  | none => do
      let net ← s.net.step proto 0 e
      pure { s with net := net }

/-- The loop of `readable` goes on: it decodes the next item, or the item it has goes into the
channel, or nowhere if the receiver is gone. -/
def turn : Outcome (State P Out) :=
  match s.loop with
  | Loop.idle => Outcome.stuck
  | Loop.decoding r => do
      let (p, found) ← proto.append r.c.proto r.abuf
      let c := { r.c with proto := p }
      match found with
      | none =>
          pure { s with
            net := s.net.settle r.token (rolledOver s.net.config c r.abuf) r.hup
            loop := Loop.idle }
      | some (item, remaining, consumed) =>
          pure { s with loop := Loop.sending { r with c := c } item remaining consumed }
  | Loop.sending r item remaining consumed =>
      let tx := r.c.connTx
      let s' := { s with
        net := tell s.net r item
        loop := Loop.decoding (r.after remaining consumed) }
      if s.gone tx then pure s'
      else if (s.buffer tx).length < s.net.config.queueSize then
        pure { s' with buffer := Function.update s.buffer tx (s.buffer tx ++ [⟨item, r.token⟩]) }
      else Outcome.stuck

/-- The receiver takes the first message, or waits for one. -/
def recv (tx : ℕ) : Outcome (State P Out) :=
  if s.gone tx then Outcome.stuck
  else match s.buffer tx with
    | msg :: rest =>
        pure { s with
          buffer := Function.update s.buffer tx rest
          received := Function.update s.received tx (s.received tx ++ [msg]) }
    | [] => match s.loop with
      | Loop.sending r item remaining consumed =>
          -- nothing is kept in a channel of size zero
          if r.c.connTx = tx ∧ s.net.config.queueSize = 0 then
            pure { s with
              net := tell s.net r item
              loop := Loop.decoding (r.after remaining consumed)
              received := Function.update s.received tx (s.received tx ++ [⟨item, r.token⟩]) }
          else Outcome.stuck
      | _ => Outcome.stuck

/-- One event of the system.  The loop has one thing to do at a time; client threads do not wait for
it. -/
def step : Event → Outcome (State P Out)
  | Event.net (Net.Event.send msg) => do
      let net ← s.net.step proto 0 (Net.Event.send msg)
      pure { s with net := net }
  | Event.net e => match s.loop with
    | Loop.idle => begin proto s e
    | _ => Outcome.stuck
  | Event.turn => turn proto s
  | Event.recv tx => recv s tx
  | Event.drop tx =>
      if s.gone tx then Outcome.stuck
      else pure { s with
        gone := Function.update s.gone tx true
        buffer := Function.update s.buffer tx [] }

end Step

/-! ## What an event can do -/

section Moves

variable (proto : Protocol P Out) (s : State P Out)

/-- **What an event can do.** -/
inductive Moves : Event → State P Out → Prop
  | posted {msg : StreamBuf} : (msg.owner, msg.tok) ∈ s.net.handed →
      Moves (Event.net (Net.Event.send msg))
        { s with net := { s.net with queue := s.net.queue ++ [msg] } }
  | whole {e : Net.Event} {net : Net P Out} : s.loop = Loop.idle → reads s.net e = none →
      s.net.step proto 0 e = Outcome.ret net → Moves (Event.net e) { s with net := net }
  | begun {token : Token} {hup : Bool} {answer : AcceptAnswer} {data : List UInt8}
      {c : Connection P} {abuf : AROIobuf} : s.loop = Loop.idle →
      s.net.listeners.get token = none → s.net.conns.get token = some c →
      data.length ≤ c.buf.len →
      (c.buf.fill data).atomicSlicePosFromBegin c.marker data.length = some abuf →
      Moves (Event.net (Net.Event.readable token hup answer (ReadAnswer.ready data)))
        { s with loop := Loop.decoding ⟨token, hup, { c with buf := c.buf.fill data }, abuf⟩ }
  | finished {r : Reading P} {p : P} : s.loop = Loop.decoding r →
      proto.append r.c.proto r.abuf = Outcome.ret (p, none) →
      Moves Event.turn { s with
        net := s.net.settle r.token (rolledOver s.net.config { r.c with proto := p } r.abuf) r.hup
        loop := Loop.idle }
  | found {r : Reading P} {p : P} {item : Out} {remaining : AROIobuf} {consumed : ℕ} :
      s.loop = Loop.decoding r →
      proto.append r.c.proto r.abuf = Outcome.ret (p, some (item, remaining, consumed)) →
      Moves Event.turn { s with
        loop := Loop.sending { r with c := { r.c with proto := p } } item remaining consumed }
  | lost {r : Reading P} {item : Out} {remaining : AROIobuf} {consumed : ℕ} :
      s.loop = Loop.sending r item remaining consumed → s.gone r.c.connTx = true →
      Moves Event.turn { s with
        net := tell s.net r item
        loop := Loop.decoding (r.after remaining consumed) }
  | kept {r : Reading P} {item : Out} {remaining : AROIobuf} {consumed : ℕ} :
      s.loop = Loop.sending r item remaining consumed → s.gone r.c.connTx = false →
      (s.buffer r.c.connTx).length < s.net.config.queueSize →
      Moves Event.turn { s with
        net := tell s.net r item
        loop := Loop.decoding (r.after remaining consumed)
        buffer := Function.update s.buffer r.c.connTx
          (s.buffer r.c.connTx ++ [⟨item, r.token⟩]) }
  | taken {tx : ℕ} {msg : ProtoMsg Out} {rest : List (ProtoMsg Out)} : s.gone tx = false →
      s.buffer tx = msg :: rest →
      Moves (Event.recv tx) { s with
        buffer := Function.update s.buffer tx rest
        received := Function.update s.received tx (s.received tx ++ [msg]) }
  | handed {r : Reading P} {item : Out} {remaining : AROIobuf} {consumed : ℕ} :
      s.loop = Loop.sending r item remaining consumed → s.gone r.c.connTx = false →
      s.buffer r.c.connTx = [] → s.net.config.queueSize = 0 →
      Moves (Event.recv r.c.connTx) { s with
        net := tell s.net r item
        loop := Loop.decoding (r.after remaining consumed)
        received := Function.update s.received r.c.connTx
          (s.received r.c.connTx ++ [⟨item, r.token⟩]) }
  | dropped {tx : ℕ} : s.gone tx = false →
      Moves (Event.drop tx) { s with
        gone := Function.update s.gone tx true
        buffer := Function.update s.buffer tx [] }

end Moves

variable {proto : Protocol P Out} {s u : State P Out}

lemma reads_some {net : Net P Out} {e : Net.Event} {token : Token} {hup : Bool}
    {c : Connection P} {data : List UInt8} (h : reads net e = some (token, hup, c, data)) :
    ∃ answer, e = Net.Event.readable token hup answer (ReadAnswer.ready data) ∧
      net.listeners.get token = none ∧ net.conns.get token = some c := by
  cases e with
  | readable token' hup' answer read =>
      cases read with
      | ready data' =>
          cases hl : net.listeners.get token' with
          | some tx => simp [reads, hl] at h
          | none =>
              simp only [reads, hl, Option.map_eq_some_iff, Prod.mk.injEq] at h
              obtain ⟨c', hc, rfl, rfl, rfl, rfl⟩ := h
              exact ⟨answer, rfl, hl, hc⟩
      | _ => cases h
  | _ => cases h

lemma begin_moves {e : Net.Event} (hidle : s.loop = Loop.idle)
    (h : begin proto s e = Outcome.ret u) : Moves proto s (Event.net e) u := by
  cases hreads : reads s.net e with
  | none =>
      simp only [begin, hreads] at h
      obtain ⟨net, hnet, h⟩ := Outcome.bind_eq_ret.mp h
      obtain rfl := Outcome.ret.inj h
      exact Moves.whole hidle hreads hnet
  | some found =>
      obtain ⟨token, hup, c, data⟩ := found
      obtain ⟨answer, rfl, hl, hc⟩ := reads_some hreads
      simp only [begin, hreads] at h
      obtain ⟨hlen, h⟩ := Outcome.guard_eq_ret.mp h
      cases hslice : (c.buf.fill data).atomicSlicePosFromBegin c.marker data.length with
      | none => simp [hslice] at h
      | some abuf =>
          simp only [hslice] at h
          obtain rfl := Outcome.ret.inj h
          exact Moves.begun hidle hl hc hlen hslice

lemma turn_moves (h : turn proto s = Outcome.ret u) : Moves proto s Event.turn u := by
  cases hloop : s.loop with
  | idle => simp [turn, hloop] at h
  | decoding r =>
      simp only [turn, hloop] at h
      obtain ⟨⟨p, found⟩, happend, h⟩ := Outcome.bind_eq_ret.mp h
      cases found with
      | none =>
          obtain rfl := Outcome.ret.inj h
          exact Moves.finished hloop happend
      | some found =>
          obtain rfl := Outcome.ret.inj h
          exact Moves.found hloop happend
  | sending r item remaining consumed =>
      cases hgone : s.gone r.c.connTx with
      | true =>
          simp only [turn, hloop, hgone, if_true] at h
          obtain rfl := Outcome.ret.inj h
          exact Moves.lost hloop hgone
      | false =>
          simp only [turn, hloop, hgone, Bool.false_eq_true, if_false] at h
          obtain ⟨hroom, h⟩ := Outcome.guard_eq_ret.mp h
          obtain rfl := Outcome.ret.inj h
          exact Moves.kept hloop hgone hroom

lemma recv_moves {tx : ℕ} (h : recv s tx = Outcome.ret u) : Moves proto s (Event.recv tx) u := by
  cases hgone : s.gone tx with
  | true => simp [recv, hgone] at h
  | false =>
      cases hbuffer : s.buffer tx with
      | cons msg rest =>
          simp only [recv, hgone, hbuffer, Bool.false_eq_true, if_false] at h
          obtain rfl := Outcome.ret.inj h
          exact Moves.taken hgone hbuffer
      | nil =>
          cases hloop : s.loop with
          | sending r item remaining consumed =>
              simp only [recv, hgone, hbuffer, hloop, Bool.false_eq_true, if_false] at h
              obtain ⟨⟨rfl, hsize⟩, h⟩ := Outcome.guard_eq_ret.mp h
              obtain rfl := Outcome.ret.inj h
              exact Moves.handed hloop hgone hbuffer hsize
          | _ => simp [recv, hgone, hbuffer, hloop] at h

/-- An event does one of these. -/
lemma step_moves {e : Event} (h : step proto s e = Outcome.ret u) : Moves proto s e u := by
  cases e with
  | net e =>
      by_cases hsend : ∃ msg, e = Net.Event.send msg
      · obtain ⟨msg, rfl⟩ := hsend
        obtain ⟨net, hnet, h⟩ := Outcome.bind_eq_ret.mp h
        obtain rfl := Outcome.ret.inj h
        obtain ⟨hmem, hnet⟩ := Outcome.guard_eq_ret.mp hnet
        obtain rfl := Outcome.ret.inj hnet
        exact Moves.posted hmem
      · have hbegin : s.loop = Loop.idle ∧ begin proto s e = Outcome.ret u := by
          cases e with
          | send msg => exact absurd ⟨msg, rfl⟩ hsend
          | _ =>
              simp only [step] at h
              split at h
              · exact ⟨‹_›, h⟩
              · cases h
        exact begin_moves hbegin.1 hbegin.2
  | turn => exact turn_moves h
  | recv tx => exact recv_moves h
  | drop tx =>
      cases hgone : s.gone tx with
      | true => simp [step, hgone] at h
      | false =>
          simp only [step, hgone, Bool.false_eq_true, if_false] at h
          obtain rfl := Outcome.ret.inj h
          exact Moves.dropped hgone

/-- And each of these is what the event does. -/
lemma step_of_moves {e : Event} (h : Moves proto s e u) : step proto s e = Outcome.ret u := by
  cases h with
  | posted hmem => simp [step, Net.step, hmem]
  | @whole e net hidle hreads hnet =>
      cases e with
      | send msg => simp [step, hnet]
      | _ => simp [step, hidle, begin, hreads, hnet]
  | begun hidle hl hc hlen hslice =>
      simp [step, hidle, begin, reads, hl, hc, hslice, if_pos hlen]
  | finished hloop happend => simp [step, turn, hloop, happend]
  | found hloop happend => simp [step, turn, hloop, happend]
  | lost hloop hgone => simp [step, turn, hloop, hgone]
  | kept hloop hgone hroom => simp [step, turn, hloop, hgone, if_pos hroom]
  | taken hgone hbuffer => simp [step, recv, hgone, hbuffer]
  | handed hloop hgone hbuffer hsize => simp [step, recv, hloop, hgone, hbuffer, hsize]
  | dropped hgone => simp [step, hgone]

/-! ## The channels -/

/-- A channel of size `cap` on which `sent` was sent: what its receiver has taken and what waits for
it. -/
structure Holds {M : Type} (cap : ℕ) (sent taken waiting : List M) (gone : Bool) : Prop where
  taken_prefix : taken <+: sent
  all : gone = false → taken ++ waiting = sent
  bounded : waiting.length ≤ cap

namespace Holds

variable {M : Type} {cap : ℕ} {sent taken waiting : List M} {gone : Bool} {msg : M}

lemma push (h : Holds cap sent taken waiting false) (hroom : waiting.length < cap) :
    Holds cap (sent ++ [msg]) taken (waiting ++ [msg]) false := by
  have hall := h.all rfl
  refine ⟨h.taken_prefix.trans (List.prefix_append _ _), by simp [← hall], ?_⟩
  rw [List.length_append]
  exact hroom

lemma lose (h : Holds cap sent taken waiting true) :
    Holds cap (sent ++ [msg]) taken waiting true :=
  ⟨h.taken_prefix.trans (List.prefix_append _ _), by simp, h.bounded⟩

lemma take (h : Holds cap sent taken (msg :: waiting) false) :
    Holds cap sent (taken ++ [msg]) waiting false := by
  have hall := h.all rfl
  exact ⟨by simp [← hall], by simp [← hall], Nat.le_of_succ_le h.bounded⟩

lemma hand (h : Holds cap sent taken [] false) :
    Holds cap (sent ++ [msg]) (taken ++ [msg]) [] false := by
  have hall := h.all rfl
  exact ⟨by simp [← hall], by simp [← hall], Nat.zero_le _⟩

lemma leave (h : Holds cap sent taken waiting gone) : Holds cap sent taken [] true :=
  ⟨h.taken_prefix, by simp, Nat.zero_le _⟩

end Holds

/-- Every channel holds what it should. -/
def Filled (s : State P Out) : Prop :=
  ∀ tx, Holds s.net.config.queueSize (s.net.channel tx) (s.received tx) (s.buffer tx) (s.gone tx)

@[simp] lemma config_tell (net : Net P Out) (r : Reading P) (item : Out) :
    (tell net r item).config = net.config := rfl

lemma channel_tell (net : Net P Out) (r : Reading P) (item : Out) :
    (tell net r item).channel r.c.connTx = net.channel r.c.connTx ++ [⟨item, r.token⟩] := by
  simp [tell, Net.channel]

lemma channel_tell_ne (net : Net P Out) (r : Reading P) (item : Out) {tx : ℕ}
    (h : tx ≠ r.c.connTx) : (tell net r item).channel tx = net.channel tx := by
  simp [tell, Net.channel, h.symm]

/-- An event that reads no bytes sends nothing. -/
lemma sent_of_reads_none {net net' : Net P Out} {e : Net.Event} (hreads : reads net e = none)
    (h : net.step proto 0 e = Outcome.ret net') : net'.sent = net.sent := by
  rcases Net.step_sent h with hsame | ⟨t, hup, answer, read, k, k', msgs, rfl, hl, hk, hread, hsent⟩
  · exact hsame
  · cases read with
    | ready data => simp [reads, hl, hk] at hreads
    | wouldBlock =>
        obtain ⟨-, rfl⟩ := Prod.mk.inj (Outcome.ret.inj hread)
        simpa using hsent
    | err e =>
        obtain ⟨-, rfl⟩ := Prod.mk.inj (Outcome.ret.inj hread)
        simpa using hsent

lemma filled_start (cfg : NetEngineConfig) : Filled (start cfg : State P Out) :=
  fun _ => ⟨List.nil_prefix, fun _ => rfl, Nat.zero_le _⟩

/-- If the record and the channels stay, so does what is said of them. -/
lemma Filled.same (h : Filled s) {net : Net P Out} {loop : Loop P Out}
    (hsent : net.sent = s.net.sent) (hconfig : net.config = s.net.config) :
    Filled { s with net := net, loop := loop } := by
  intro tx
  have htx := h tx
  rwa [Net.channel, ← hsent, ← hconfig] at htx

lemma config_step {e : Event} (hs : step proto s e = Outcome.ret u) :
    u.net.config = s.net.config := by
  cases step_moves hs with
  | whole hidle hreads hnet => exact (Net.step_laid hnet).config
  | finished hloop happend => exact (Net.settle_laid _ _ _ _).config
  | _ => rfl

/-- Every event keeps the channels filled: it changes one of them at most. -/
lemma Filled.step (h : Filled s) {e : Event} (hs : step proto s e = Outcome.ret u) : Filled u := by
  cases step_moves hs with
  | posted hmem => exact h.same rfl rfl
  | whole hidle hreads hnet =>
      exact h.same (sent_of_reads_none hreads hnet) (Net.step_laid hnet).config
  | begun hidle hl hc hlen hslice => exact h.same rfl rfl
  | finished hloop happend =>
      exact h.same (Net.settle_sent _ _ _ _) (Net.settle_laid _ _ _ _).config
  | found hloop happend => exact h.same rfl rfl
  | @lost r item remaining consumed hloop hgone =>
      intro tx
      have htx := h tx
      by_cases hown : tx = r.c.connTx
      · subst hown
        rw [hgone] at htx
        simpa [channel_tell, hgone] using htx.lose
      · simpa [channel_tell_ne _ _ _ hown] using htx
  | @kept r item remaining consumed hloop hgone hroom =>
      intro tx
      have htx := h tx
      by_cases hown : tx = r.c.connTx
      · subst hown
        rw [hgone] at htx
        simpa [channel_tell, hgone] using htx.push hroom
      · simpa [channel_tell_ne _ _ _ hown, hown] using htx
  | @taken tx' msg rest hgone hbuffer =>
      intro tx
      have htx := h tx
      by_cases hown : tx = tx'
      · subst hown
        rw [hgone, hbuffer] at htx
        simpa [hgone] using htx.take
      · simpa [hown] using htx
  | @handed r item remaining consumed hloop hgone hbuffer hsize =>
      intro tx
      have htx := h tx
      by_cases hown : tx = r.c.connTx
      · subst hown
        rw [hgone, hbuffer] at htx
        simpa [channel_tell, hgone, hbuffer] using htx.hand
      · simpa [channel_tell_ne _ _ _ hown, hown] using htx
  | @dropped tx' hgone =>
      intro tx
      have htx := h tx
      by_cases hown : tx = tx'
      · subst hown
        simpa using htx.leave
      · simpa [hown] using htx

end Backpressure

end Rx
