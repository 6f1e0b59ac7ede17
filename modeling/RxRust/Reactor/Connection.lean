import Mathlib.Tactic.SplitIfs
import RxRust.Reactor.Buffers

/-!
# Connections

`Connection` of `reactor.rs` and the two loops that work on one: the loop that decodes what was read
and the loop that drains the write queue.  What the socket does is given by its answers, one for
each call; a call for which no answer is left has not come back.

* `Protocol`, `BufProtocol` — how bytes become messages (`protocol.rs`).
* `decode` — the loop in `readable` that feeds a view to the protocol.  The number of rounds is
  bounded by an argument, and a loop that needs more is `stuck`.
* `Connection.received` — what `readable` does with a read, up to the roll-over of the read buffer.
* `Connection.drainWriteQueueToSocket` — writes the queue out until the socket blocks.
-/

namespace Rx

open Core

/-! ## Sockets -/

/-- `event::Interest`: a set of three flags. -/
structure Interest where
  readable : Bool
  writable : Bool
  hup : Bool
  deriving Repr, DecidableEq

namespace Interest

def READABLE : Interest := ⟨true, false, false⟩
def WRITABLE : Interest := ⟨false, true, false⟩
def HUP : Interest := ⟨false, false, true⟩

/-- `insert`, and `|`. -/
def insert (self other : Interest) : Interest :=
  ⟨self.readable || other.readable, self.writable || other.writable, self.hup || other.hup⟩

end Interest

/-- Bytes that a socket took, with the socket their sender meant. -/
structure Written where
  owner : ℕ
  bytes : List UInt8
  deriving Repr, DecidableEq

/-- A socket, with everything written to it so far. -/
structure TcpSocket where
  id : ℕ
  written : List Written
  deriving Repr, DecidableEq

/-- The bytes a socket has taken. -/
def TcpSocket.sent (self : TcpSocket) : List UInt8 := self.written.flatMap Written.bytes

/-- What a socket answers to a read. -/
inductive ReadAnswer where
  | ready (data : List UInt8)
  | wouldBlock
  | err (e : String)
  deriving Repr, DecidableEq

/-- What a socket answers to a write. -/
inductive WriteAnswer where
  | ready (n : ℕ)
  | wouldBlock
  | err (e : String)
  deriving Repr, DecidableEq

/-- The socket took nothing. -/
def WriteAnswer.blocks : WriteAnswer → Bool
  | ready _ => false
  | wouldBlock => true
  | err _ => true

/-! ## Protocols -/

/-- A message and the token of the connection it came from. -/
structure ProtoMsg (Out : Type) where
  item : Out
  tok : Token

/-- The `Protocol` trait for an implementing type `P`. -/
structure Protocol (P Out : Type) where
  new : P
  append : P → AROIobuf → Outcome (P × Option (Out × AROIobuf × ℕ))

/-- `BufProtocol<S>` where `size` is `S::size()`. -/
def BufProtocol (size : ℕ) : Protocol Unit AROIobuf where
  new := ()
  append := fun _ buf =>
    if buf.len ≥ size then
      match buf.splitAt size with
      | some (a, b) => pure ((), some (a, b, size))
      | none => Outcome.panic "called `Result::unwrap()` on an `Err` value"
    else pure ((), none)

section Decode

variable {P Out : Type}

/-- The loop of `readable`: the protocol's state, the view, the marker and the messages sent so
far. -/
def decode (proto : Protocol P Out) (token : Token) :
    (fuel : ℕ) → P → AROIobuf → ℕ → List (ProtoMsg Out) →
      Outcome (P × AROIobuf × ℕ × List (ProtoMsg Out))
  | 0, _, _, _, _ => Outcome.stuck
  | fuel + 1, p, abuf, marker, sent => do
      let r ← proto.append p abuf
      match r.2 with
      | none => pure (r.1, abuf, marker, sent)
      | some (item, remaining, consumed) =>
          decode proto token fuel r.1 remaining ((marker + consumed) % 2 ^ 32)
            (sent ++ [⟨item, token⟩])

end Decode

/-! ## Connections -/

/-- `NetEngineConfig`, the fields the engine reads.  `iobuf` lengths are 32-bit. -/
structure NetEngineConfig where
  queueSize : ℕ
  readBufSz : ℕ
  minReadBufSz : ℕ
  maxConnections : ℕ
  small : readBufSz < 2 ^ 32

/-- The configuration that `NetEngine::new` makes. -/
def NetEngineConfig.defaults : NetEngineConfig where
  queueSize := 524288
  readBufSz := 1536
  minReadBufSz := 64
  maxConnections := 10240
  small := by decide

/-- `new_buf` -/
def NetEngineConfig.newBuf (config : NetEngineConfig) : AppendBuf :=
  AppendBuf.new config.readBufSz config.small

/-- `Connection` with a protocol of state `P`; `connTx` is the number of its channel. -/
structure Connection (P : Type) where
  sock : TcpSocket
  outbuf : List StreamBuf
  interest : Interest
  connTx : ℕ
  marker : ℕ
  proto : P
  buf : AppendBuf

namespace Connection

variable {P Out : Type}

/-- `Connection::new` -/
def new (proto : Protocol P Out) (s : TcpSocket) (tx : ℕ) (rbuf : AppendBuf) : Connection P where
  sock := s
  outbuf := []
  interest := Interest.HUP
  connTx := tx
  marker := 0
  proto := proto.new
  buf := rbuf

/-- `drain_write_queue_to_socket`, with the answers to its writes; what is returned beside the
connection are the answers not asked for.  The count the source returns is the length of
`outbuf`. -/
def drainWriteQueueToSocket (c : Connection P) :
    List WriteAnswer → Outcome (Connection P × List WriteAnswer)
  | [] => match c.outbuf with
    | [] => pure (c, [])
    | _ :: _ => Outcome.stuck
  | answer :: answers => match c.outbuf with
    | [] => pure (c, answer :: answers)
    | msg :: rest => match answer with
      | WriteAnswer.ready n =>
          -- a socket takes no more than it is offered
          if n ≤ msg.remaining then
            let sz := msg.buf.len
            let sock : TcpSocket :=
              { c.sock with written := c.sock.written ++ [⟨msg.owner, msg.bytes.take n⟩] }
            msg.advance n >>= fun msg =>
              if n = sz then drainWriteQueueToSocket { c with sock := sock, outbuf := rest } answers
              else drainWriteQueueToSocket { c with sock := sock, outbuf := msg :: rest } answers
          else Outcome.stuck
      | WriteAnswer.wouldBlock => pure (c, answers)
      | WriteAnswer.err _ => pure (c, answers)

/-- The bytes of a queue, front to back. -/
def outBytes (outbuf : List StreamBuf) : List UInt8 := outbuf.flatMap StreamBuf.bytes

/-- What draining does to a connection, when it comes back after the writes `ws`. -/
structure Drained (c c' : Connection P) (ws : List Written) : Prop where
  rest : c' = { c with sock := c'.sock, outbuf := c'.outbuf }
  sock : c'.sock = { c.sock with written := c.sock.written ++ ws }
  bytes : ws.flatMap Written.bytes ++ outBytes c'.outbuf = outBytes c.outbuf
  owners : ∀ w ∈ ws, ∃ m ∈ c.outbuf, w.owner = m.owner
  queued : ∀ m ∈ c'.outbuf, ∃ m' ∈ c.outbuf, m.owner = m'.owner

lemma Drained.interest {c c' : Connection P} {ws : List Written} (h : Drained c c' ws) :
    c'.interest = c.interest := by
  rw [h.rest]

lemma Drained.refl (c : Connection P) : Drained c c [] := by
  refine ⟨rfl, by simp, rfl, ?_, ?_⟩
  · intro w hw
    cases hw
  · intro m hm
    exact ⟨m, hm, rfl⟩

/-- One write, and then the rest. -/
lemma Drained.write {c c' : Connection P} {msg : StreamBuf} {rest outbuf : List StreamBuf} {n : ℕ}
    {ws : List Written} (hc : c.outbuf = msg :: rest)
    (hbytes : msg.bytes.take n ++ outBytes outbuf = outBytes c.outbuf)
    (howners : ∀ m ∈ outbuf, ∃ m' ∈ c.outbuf, m.owner = m'.owner)
    (h : Drained { c with
        sock := { c.sock with written := c.sock.written ++ [⟨msg.owner, msg.bytes.take n⟩] }
        outbuf := outbuf } c' ws) :
    Drained c c' (⟨msg.owner, msg.bytes.take n⟩ :: ws) := by
  refine ⟨h.rest, ?_, ?_, ?_, ?_⟩
  · rw [h.sock]
    simp
  · rw [← hbytes, ← h.bytes]
    simp
  · intro w hw
    rcases List.mem_cons.mp hw with rfl | hw
    · exact ⟨msg, by rw [hc]; exact List.mem_cons_self, rfl⟩
    · obtain ⟨m, hm, hwm⟩ := h.owners w hw
      obtain ⟨m', hm', hmm⟩ := howners m hm
      exact ⟨m', hm', hwm.trans hmm⟩
  · intro m hm
    obtain ⟨m', hm', hmm⟩ := h.queued m hm
    obtain ⟨m'', hm'', hmm'⟩ := howners m' hm'
    exact ⟨m'', hm'', hmm.trans hmm'⟩

/-- **The drain loop.**  When it comes back it has moved bytes from the front of the queue to the
socket and done nothing else; and, if it used up its answers, something is left in the queue exactly
when one of them was a refusal. -/
theorem drainWriteQueueToSocket_spec {c c' : Connection P} {answers unasked : List WriteAnswer}
    (h : c.drainWriteQueueToSocket answers = Outcome.ret (c', unasked)) :
    (∃ ws, Drained c c' ws) ∧
      (unasked = [] → (c'.outbuf ≠ [] ↔ answers.any WriteAnswer.blocks = true)) := by
  induction answers generalizing c with
  | nil =>
      simp only [drainWriteQueueToSocket] at h
      cases hc : c.outbuf with
      | nil =>
          rw [hc] at h
          obtain ⟨rfl, rfl⟩ := Prod.mk.inj (Outcome.ret.inj h)
          exact ⟨⟨[], Drained.refl c⟩, fun _ => by simp [hc]⟩
      | cons msg rest =>
          rw [hc] at h
          cases h
  | cons answer answers ih =>
      simp only [drainWriteQueueToSocket] at h
      cases hc : c.outbuf with
      | nil =>
          rw [hc] at h
          obtain ⟨rfl, rfl⟩ := Prod.mk.inj (Outcome.ret.inj h)
          exact ⟨⟨[], Drained.refl c⟩, fun hnil => by simp at hnil⟩
      | cons msg rest =>
          rw [hc] at h
          cases answer with
          | ready n =>
              by_cases hn : n ≤ msg.remaining
              · obtain ⟨msg', hadv, hbytes, -, howner⟩ := StreamBuf.advance_eq hn
                simp only [if_pos hn, hadv, Outcome.ret_bind] at h
                have hsplit : msg.bytes.take n ++ (msg'.bytes ++ outBytes rest) = outBytes c.outbuf := by
                  rw [hbytes, ← List.append_assoc, List.take_append_drop, hc]
                  simp [outBytes]
                split_ifs at h with hsz
                · -- the whole buffer was taken
                  obtain ⟨⟨ws, hws⟩, hleft⟩ := ih h
                  have hnil : msg'.bytes = [] := by
                    rw [hbytes, hsz]
                    exact List.drop_length
                  rw [hnil, List.nil_append] at hsplit
                  refine ⟨⟨_, hws.write hc hsplit ?_⟩, ?_⟩
                  · intro m hm
                    exact ⟨m, by rw [hc]; exact List.mem_cons_of_mem _ hm, rfl⟩
                  · intro hr
                    rw [hleft hr]
                    simp [WriteAnswer.blocks]
                · obtain ⟨⟨ws, hws⟩, hleft⟩ := ih h
                  refine ⟨⟨_, hws.write hc ?_ ?_⟩, ?_⟩
                  · rw [← hsplit]
                    simp [outBytes]
                  · intro m hm
                    rcases List.mem_cons.mp hm with rfl | hm
                    · exact ⟨msg, by rw [hc]; exact List.mem_cons_self, howner⟩
                    · exact ⟨m, by rw [hc]; exact List.mem_cons_of_mem _ hm, rfl⟩
                  · intro hr
                    rw [hleft hr]
                    simp [WriteAnswer.blocks]
              · simp only [if_neg hn] at h
                cases h
          | wouldBlock =>
              obtain ⟨rfl, rfl⟩ := Prod.mk.inj (Outcome.ret.inj h)
              exact ⟨⟨[], Drained.refl c⟩, fun _ => by simp [hc, WriteAnswer.blocks]⟩
          | err e =>
              obtain ⟨rfl, rfl⟩ := Prod.mk.inj (Outcome.ret.inj h)
              exact ⟨⟨[], Drained.refl c⟩, fun _ => by simp [hc, WriteAnswer.blocks]⟩

/-- The `unwrap` in `advance` does not fail: a write takes no more than it was offered. -/
lemma drainWriteQueueToSocket_ne_panic (c : Connection P) (answers : List WriteAnswer)
    (msg : String) : c.drainWriteQueueToSocket answers ≠ Outcome.panic msg := by
  induction answers generalizing c with
  | nil =>
      simp only [drainWriteQueueToSocket]
      cases c.outbuf <;> simp
  | cons answer answers ih =>
      simp only [drainWriteQueueToSocket]
      cases hc : c.outbuf with
      | nil => simp
      | cons m rest =>
          cases answer with
          | ready n =>
              by_cases hn : n ≤ m.remaining
              · obtain ⟨m', hadv, -⟩ := StreamBuf.advance_eq hn
                simp only [if_pos hn, hadv, Outcome.ret_bind]
                split_ifs
                · exact ih _
                · exact ih _
              · simp [if_neg hn]
          | wouldBlock => simp
          | err e => simp

/-- What `readable` does with `Ready(n)`: the bytes are in the buffer, are decoded, and the buffer
is rolled over when little room is left. -/
def received (proto : Protocol P Out) (config : NetEngineConfig) (token : Token) (fuel : ℕ)
    (c : Connection P) (data : List UInt8) : Outcome (Connection P × List (ProtoMsg Out)) :=
  -- a socket gives no more than there is room for
  if data.length ≤ c.buf.len then
    let buf := c.buf.fill data
    match buf.atomicSlicePosFromBegin c.marker data.length with
    | none => Outcome.panic "called `Result::unwrap()` on an `Err` value"
    | some abuf => do
        let (p, abuf, marker, sent) ← decode proto token fuel c.proto abuf c.marker []
        let c := { c with proto := p, marker := marker, buf := buf }
        if c.buf.len < config.minReadBufSz % 2 ^ 32 then
          let newbuf := config.newBuf
          let newbuf := if abuf.len > 0 then newbuf.fill abuf.window else newbuf
          pure ({ c with buf := newbuf, marker := 0 }, sent)
        else pure (c, sent)
  else Outcome.stuck

/-- The match on `c.read()` in `readable`. -/
def readAnswered (proto : Protocol P Out) (config : NetEngineConfig) (token : Token) (fuel : ℕ)
    (c : Connection P) : ReadAnswer → Outcome (Connection P × List (ProtoMsg Out))
  | ReadAnswer.ready data => c.received proto config token fuel data
  | ReadAnswer.wouldBlock => pure (c, [])
  | ReadAnswer.err _ => pure (c, [])

/-- Reading touches the protocol, the marker and the buffer, and nothing else. -/
lemma readAnswered_keeps {proto : Protocol P Out} {config : NetEngineConfig} {token : Token}
    {fuel : ℕ} {c : Connection P} {read : ReadAnswer} {c' : Connection P} {msgs : List (ProtoMsg Out)}
    (h : c.readAnswered proto config token fuel read = Outcome.ret (c', msgs)) :
    c' = { c with marker := c'.marker, proto := c'.proto, buf := c'.buf } := by
  cases read with
  | ready data =>
      obtain ⟨-, h⟩ := Outcome.guard_eq_ret.mp h
      cases hslice : (c.buf.fill data).atomicSlicePosFromBegin c.marker data.length with
      | none =>
          rw [hslice] at h
          cases h
      | some abuf =>
          rw [hslice] at h
          obtain ⟨⟨p, abuf', marker, sent⟩, -, h⟩ := Outcome.bind_eq_ret.mp h
          simp only at h
          split_ifs at h
          · obtain ⟨rfl, -⟩ := Prod.mk.inj (Outcome.ret.inj h)
            rfl
          · obtain ⟨rfl, -⟩ := Prod.mk.inj (Outcome.ret.inj h)
            rfl
          · obtain ⟨rfl, -⟩ := Prod.mk.inj (Outcome.ret.inj h)
            rfl
  | wouldBlock =>
      obtain ⟨rfl, -⟩ := Prod.mk.inj (Outcome.ret.inj h)
      rfl
  | err e =>
      obtain ⟨rfl, -⟩ := Prod.mk.inj (Outcome.ret.inj h)
      rfl

end Connection

end Rx
