import RxRust.Reactor.Moves

/-!
# Output in order

A message handed to `notify` goes to the back of the connection's queue; the drain loop takes bytes
off the front, one write at a time, and retries a buffer that was written in part.  Whatever the
socket answers, what it has taken and what is still queued are together what was handed over.

* `Net.OutEvent`, `Net.outStep` — the two handlers that write, called in any order for any tokens.
* `Net.notified` — the bytes handed to `notify` for one token.
* `Net.output_fifo` — the invariant of every schedule.
-/

namespace Rx

open Core

namespace Net

variable {P Out : Type}

/-- A call of one of the two handlers that write, with what the socket answers during it. -/
inductive OutEvent where
  | notify (msg : StreamBuf) (answers : List WriteAnswer)
  | writable (token : Token) (answers : List WriteAnswer)

def outStep (s : Net P Out) : OutEvent → Outcome (Net P Out)
  | OutEvent.notify msg answers => s.notify msg answers
  | OutEvent.writable token answers => s.writable token answers

/-- What one call hands over for the token. -/
def OutEvent.bytes (t : Token) : OutEvent → List UInt8
  | OutEvent.notify msg _ => if msg.tok = t then msg.bytes else []
  | OutEvent.writable _ _ => []

/-- The messages handed over for the token, in order, as one stream. -/
def notified (t : Token) (es : List OutEvent) : List UInt8 := es.flatMap (OutEvent.bytes t)

/-! ## One call -/

/-- A connection that is written back keeps its socket and its queue, and the others are
untouched. -/
lemma flushed_get {s : Net P Out} {t u : Token} {c k : Connection P} (c' : Connection P)
    (ht : s.conns.get t = some c) (hu : s.conns.get u = some k) :
    ∃ k', (s.flushed t c').conns.get u = some k' ∧
      (u = t → k'.sock = c'.sock ∧ k'.outbuf = c'.outbuf) ∧ (u ≠ t → k' = k) := by
  by_cases hnil : c'.outbuf = []
  · rw [flushed_nil hnil]
    by_cases h : u = t
    · subst h
      exact ⟨c', Slab.get_put_of_get c' ht, fun _ => ⟨rfl, rfl⟩, fun hne => absurd rfl hne⟩
    · exact ⟨k, (Slab.get_put_ne c' h).trans hu, fun he => absurd he h, fun _ => rfl⟩
  · rw [flushed_pending hnil]
    by_cases h : u = t
    · subst h
      exact ⟨_, Slab.get_put_of_get _ ht, fun _ => ⟨rfl, rfl⟩, fun hne => absurd rfl hne⟩
    · exact ⟨k, (Slab.get_put_ne _ h).trans hu, fun he => absurd he h, fun _ => rfl⟩

/-- What the socket has taken and what waits behind it. -/
def stream (c : Connection P) : List UInt8 := c.sock.sent ++ Connection.outBytes c.outbuf

/-- Draining moves bytes across the boundary and changes nothing else. -/
lemma stream_drained {c c' : Connection P} {ws : List Written} (h : c.Drained c' ws) :
    stream c' = stream c := by
  rw [stream, stream, ← h.bytes, h.sock]
  simp [TcpSocket.sent]

/-- A connection that is drained and written back keeps its stream, and the others are
untouched. -/
lemma drained_stream {s u : Net P Out} {t tok : Token} {c k k₀ : Connection P}
    {answers : List WriteAnswer} (hk : s.conns.get tok = some k₀) (hc : s.conns.get t = some c)
    (h : s.drained tok k answers = Outcome.ret u) :
    ∃ c', u.conns.get t = some c' ∧ (t = tok → stream c' = stream k) ∧ (t ≠ tok → c' = c) := by
  obtain ⟨k', hdrain, rfl⟩ := drained_eq h
  obtain ⟨⟨ws, hws⟩, -⟩ := Connection.drainWriteQueueToSocket_spec hdrain
  obtain ⟨c', hget, heq, hne⟩ := flushed_get k' hk hc
  refine ⟨c', hget, fun ht => ?_, hne⟩
  obtain ⟨hsock, hout⟩ := heq ht
  calc stream c' = stream k' := by rw [stream, hsock, hout, stream]
    _ = stream k := stream_drained hws

/-- **One call** adds to each connection's stream what it hands over for its token. -/
lemma outStep_stream {s u : Net P Out} {e : OutEvent} {t : Token} {c : Connection P}
    (hc : s.conns.get t = some c) (h : s.outStep e = Outcome.ret u) :
    ∃ c', u.conns.get t = some c' ∧ stream c' = stream c ++ e.bytes t := by
  cases e with
  | notify msg answers =>
      simp only [outStep, notify] at h
      cases hk : s.conns.get msg.tok with
      | none =>
          rw [hk] at h
          obtain ⟨-, h⟩ := Outcome.guard_eq_ret.mp h
          obtain rfl := Outcome.ret.inj h
          have hne : msg.tok ≠ t := by
            intro he
            rw [he, hc] at hk
            cases hk
          exact ⟨c, hc, by simp [OutEvent.bytes, hne]⟩
      | some k =>
          rw [hk] at h
          obtain ⟨c', hget, heq, hne⟩ := drained_stream hk hc h
          refine ⟨c', hget, ?_⟩
          by_cases ht : t = msg.tok
          · subst ht
            obtain rfl : k = c := Option.some.inj (hk.symm.trans hc)
            rw [heq rfl]
            simp [stream, Connection.outBytes, OutEvent.bytes]
          · rw [hne ht]
            simp [OutEvent.bytes, Ne.symm ht]
  | writable token answers =>
      simp only [outStep, writable] at h
      rw [OutEvent.bytes, List.append_nil]
      cases hk : s.conns.get token with
      | none =>
          rw [hk] at h
          obtain ⟨-, h⟩ := Outcome.guard_eq_ret.mp h
          obtain rfl := Outcome.ret.inj h
          exact ⟨c, hc, rfl⟩
      | some k =>
          rw [hk] at h
          obtain ⟨c', hget, heq, hne⟩ := drained_stream hk hc h
          refine ⟨c', hget, ?_⟩
          by_cases ht : t = token
          · subst ht
            obtain rfl : k = c := Option.some.inj (hk.symm.trans hc)
            exact heq rfl
          · rw [hne ht]

lemma drained_ne_panic (s : Net P Out) (t : Token) (c : Connection P) (answers : List WriteAnswer)
    (msg : String) : s.drained t c answers ≠ Outcome.panic msg := by
  rw [drained]
  cases hdrain : c.drainWriteQueueToSocket answers with
  | ret r =>
      rw [Outcome.ret_bind]
      by_cases h : r.2 = []
      · simp [h]
      · simp [h]
  | panic m => exact absurd hdrain (Connection.drainWriteQueueToSocket_ne_panic c answers m)
  | stuck => simp

/-- No call panics. -/
lemma outStep_ne_panic (s : Net P Out) (e : OutEvent) (msg : String) :
    s.outStep e ≠ Outcome.panic msg := by
  cases e with
  | notify m answers =>
      simp only [outStep, notify]
      split
      · exact drained_ne_panic _ _ _ _ _
      · split <;> simp
  | writable token answers =>
      simp only [outStep, writable]
      split
      · exact drained_ne_panic _ _ _ _ _
      · split <;> simp

/-! ## Every schedule -/

/-- Along a schedule the stream of a connection grows by what is handed over for its token. -/
lemma stream_reach {s u : Net P Out} {es : List OutEvent} {t : Token} {c : Connection P}
    (hc : s.conns.get t = some c) (h : Reach outStep anyStep s es u) :
    ∃ c', u.conns.get t = some c' ∧ stream c' = stream c ++ notified t es := by
  induction h with
  | nil => exact ⟨c, hc, by simp [notified]⟩
  | @snoc es v u e _ _ hs ih =>
      obtain ⟨k, hk, hstream⟩ := ih
      obtain ⟨c', hc', hstep⟩ := outStep_stream hk hs
      refine ⟨c', hc', ?_⟩
      rw [hstep, hstream]
      simp [notified]

/-- **Output is in order, without loss or repetition.**  A connection starts with nothing written
and nothing queued; after any calls of `notify` and `writable`, with any answers of the sockets, the
bytes its socket has taken followed by the bytes in its queue are the messages handed over for it,
in order. No further call panics. -/
theorem output_fifo {s u : Net P Out} {es : List OutEvent} {t : Token} {c : Connection P}
    (hc : s.conns.get t = some c) (hwritten : c.sock.written = []) (hout : c.outbuf = [])
    (h : Reach outStep anyStep s es u) :
    (∃ c', u.conns.get t = some c' ∧
      c'.sock.sent ++ Connection.outBytes c'.outbuf = notified t es) ∧
    ∀ e msg, u.outStep e ≠ Outcome.panic msg := by
  obtain ⟨c', hc', hstream⟩ := stream_reach hc h
  refine ⟨⟨c', hc', ?_⟩, fun e msg => outStep_ne_panic u e msg⟩
  have hempty : stream c = [] := by
    simp [stream, TcpSocket.sent, hwritten, hout, Connection.outBytes]
  rw [hempty, List.nil_append] at hstream
  exact hstream

/-- An engine with one connection, at token 256. -/
def oneConnection : Net Unit AROIobuf :=
  (new NetEngineConfig.defaults).opened 256
    (Slab.put (new NetEngineConfig.defaults : Net Unit AROIobuf).conns 256
      (Connection.new (BufProtocol 8) ⟨0, []⟩ 0 NetEngineConfig.defaults.newBuf)) Interest.READABLE

/-- Three bytes of which the socket takes two, an empty message while it refuses, and the rest. -/
def interrupted : List OutEvent :=
  [OutEvent.notify ⟨⟨0, [1, 2, 3], by decide⟩, 256, 0⟩ [WriteAnswer.ready 2, WriteAnswer.wouldBlock],
    OutEvent.notify ⟨⟨0, [], by decide⟩, 256, 0⟩ [WriteAnswer.err "broken pipe"],
    OutEvent.notify ⟨⟨0, [4], by decide⟩, 256, 0⟩
      [WriteAnswer.ready 0, WriteAnswer.ready 1, WriteAnswer.ready 0, WriteAnswer.wouldBlock]]

/-- Interrupted writes leave the bytes in order. -/
theorem output_fifo_interrupted : ∃ u, Reach outStep anyStep oneConnection interrupted u ∧
    (∃ c', u.conns.get 256 = some c' ∧
      c'.sock.sent ++ Connection.outBytes c'.outbuf = [1, 2, 3, 4]) ∧
    ∀ e msg, u.outStep e ≠ Outcome.panic msg := by
  obtain ⟨u, hexec⟩ : ∃ u, execute outStep (fun _ _ => true) oneConnection interrupted = some u :=
    ⟨_, rfl⟩
  have hrun : Reach outStep anyStep oneConnection interrupted u :=
    reach_of_execute (fun _ _ _ => trivial) hexec
  obtain ⟨c, hc, hwritten, hout⟩ : ∃ c, oneConnection.conns.get 256 = some c ∧
      c.sock.written = [] ∧ c.outbuf = [] := ⟨_, rfl, rfl, rfl⟩
  exact ⟨u, hrun, output_fifo hc hwritten hout hrun⟩

end Net

end Rx
