import RxRust.Reactor.Reassembly

/-!
# The loops of a connection end

Nothing in the source bounds the two loops that work on a connection: the decode loop goes on as
long as the protocol finds a message, and the drain loop as long as the socket takes what it is
offered.  Each has a measure that only its partner can lower: the protocol has to eat bytes, the
socket has to take some.

* `decode_ends_iff` — the decode loop of a `BufProtocol` ends exactly when a frame has a size, and
  what it has then done.
* `Connection.drainAgainst` — the drain loop against a socket that answers every offer, for as long
  as it is asked.
* `Connection.Ends` — how it comes back: as `drainWriteQueueToSocket` does on the answers it was
  given, and these are the answers of the socket to the buffers it was offered (`OwnAnswers`).
* `drainAgainst_ends` — the loop ends: every write takes a byte or removes a buffer.
-/

namespace Rx

open Core

/-! ## Decoding -/

/-- Frames without a size are found for ever. -/
lemma decode_bufProtocol_zero (token : Token) (fuel : ℕ) (abuf : AROIobuf) (marker : ℕ)
    (sent : List (ProtoMsg AROIobuf)) :
    decode (BufProtocol 0) token fuel () abuf marker sent = Outcome.stuck := by
  induction fuel generalizing abuf marker sent with
  | zero => rfl
  | succ fuel ih =>
      rcases bufProtocol_append 0 abuf with ⟨hlt, -⟩ | ⟨a, b, -, happ, -, -⟩
      · exact absurd hlt (Nat.not_lt_zero _)
      · simp only [decode, happ, Outcome.ret_bind, ih]

/-- What the loop has done with the view `v`: it has sent the frames, left what is behind the last
one, and moved the marker by the difference.  The marker is a 32-bit number, and it does not wrap
where the view fits behind it. -/
structure Decoded (size : ℕ) (token : Token) (v : AROIobuf) (marker : ℕ) (abuf : AROIobuf)
    (marker' : ℕ) (msgs : List (ProtoMsg AROIobuf)) : Prop where
  count : msgs.length = v.len / size
  pieces : msgs.map payload = (frames size v.window).map fun f => (f, token)
  rest : abuf.window = v.window.drop (v.len - v.len % size)
  left : abuf.len = v.len % size
  moved : marker' = (marker + (v.len - abuf.len)) % 2 ^ 32
  unwrapped : marker + v.len < 2 ^ 32 → marker' = marker + (v.len - abuf.len)

lemma decode_decoded {size : ℕ} (hsize : 1 ≤ size) (token : Token) (v : AROIobuf) {marker : ℕ}
    (hmarker : marker < 2 ^ 32) :
    ∃ abuf marker' msgs, Decoded size token v marker abuf marker' msgs ∧
      ∀ fuel, v.len / size < fuel →
        decode (BufProtocol size) token fuel () v marker []
          = Outcome.ret ((), abuf, marker', msgs) := by
  obtain ⟨abuf, msgs, hdec, hrest, hmsgs⟩ := decode_bufProtocol hsize token hmarker v []
  have hsplit := Nat.div_add_mod' v.len size
  have heaten : v.len / size * size = v.len - v.len % size := by omega
  rw [heaten] at hrest hdec
  have hlen : abuf.len = v.len % size := by
    have := Nat.mod_le v.len size
    rw [AROIobuf.len, hrest, List.length_drop, ← AROIobuf.len]
    omega
  refine ⟨abuf, _, msgs, ⟨?_, hmsgs, hrest, hlen, by rw [hlen], ?_⟩, hdec⟩
  · simpa [AROIobuf.len] using congrArg List.length hmsgs
  · intro hfits
    rw [hlen]
    exact Nat.mod_eq_of_lt (by omega)

/-- **The decode loop ends exactly when a frame has a size**, after one round for each frame and one
more. -/
theorem decode_ends_iff (size : ℕ) (token : Token) (v : AROIobuf) (marker : ℕ)
    (hmarker : marker < 2 ^ 32) :
    ((∃ fuel, decode (BufProtocol size) token fuel () v marker [] ≠ Outcome.stuck) ↔ 1 ≤ size) ∧
    (1 ≤ size → ∃ abuf marker' msgs, Decoded size token v marker abuf marker' msgs ∧
      ∀ fuel, v.len / size < fuel →
        decode (BufProtocol size) token fuel () v marker []
          = Outcome.ret ((), abuf, marker', msgs)) := by
  refine ⟨⟨?_, ?_⟩, fun hsize => decode_decoded hsize token v hmarker⟩
  · rintro ⟨fuel, hret⟩
    by_contra hsize
    obtain rfl : size = 0 := by omega
    exact hret (decode_bufProtocol_zero token fuel v marker [])
  · intro hsize
    obtain ⟨abuf, marker', msgs, -, hdec⟩ := decode_decoded hsize token v hmarker
    refine ⟨v.len / size + 1, ?_⟩
    rw [hdec _ (Nat.lt_succ_self _)]
    intro h
    cases h

/-- Five bytes in frames of two: two frames, and one byte left. -/
theorem decode_ends_five_bytes :
    ∃ abuf marker' msgs, Decoded 2 256 ⟨7, [1, 2, 3, 4, 5], by decide⟩ 7 abuf marker' msgs ∧
      decode (BufProtocol 2) 256 3 () ⟨7, [1, 2, 3, 4, 5], by decide⟩ 7 []
        = Outcome.ret ((), abuf, marker', msgs) := by
  obtain ⟨abuf, marker', msgs, hdone, hdec⟩ :=
    (decode_ends_iff 2 256 ⟨7, [1, 2, 3, 4, 5], by decide⟩ 7 (by decide)).2 (by decide)
  exact ⟨abuf, marker', msgs, hdone, hdec 3 (by decide)⟩

/-! ## Draining -/

/-- What a socket may answer to an offer of `k` bytes: it takes no more than it is offered, and not
nothing of something. -/
def WriteAnswer.Allowed (k : ℕ) : WriteAnswer → Prop
  | ready n => n ≤ k ∧ (1 ≤ k → 1 ≤ n)
  | wouldBlock => True
  | err _ => True

namespace Connection

variable {P : Type}

/-- `drain_write_queue_to_socket` against a socket: `sock i k` is what it answers to the write `i`
when it is offered `k` bytes.  What is returned beside the connection are the answers it gave. -/
def drainAgainst (sock : ℕ → ℕ → WriteAnswer) :
    (fuel : ℕ) → ℕ → Connection P → Outcome (Connection P × List WriteAnswer)
  | 0, _, _ => Outcome.stuck
  | fuel + 1, i, c => match c.outbuf with
    | [] => pure (c, [])
    | msg :: rest =>
        let sz := msg.buf.len
        let answer := sock i sz
        match answer with
        | WriteAnswer.ready n =>
            if n ≤ msg.remaining then do
              let written : TcpSocket :=
                { c.sock with written := c.sock.written ++ [⟨msg.owner, msg.bytes.take n⟩] }
              let msg ← msg.advance n
              let outbuf := if n = sz then rest else msg :: rest
              let r ← drainAgainst sock fuel (i + 1) { c with sock := written, outbuf := outbuf }
              pure (r.1, answer :: r.2)
            else Outcome.stuck
        | WriteAnswer.wouldBlock => pure (c, [answer])
        | WriteAnswer.err _ => pure (c, [answer])

/-- What is left to do for a queue: its bytes and its buffers, since an empty buffer takes a write
as well. -/
def work (outbuf : List StreamBuf) : ℕ := (outBytes outbuf).length + outbuf.length

lemma work_cons (msg : StreamBuf) (rest : List StreamBuf) :
    work (msg :: rest) = msg.remaining + work rest + 1 := by
  simp only [work, outBytes, List.flatMap_cons, List.length_append, List.length_cons,
    StreamBuf.remaining, StreamBuf.bytes, AROIobuf.len]
  omega

/-- The lengths of the buffers in a queue. -/
def lengths (outbuf : List StreamBuf) : List ℕ := outbuf.map fun msg => msg.buf.len

/-- The lengths of the buffers that are left of a queue when the socket has given these answers. -/
def leftAfter : List ℕ → List WriteAnswer → List ℕ
  | lens, [] => lens
  | k :: lens, WriteAnswer.ready n :: answers =>
      leftAfter (if n = k then lens else (k - n) :: lens) answers
  | lens, _ :: answers => leftAfter lens answers

lemma leftAfter_cons (k : ℕ) (lens : List ℕ) (a : WriteAnswer) (answers : List WriteAnswer) :
    leftAfter (k :: lens) (a :: answers) = leftAfter (leftAfter (k :: lens) [a]) answers := by
  cases a with
  | ready n => rfl
  | wouldBlock => rfl
  | err e => rfl

/-- The answers are those of the socket, from its write `i` on: each is what it answers when it is
offered the buffer that is in front after the answers before. -/
def OwnAnswers (sock : ℕ → ℕ → WriteAnswer) (i : ℕ) (lens : List ℕ) (asked : List WriteAnswer) :
    Prop :=
  ∀ before a after, asked = before ++ a :: after →
    ∃ k rest, leftAfter lens before = k :: rest ∧ a = sock (i + before.length) k

lemma ownAnswers_nil (sock : ℕ → ℕ → WriteAnswer) (i : ℕ) (lens : List ℕ) :
    OwnAnswers sock i lens [] := by
  intro before a after h
  simp at h

lemma OwnAnswers.cons {sock : ℕ → ℕ → WriteAnswer} {i k : ℕ} {lens : List ℕ}
    {asked : List WriteAnswer}
    (h : OwnAnswers sock (i + 1) (leftAfter (k :: lens) [sock i k]) asked) :
    OwnAnswers sock i (k :: lens) (sock i k :: asked) := by
  rintro (_ | ⟨b, before⟩) a after heq
  · obtain ⟨rfl, -⟩ := List.cons.inj heq
    exact ⟨k, lens, rfl, rfl⟩
  · obtain ⟨rfl, hrest⟩ := List.cons.inj heq
    obtain ⟨k', rest, hleft, ha⟩ := h before a after hrest
    refine ⟨k', rest, ?_, ?_⟩
    · rw [leftAfter_cons, hleft]
    · rw [ha, List.length_cons, Nat.add_assoc, Nat.add_comm 1]

/-- The socket took nothing: the loop goes no further. -/
lemma drainAgainst_blocks {sock : ℕ → ℕ → WriteAnswer} {i : ℕ} {c : Connection P}
    {msg : StreamBuf} {rest : List StreamBuf} (hc : c.outbuf = msg :: rest)
    (hblocks : (sock i msg.buf.len).blocks = true) :
    (∀ fuel, c.drainAgainst sock (fuel + 1) i = Outcome.ret (c, [sock i msg.buf.len])) ∧
      c.drainWriteQueueToSocket [sock i msg.buf.len] = Outcome.ret (c, []) ∧
      leftAfter (lengths c.outbuf) [sock i msg.buf.len] = lengths c.outbuf := by
  cases hans : sock i msg.buf.len with
  | ready n => simp [hans, WriteAnswer.blocks] at hblocks
  | wouldBlock => simp [drainAgainst, drainWriteQueueToSocket, leftAfter, hc, hans]
  | err e => simp [drainAgainst, drainWriteQueueToSocket, leftAfter, hc, hans]

/-- The socket took something, or there was nothing to take: the loop goes on with less work. -/
lemma drainAgainst_ready {sock : ℕ → ℕ → WriteAnswer} {i n : ℕ} {c : Connection P}
    {msg : StreamBuf} {rest : List StreamBuf} (hc : c.outbuf = msg :: rest)
    (hans : sock i msg.buf.len = WriteAnswer.ready n)
    (hok : (WriteAnswer.ready n).Allowed msg.buf.len) :
    ∃ c₁ : Connection P, work c₁.outbuf < work c.outbuf ∧
      lengths c₁.outbuf = leftAfter (lengths c.outbuf) [WriteAnswer.ready n] ∧
      (∀ fuel, c.drainAgainst sock (fuel + 1) i
        = (fun r => (r.1, WriteAnswer.ready n :: r.2)) <$> c₁.drainAgainst sock fuel (i + 1)) ∧
      ∀ answers, c.drainWriteQueueToSocket (WriteAnswer.ready n :: answers)
        = c₁.drainWriteQueueToSocket answers := by
  obtain ⟨hle, hsome⟩ := hok
  have hn : n ≤ msg.remaining := hle
  obtain ⟨msg', hadv, hbytes, -, -⟩ := StreamBuf.advance_eq hn
  have hleft : msg'.remaining = msg.remaining - n := by
    simpa [StreamBuf.remaining, StreamBuf.bytes, AROIobuf.len] using congrArg List.length hbytes
  refine ⟨{ c with
      sock := { c.sock with written := c.sock.written ++ [⟨msg.owner, msg.bytes.take n⟩] }
      outbuf := if n = msg.buf.len then rest else msg' :: rest }, ?_, ?_, ?_, ?_⟩
  · rw [hc, work_cons]
    split_ifs with hsz
    · simp only
      omega
    · have hpos : 1 ≤ n := hsome (by omega)
      simp only [work_cons, hleft]
      omega
  · have hlen : msg'.buf.len = msg.buf.len - n := hleft
    rw [hc]
    simp only [lengths, List.map_cons, leftAfter]
    split_ifs
    · rfl
    · rw [List.map_cons, hlen]
  · intro fuel
    simp only [drainAgainst, hc, hans, if_pos hn, hadv, Outcome.ret_bind, map_eq_pure_bind]
  · intro answers
    simp only [drainWriteQueueToSocket, hc, if_pos hn, hadv, Outcome.ret_bind]
    split_ifs with hsz
    · rfl
    · rfl

/-- How the loop ends: it comes back, as `drainWriteQueueToSocket` does on the answers it was given;
they are the socket's own, they leave as much as is left, and after a refusal it asks for nothing
more. -/
structure Ends (sock : ℕ → ℕ → WriteAnswer) (i : ℕ) (c c' : Connection P)
    (asked : List WriteAnswer) : Prop where
  returns : ∀ fuel, work c.outbuf < fuel → c.drainAgainst sock fuel i = Outcome.ret (c', asked)
  drained : c.drainWriteQueueToSocket asked = Outcome.ret (c', [])
  writes : asked.length ≤ work c.outbuf
  own : OwnAnswers sock i (lengths c.outbuf) asked
  left : lengths c'.outbuf = leftAfter (lengths c.outbuf) asked
  stops : c'.outbuf ≠ [] → ∃ before last, asked = before ++ [last] ∧ last.blocks = true ∧
    ∀ a ∈ before, a.blocks = false

/-- There is nothing to write. -/
lemma ends_of_empty {c : Connection P} (sock : ℕ → ℕ → WriteAnswer) (i : ℕ) (hc : c.outbuf = []) :
    Ends sock i c c [] := by
  refine ⟨?_, ?_, Nat.zero_le _, ownAnswers_nil _ _ _, ?_, fun hne => absurd hc hne⟩
  · rintro (_ | fuel) hfuel
    · exact absurd hfuel (Nat.not_lt_zero _)
    · simp [drainAgainst, hc]
  · simp [drainWriteQueueToSocket, hc]
  · rw [hc]
    rfl

/-- The socket takes nothing: the loop stops there. -/
lemma ends_of_blocks {sock : ℕ → ℕ → WriteAnswer} {i : ℕ} {c : Connection P} {msg : StreamBuf}
    {rest : List StreamBuf} (hc : c.outbuf = msg :: rest)
    (hblocks : (sock i msg.buf.len).blocks = true) : Ends sock i c c [sock i msg.buf.len] := by
  obtain ⟨hloop, hlist, hleft⟩ := drainAgainst_blocks hc hblocks
  refine ⟨?_, hlist, ?_, ?_, hleft.symm, ?_⟩
  · rintro (_ | fuel) hfuel
    · exact absurd hfuel (Nat.not_lt_zero _)
    · exact hloop fuel
  · rw [hc, work_cons, List.length_singleton]
    omega
  · rw [hc]
    exact (ownAnswers_nil _ _ _).cons
  · intro _
    refine ⟨[], sock i msg.buf.len, rfl, hblocks, ?_⟩
    simp

/-- The socket takes something, and the loop goes on from there to its end. -/
lemma Ends.ready {sock : ℕ → ℕ → WriteAnswer} {i n : ℕ} {c c₁ c' : Connection P} {msg : StreamBuf}
    {rest : List StreamBuf} {asked : List WriteAnswer} (h : Ends sock (i + 1) c₁ c' asked)
    (hc : c.outbuf = msg :: rest) (hans : sock i msg.buf.len = WriteAnswer.ready n)
    (hless : work c₁.outbuf < work c.outbuf)
    (hleft : lengths c₁.outbuf = leftAfter (lengths c.outbuf) [WriteAnswer.ready n])
    (hloop : ∀ fuel, c.drainAgainst sock (fuel + 1) i
      = (fun r => (r.1, WriteAnswer.ready n :: r.2)) <$> c₁.drainAgainst sock fuel (i + 1))
    (hlist : ∀ answers, c.drainWriteQueueToSocket (WriteAnswer.ready n :: answers)
      = c₁.drainWriteQueueToSocket answers) :
    Ends sock i c c' (WriteAnswer.ready n :: asked) := by
  have hlens : lengths c.outbuf = msg.buf.len :: lengths rest := by
    rw [hc]
    rfl
  refine ⟨?_, ?_, ?_, ?_, ?_, ?_⟩
  · rintro (_ | fuel) hfuel
    · exact absurd hfuel (Nat.not_lt_zero _)
    · rw [hloop, h.returns fuel (by omega)]
      rfl
  · rw [hlist, h.drained]
  · have hwrites := h.writes
    rw [List.length_cons]
    omega
  · have hown := h.own
    rw [hleft, hlens, ← hans] at hown
    rw [hlens, ← hans]
    exact hown.cons
  · rw [h.left, hleft, hlens]
    exact (leftAfter_cons _ _ _ _).symm
  · intro hne
    obtain ⟨before, last, rfl, hlast, hbefore⟩ := h.stops hne
    refine ⟨WriteAnswer.ready n :: before, last, rfl, hlast, ?_⟩
    simpa [WriteAnswer.blocks] using hbefore

/-- Against a socket that takes some of what it is offered, the loop ends. -/
lemma drainAgainst_returns {sock : ℕ → ℕ → WriteAnswer} (hsock : ∀ i k, (sock i k).Allowed k)
    (i : ℕ) (c : Connection P) : ∃ c' asked, Ends sock i c c' asked := by
  -- on the work that is left
  induction hw : work c.outbuf using Nat.strongRecOn generalizing i c with
  | _ w ih =>
      subst hw
      cases hc : c.outbuf with
      | nil => exact ⟨c, [], ends_of_empty sock i hc⟩
      | cons msg rest =>
          by_cases hblocks : (sock i msg.buf.len).blocks = true
          · exact ⟨c, _, ends_of_blocks hc hblocks⟩
          · cases hans : sock i msg.buf.len with
            | ready n =>
                obtain ⟨c₁, hless, hleft, hloop, hlist⟩ :=
                  drainAgainst_ready hc hans (hans ▸ hsock i msg.buf.len)
                obtain ⟨c', asked, hends⟩ := ih _ hless (i + 1) c₁ rfl
                exact ⟨c', _, hends.ready hc hans hless hleft hloop hlist⟩
            | wouldBlock => simp [hans, WriteAnswer.blocks] at hblocks
            | err e => simp [hans, WriteAnswer.blocks] at hblocks

/-- **The drain loop ends** whatever the socket does, since it takes some of what it is offered: it
comes back after at most as many writes as there are bytes and buffers and one more.  Each write
offers the socket the buffer in front, and what the loop goes by is the socket's answer to that; what
it has written and what is left are what there was, and as much is left as the answers leave.  It
returns `0` exactly when it has written every byte and emptied the queue; otherwise it has stopped
at the first refusal. -/
theorem drainAgainst_ends {sock : ℕ → ℕ → WriteAnswer} (hsock : ∀ i k, (sock i k).Allowed k)
    (c : Connection P) :
    ∃ c' asked, (∀ fuel, (outBytes c.outbuf).length + c.outbuf.length < fuel →
        c.drainAgainst sock fuel 0 = Outcome.ret (c', asked)) ∧
      c.drainWriteQueueToSocket asked = Outcome.ret (c', []) ∧
      asked.length ≤ (outBytes c.outbuf).length + c.outbuf.length + 1 ∧
      OwnAnswers sock 0 (lengths c.outbuf) asked ∧
      lengths c'.outbuf = leftAfter (lengths c.outbuf) asked ∧
      c'.sock.sent ++ outBytes c'.outbuf = c.sock.sent ++ outBytes c.outbuf ∧
      (c'.outbuf.length = 0 ↔
        c'.sock.sent = c.sock.sent ++ outBytes c.outbuf ∧ c'.outbuf = []) ∧
      (c'.outbuf.length ≠ 0 → ∃ before last, asked = before ++ [last] ∧ last.blocks = true ∧
        ∀ a ∈ before, a.blocks = false) := by
  obtain ⟨c', asked, hends⟩ := drainAgainst_returns hsock 0 c
  obtain ⟨⟨ws, hws⟩, -⟩ := drainWriteQueueToSocket_spec hends.drained
  have hsent : c'.sock.sent = c.sock.sent ++ ws.flatMap Written.bytes := by
    rw [TcpSocket.sent, hws.sock, TcpSocket.sent, List.flatMap_append]
  have hall : c'.sock.sent ++ outBytes c'.outbuf = c.sock.sent ++ outBytes c.outbuf := by
    rw [hsent, List.append_assoc, hws.bytes]
  refine ⟨c', asked, hends.returns, hends.drained, Nat.le_succ_of_le hends.writes, hends.own,
    hends.left, hall, ⟨?_, ?_⟩, ?_⟩
  · intro hzero
    have hnil : c'.outbuf = [] := List.length_eq_zero_iff.mp hzero
    exact ⟨by simpa [hnil, outBytes] using hall, hnil⟩
  · rintro ⟨-, hnil⟩
    rw [hnil, List.length_nil]
  · intro hne
    exact hends.stops fun hnil => hne (by rw [hnil, List.length_nil])

/-- A socket that takes a byte at a time and blocks at the third write. -/
def slowSocket (i k : ℕ) : WriteAnswer :=
  if i = 2 then WriteAnswer.wouldBlock else WriteAnswer.ready (min 1 k)

/-- An empty buffer and one of three bytes wait to be written. -/
def twoBuffers : Connection Unit where
  sock := ⟨0, []⟩
  outbuf := [⟨⟨0, [], Nat.two_pow_pos 32⟩, 256, 0⟩,
    ⟨⟨0, [1, 2, 3], Nat.le_of_ble_eq_true rfl⟩, 256, 0⟩]
  interest := Interest.HUP
  connTx := 0
  marker := 0
  proto := ()
  buf := AppendBuf.new 8 (Nat.le_of_ble_eq_true rfl)

/-- The empty buffer goes, one byte of the other is written, and the third write, of the two bytes
left, is refused: what the loop stops at is what the socket answers to them. -/
theorem drainAgainst_ends_slowly :
    (∀ i k, (slowSocket i k).Allowed k) ∧ ∃ c' last,
      twoBuffers.drainAgainst slowSocket 6 0
        = Outcome.ret (c', [WriteAnswer.ready 0, WriteAnswer.ready 1, last]) ∧
      last = slowSocket 2 2 ∧ last = WriteAnswer.wouldBlock ∧
      c'.sock.sent = [1] ∧ outBytes c'.outbuf = [2, 3] := by
  have hsock : ∀ i k, (slowSocket i k).Allowed k := by
    intro i k
    rw [slowSocket]
    split_ifs
    · trivial
    · exact ⟨Nat.min_le_right 1 k, fun hk => by omega⟩
  obtain ⟨c', asked, hret, -, -, hown, -⟩ := drainAgainst_ends hsock twoBuffers
  have hloop := hret 6 (by decide)
  obtain ⟨d, hd, hsent, hleft⟩ : ∃ d, twoBuffers.drainAgainst slowSocket 6 0
        = Outcome.ret (d, [WriteAnswer.ready 0, WriteAnswer.ready 1, WriteAnswer.wouldBlock]) ∧
      d.sock.sent = [1] ∧ outBytes d.outbuf = [2, 3] := ⟨_, rfl, rfl, rfl⟩
  obtain ⟨rfl, rfl⟩ := Prod.mk.inj (Outcome.ret.inj (hloop.symm.trans hd))
  obtain ⟨k, rest, hk, hlast⟩ :=
    hown [WriteAnswer.ready 0, WriteAnswer.ready 1] WriteAnswer.wouldBlock [] rfl
  obtain ⟨rfl, -⟩ : 2 = k ∧ [] = rest := List.cons.inj hk
  exact ⟨hsock, c', WriteAnswer.wouldBlock, hd, hlast, rfl, hsent, hleft⟩

end Connection

end Rx
