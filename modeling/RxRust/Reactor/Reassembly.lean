import RxRust.Reactor.Moves
import RxRust.Reactor.ReadBuffer

/-!
# Frames from a socket

The engine's side of the read buffer: successive `readable` events on a `BufProtocol` connection are
the machine of `ReadBuffer`, so the payloads they send are the frames of the stream exactly when
that machine finds them.

* `decode_bufProtocol` — the decode loop splits a view into frames and leaves the remainder.
* `Shows` — what a connection's buffer and marker mean to the machine, kept by `received_spec`.
* `Net.readAll` — successive reads of one connection.
* `Net.reassembles_iff` — which ways of cutting the stream into reads give the right frames.
-/

namespace Rx

open Core

/-! ## The decode loop -/

/-- A payload with the token of its connection. -/
def payload (m : ProtoMsg AROIobuf) : List UInt8 × Token := (m.item.window, m.tok)

/-- One round of `append`: a frame and what is behind it, or nothing. -/
lemma bufProtocol_append (size : ℕ) (abuf : AROIobuf) :
    (abuf.len < size ∧ (BufProtocol size).append () abuf = Outcome.ret ((), none)) ∨
      ∃ a b, size ≤ abuf.len ∧
        (BufProtocol size).append () abuf = Outcome.ret ((), some (a, b, size)) ∧
        a.window = abuf.window.take size ∧ b.window = abuf.window.drop size := by
  by_cases h : abuf.len ≥ size
  · obtain ⟨a, b, hsplit, ha, hb, -⟩ := AROIobuf.splitAt_eq h
    refine Or.inr ⟨a, b, h, ?_, ha, hb⟩
    simp [BufProtocol, h, hsplit]
  · refine Or.inl ⟨Nat.lt_of_not_le h, ?_⟩
    simp [BufProtocol, h]

/-- **The decode loop** sends the frames of the view, leaves the remainder and adds what it has
eaten to the marker, modulo `2 ^ 32`.  It needs one round for each frame and one to stop. -/
theorem decode_bufProtocol {size : ℕ} (hsize : 0 < size) (token : Token) {marker : ℕ}
    (hmarker : marker < 2 ^ 32) (abuf : AROIobuf) (sent : List (ProtoMsg AROIobuf)) :
    ∃ rest msgs, (∀ fuel, abuf.len / size < fuel →
        decode (BufProtocol size) token fuel () abuf marker sent
          = Outcome.ret ((), rest, (marker + abuf.len / size * size) % 2 ^ 32, sent ++ msgs)) ∧
      rest.window = abuf.window.drop (abuf.len / size * size) ∧
      msgs.map payload = (frames size abuf.window).map fun f => (f, token) := by
  generalize hq : abuf.len / size = q
  -- on the number of frames in the view; the remainder and the messages do not depend on the fuel
  induction q generalizing abuf marker sent with
  | zero =>
      have hlt : abuf.len < size := (Nat.div_eq_zero_iff_lt hsize).mp hq
      refine ⟨abuf, [], ?_, ?_, ?_⟩
      · rintro (_ | fuel) hfuel
        · exact absurd hfuel (Nat.lt_irrefl 0)
        · rcases bufProtocol_append size abuf with ⟨-, happ⟩ | ⟨-, -, hle, -⟩
          · have hsame : (marker + 0 * size) % 2 ^ 32 = marker := by
              rw [Nat.zero_mul]
              exact Nat.mod_eq_of_lt hmarker
            rw [hsame]
            simp [decode, happ]
          · omega
      · simp
      · simp [frames_short (show abuf.window.length < size from hlt)]
  | succ q ih =>
      rcases bufProtocol_append size abuf with ⟨hlt, -⟩ | ⟨a, b, hle, happ, ha, hb⟩
      · rw [Nat.div_eq_of_lt hlt] at hq
        omega
      · have hbq : b.len / size = q := by
          rw [Nat.div_eq_sub_div hsize hle] at hq
          rw [AROIobuf.len, hb, List.length_drop]
          exact Nat.succ.inj hq
        have heaten : size + q * size = (q + 1) * size := by rw [Nat.succ_mul, Nat.add_comm]
        obtain ⟨rest, msgs, hdec, hrest, hmsgs⟩ :=
          ih (Nat.mod_lt (marker + size) (Nat.two_pow_pos 32)) b (sent ++ [⟨a, token⟩]) hbq
        refine ⟨rest, ⟨a, token⟩ :: msgs, ?_, ?_, ?_⟩
        · rintro (_ | fuel) hfuel
          · exact absurd hfuel (Nat.not_lt_zero _)
          · rw [decode]
            simp only [happ, Outcome.ret_bind, hdec fuel (Nat.lt_of_succ_lt_succ hfuel),
              Nat.mod_add_mod, Nat.add_assoc, heaten, List.append_assoc, List.singleton_append]
        · rw [hrest, hb, List.drop_drop, heaten]
        · rw [frames_step hsize hle, List.map_cons, List.map_cons, hmsgs, hb]
          simp [payload, ha]

/-! ## One read -/

/-- The buffer and the marker of a connection, as the machine sees them. -/
structure Shows (config : NetEngineConfig) (c : Connection Unit) (r : Reader) : Prop where
  cap : c.buf.cap = config.readBufSz
  marker : c.marker ≤ c.buf.bytes.length
  pend : r.pend = c.buf.bytes.drop c.marker
  filled : r.filled = c.buf.bytes.length

/-- The room below which the buffer of a connection is replaced: `min_read_buf_sz as u32`. -/
def NetEngineConfig.low (config : NetEngineConfig) : ℕ := config.minReadBufSz % 2 ^ 32

/-- The new buffer holds the remainder, also when that is empty. -/
lemma rolled_over {config : NetEngineConfig} {abuf : AROIobuf} (h : abuf.len ≤ config.readBufSz) :
    (if abuf.len > 0 then config.newBuf.fill abuf.window else config.newBuf).bytes = abuf.window ∧
      (if abuf.len > 0 then config.newBuf.fill abuf.window else config.newBuf).cap
        = config.readBufSz := by
  by_cases hpos : abuf.len > 0
  · rw [if_pos hpos]
    exact ⟨AppendBuf.fill_bytes h, AppendBuf.fill_cap _ _⟩
  · rw [if_neg hpos]
    exact ⟨(List.length_eq_zero_iff.mp (Nat.eq_zero_of_not_pos hpos)).symm, rfl⟩

/-- **One read** of a framed connection comes back, sends what the machine writes, and leaves a
connection that shows the machine's next state. -/
theorem received_spec {size : ℕ} (hsize : 0 < size) {config : NetEngineConfig} {token : Token}
    {fuel : ℕ} {c : Connection Unit} {r : Reader} {data : List UInt8} (hc : Shows config c r)
    (hroom : data.length ≤ config.readBufSz - r.filled) (hfuel : data.length < fuel) :
    ∃ c' msgs, c.received (BufProtocol size) config token fuel data = Outcome.ret (c', msgs) ∧
      Shows config c' ((reader config.readBufSz config.low size).step r data).1 ∧
      msgs.map payload
        = ((reader config.readBufSz config.low size).step r data).2.map fun f => (f, token) := by
  have hfit : data.length ≤ c.buf.len := by
    rw [AppendBuf.len, hc.cap, ← hc.filled]
    exact hroom
  have hbytes := AppendBuf.fill_bytes hfit
  have hfilled : (c.buf.fill data).bytes.length = r.filled + data.length := by
    rw [hbytes, List.length_append, hc.filled]
  have hfree : (c.buf.fill data).len = config.readBufSz - (r.filled + data.length) := by
    rw [AppendBuf.len, AppendBuf.fill_cap, hc.cap, hfilled]
  have hsmall := config.small
  have hmarker := hc.marker
  have hfull := hc.filled
  have hfits : c.buf.bytes.length ≤ config.readBufSz := hc.cap ▸ c.buf.fits
  obtain ⟨abuf, hslice, hwindow⟩ := AppendBuf.atomicSlicePosFromBegin_eq
    (show c.marker + data.length ≤ (c.buf.fill data).bytes.length by omega)
  have hview : abuf.window = (r.pend ++ data).take data.length := by
    rw [hwindow, hbytes, List.drop_append_of_le_length hc.marker, hc.pend]
  have hlen : abuf.len = data.length := by
    rw [AROIobuf.len, hview, length_view]
  have hdiv := Nat.div_le_self data.length size
  have hmul := Nat.div_mul_le_self data.length size
  obtain ⟨rest, msgs, hdec, hrest, hmsgs⟩ :=
    decode_bufProtocol hsize token (show c.marker < 2 ^ 32 by omega) abuf []
  replace hdec := hdec fuel (by rw [hlen]; omega)
  rw [hlen, Nat.mod_eq_of_lt (by omega)] at hdec
  rw [hlen, hview] at hrest
  rw [hview] at hmsgs
  have hrestlen : rest.len = data.length % size := by
    have := Nat.div_add_mod' data.length size
    rw [AROIobuf.len, hrest, List.length_drop, length_view]
    omega
  simp only [Connection.received, if_pos hfit, hslice, hdec, Outcome.ret_bind, hfree,
    List.nil_append]
  rw [← NetEngineConfig.low]
  by_cases hroll : config.readBufSz - (r.filled + data.length) < config.low
  · have hrestle : rest.len ≤ config.readBufSz := by
      have := Nat.mod_le data.length size
      omega
    obtain ⟨hnew, hcap⟩ := rolled_over hrestle
    rw [if_pos hroll, reader_step_rolls hroll]
    refine ⟨_, msgs, rfl, ⟨hcap, Nat.zero_le _, ?_, ?_⟩, hmsgs⟩
    · rw [hnew, List.drop_zero, hrest]
    · rw [hnew]
      exact hrestlen.symm
  · rw [if_neg hroll, reader_step_stays hroll]
    refine ⟨_, msgs, rfl, ⟨?_, ?_, ?_, hfilled.symm⟩, hmsgs⟩
    · rw [AppendBuf.fill_cap, hc.cap]
    · simp only [hfilled]
      omega
    · rw [hbytes, ← List.drop_drop, List.drop_append_of_le_length hc.marker, hc.pend]

/-! ## All the reads of a connection -/

namespace Net

/-- What has been sent on the channels: the channel, the bytes and the token. -/
def payloads (s : Net Unit AROIobuf) : List (ℕ × List UInt8 × Token) :=
  s.sent.map fun m => (m.1, payload m.2)

/-- Successive `readable` events on the token, each with a read of one piece of the stream. -/
def readAll (size fuel : ℕ) (token : Token) :
    Net Unit AROIobuf → List (List UInt8) → Outcome (Net Unit AROIobuf)
  | s, [] => pure s
  | s, data :: ds => do
      let s ← s.readable (BufProtocol size) fuel token false AcceptAnswer.failed
        (ReadAnswer.ready data)
      readAll size fuel token s ds

/-- The engine with a framed connection at `token` that shows the machine's state. -/
structure Framed (cfg : NetEngineConfig) (token : Token) (tx : ℕ) (s : Net Unit AROIobuf)
    (r : Reader) : Prop where
  config : s.config = cfg
  listeners : s.listeners.get token = none
  conn : ∃ c, s.conns.get token = some c ∧ c.connTx = tx ∧ Shows cfg c r

section Reads

variable {size : ℕ} {cfg : NetEngineConfig} {token : Token} {tx fuel : ℕ}

/-- **One event** on a framed connection is one read of the machine, and with a hang-up the last. -/
lemma readable_framed (hsize : 0 < size) {s : Net Unit AROIobuf} {r : Reader}
    {data : List UInt8} (hs : Framed cfg token tx s r)
    (hroom : data.length ≤ cfg.readBufSz - r.filled) (hfuel : data.length < fuel) (hup : Bool)
    (answer : AcceptAnswer) :
    ∃ u, s.readable (BufProtocol size) fuel token hup answer (ReadAnswer.ready data)
        = Outcome.ret u ∧
      (hup = false → Framed cfg token tx u ((reader cfg.readBufSz cfg.low size).step r data).1) ∧
      (hup = true → u.conns.get token = none) ∧
      u.payloads = s.payloads ++ ((reader cfg.readBufSz cfg.low size).step r data).2.map
        fun f => (tx, f, token) := by
  obtain ⟨rfl, hl, c, hc, rfl, hshows⟩ := hs
  obtain ⟨c', msgs, hrecv, hshows', hmsgs⟩ :=
    @received_spec size hsize s.config token fuel c r data hshows hroom hfuel
  have hread : c.readAnswered (BufProtocol size) s.config token fuel (ReadAnswer.ready data)
      = Outcome.ret (c', msgs) := hrecv
  have htx : c'.connTx = c.connTx := by rw [Connection.readAnswered_keeps hread]
  have hstep : s.readable (BufProtocol size) fuel token hup answer
      (ReadAnswer.ready data) = Outcome.ret (({ s with
        sent := s.sent ++ msgs.map fun m => (c'.connTx, m)
        handed := s.handed ++ msgs.map fun _ => (c'.sock.id, token) } :
          Net Unit AROIobuf).settle token c' hup) := by
    simp only [readable, hl, hc, hread, Outcome.ret_bind, Outcome.pure_eq]
  have hpay : (s.sent ++ msgs.map fun m => (c'.connTx, m)).map (fun m => (m.1, payload m.2))
      = s.payloads ++ ((reader s.config.readBufSz s.config.low size).step r data).2.map
        fun f => (c.connTx, f, token) := by
    calc _ = s.payloads ++ (msgs.map fun m => (c'.connTx, m)).map fun m => (m.1, payload m.2) :=
          List.map_append ..
      _ = s.payloads ++ (msgs.map payload).map fun p => (c.connTx, p) := by
          rw [List.map_map, List.map_map, htx]
          rfl
      _ = _ := by
          rw [hmsgs, List.map_map]
          rfl
  refine ⟨_, hstep, ?_⟩
  cases hup with
  | false =>
      refine ⟨?_, ?_, hpay⟩
      · intro _
        refine ⟨rfl, hl, _, Slab.get_put_of_get _ hc, htx, ?_⟩
        exact ⟨hshows'.cap, hshows'.marker, hshows'.pend, hshows'.filled⟩
      · intro hup
        cases hup
  | true =>
      refine ⟨?_, fun _ => Slab.get_remove, hpay⟩
      intro hup
      cases hup

/-- **Successive events** are the machine's run, as long as every read fits; `es` are the reads so
far. -/
lemma readAll_framed (hsize : 0 < size) (hfuel : cfg.readBufSz < fuel) {s : Net Unit AROIobuf}
    {es ds : List (List UInt8)}
    (hfits : Fits cfg.readBufSz cfg.low size ((es ++ ds).map List.length))
    (hs : Framed cfg token tx s ((reader cfg.readBufSz cfg.low size).run ⟨[], 0⟩ es).1) :
    ∃ u, readAll size fuel token s ds = Outcome.ret u ∧
      u.payloads = s.payloads ++ ((reader cfg.readBufSz cfg.low size).run
        ((reader cfg.readBufSz cfg.low size).run ⟨[], 0⟩ es).1 ds).2.map
          fun f => (tx, f, token) := by
  induction ds generalizing s es with
  | nil => exact ⟨s, rfl, by simp⟩
  | cons d ds ih =>
      have hroom := hfits (es.map List.length) d.length (ds.map List.length) (by simp)
      rw [← filled_run] at hroom
      obtain ⟨u, hu, hframed, -, hpay⟩ := @readable_framed size cfg token tx fuel hsize s _ d hs
        hroom (by omega) false AcceptAnswer.failed
      have hrun : ((reader cfg.readBufSz cfg.low size).run ⟨[], 0⟩ (es ++ [d])).1
          = ((reader cfg.readBufSz cfg.low size).step
              ((reader cfg.readBufSz cfg.low size).run ⟨[], 0⟩ es).1 d).1 := by
        rw [Transducer.run_append, Transducer.run_singleton]
      obtain ⟨v, hv, hpay'⟩ := @ih u (es ++ [d]) (by simpa using hfits) (hrun ▸ hframed rfl)
      refine ⟨v, ?_, ?_⟩
      · rw [readAll, hu, Outcome.ret_bind, hv]
      · rw [hpay', hpay, hrun, Transducer.run_cons, List.map_append, List.append_assoc]

end Reads

/-- A connection that has just been made shows the machine at its start. -/
lemma framed_new {size fuel : ℕ} {cfg : NetEngineConfig} {es : List Event} {s : Net Unit AROIobuf}
    {token : Token} {c : Connection Unit}
    (hrun : Reach (step (BufProtocol size) fuel) anyStep (new cfg) es s)
    (hc : s.conns.get token = some c) (hmarker : c.marker = 0) (hbuf : c.buf = cfg.newBuf) :
    Framed cfg token c.connTx s ⟨[], 0⟩ := by
  refine ⟨(laid_reach hrun).config, listeners_get_eq_none hrun hc, c, hc, rfl, ?_, ?_, ?_, ?_⟩ <;>
    simp only [hmarker, hbuf]
  · rfl
  · exact Nat.zero_le _
  · rfl
  · rfl

/-- **Frames from a socket.**  A `BufProtocol` connection of a running engine has just been made.
For reads of the lengths `ns`, each of which fits into the buffer, its `readable` events send the
frames of every stream, whole, in order and each once, exactly when the remainders of the lengths do
not add up to a frame and no bytes that wait when the buffer is replaced are missed later. -/
theorem reassembles_iff {size fuel : ℕ} {cfg : NetEngineConfig} {es : List Event}
    {s : Net Unit AROIobuf} {token : Token} {c : Connection Unit} {ns : List ℕ} (hsize : 1 ≤ size)
    (hrun : Reach (step (BufProtocol size) fuel) anyStep (new cfg) es s)
    (hc : s.conns.get token = some c) (hmarker : c.marker = 0) (hbuf : c.buf = cfg.newBuf)
    (hfits : Fits cfg.readBufSz cfg.low size ns) (hfuel : cfg.readBufSz < fuel) :
    (∀ ds : List (List UInt8), ds.map List.length = ns →
      ∃ u, readAll size fuel token s ds = Outcome.ret u ∧
        u.payloads = s.payloads ++ (frames size ds.flatten).map fun f => (c.connTx, f, token)) ↔
    (ns.map fun n => n % size).sum < size ∧ KeepsUp cfg.readBufSz cfg.low size ns := by
  have hframed : Framed cfg token c.connTx s ⟨[], 0⟩ := framed_new hrun hc hmarker hbuf
  rw [← reader_iff hsize ns]
  refine forall_congr' fun ds => forall_congr' fun hds => ?_
  subst hds
  obtain ⟨u, hu, hpay⟩ :=
    @readAll_framed size cfg token c.connTx fuel hsize hfuel s [] ds hfits hframed
  constructor
  · rintro ⟨v, hv, hframes⟩
    obtain rfl : u = v := Outcome.ret.inj (hu.symm.trans hv)
    rw [hpay, List.append_cancel_left_eq] at hframes
    exact (List.map_inj_right fun f g h => by simpa using h).mp hframes
  · intro hout
    exact ⟨u, hu, by rw [hpay]; exact hout ▸ rfl⟩

/-- The two ways to split a pair of reads at one of them. -/
lemma pair_splits {a b n : ℕ} {xs ys : List ℕ} (h : [a, b] = xs ++ n :: ys) :
    (xs = [] ∧ n = a ∧ ys = [b]) ∨ (xs = [a] ∧ n = b ∧ ys = []) := by
  rcases xs with _ | ⟨x, _ | ⟨x', xs⟩⟩ <;> simp_all

/-- A read of 1480 bytes nearly fills the buffer and is all frames of two bytes, so the new buffer
starts empty; three more bytes are a frame and a half. -/
theorem reassembles_roll_over : ∃ s c,
    Reach (step (BufProtocol 2) 1537) anyStep (new NetEngineConfig.defaults) [Event.connected 256] s ∧
      s.conns.get 256 = some c ∧ RollsOver 1536 64 2 [] 1480 ∧
      ∀ ds : List (List UInt8), ds.map List.length = [1480, 3] →
        ∃ u, readAll 2 1537 256 s ds = Outcome.ret u ∧
          u.payloads = s.payloads ++ (frames 2 ds.flatten).map fun f => (c.connTx, f, 256) := by
  obtain ⟨s, c, hexec, hc, hmarker, hbuf⟩ : ∃ s c,
      execute (step (BufProtocol 2) 1537) (fun _ _ => true) (new NetEngineConfig.defaults)
        [Event.connected 256] = some s ∧ s.conns.get 256 = some c ∧ c.marker = 0 ∧
      c.buf = NetEngineConfig.defaults.newBuf := ⟨_, _, rfl, rfl, rfl, rfl⟩
  have hrun : Reach (step (BufProtocol 2) 1537) anyStep _ _ s :=
    reach_of_execute (fun _ _ _ => trivial) hexec
  refine ⟨s, c, hrun, hc, by decide, ?_⟩
  refine (reassembles_iff (by decide) hrun hc hmarker hbuf ?_ (by decide)).mpr ⟨by decide, ?_⟩
  · intro xs n ys h
    rcases pair_splits h with ⟨rfl, rfl, rfl⟩ | ⟨rfl, rfl, rfl⟩ <;> decide
  · intro xs n ys h hroll
    rcases pair_splits h with ⟨rfl, rfl, rfl⟩ | ⟨rfl, rfl, rfl⟩
    · exact Or.inl (by decide)
    · exact absurd hroll (by decide)

/-- A frame of two bytes that arrives in two reads of one byte is never sent. -/
theorem halved_frame_lost : ∃ s c u,
    Reach (step (BufProtocol 2) 1537) anyStep (new NetEngineConfig.defaults) [Event.connected 256] s ∧
      s.conns.get 256 = some c ∧ c.marker = 0 ∧ c.buf = NetEngineConfig.defaults.newBuf ∧
      Fits 1536 64 2 [1, 1] ∧
      readAll 2 1537 256 s [[1], [2]] = Outcome.ret u ∧ u.payloads = s.payloads ∧
      u.payloads ≠ s.payloads ++ (frames 2 [1, 2]).map fun f => (c.connTx, f, 256) := by
  obtain ⟨s, c, u, hexec, hc, hmarker, hbuf, hread, hsame, hne⟩ : ∃ s c u,
      execute (step (BufProtocol 2) 1537) (fun _ _ => true) (new NetEngineConfig.defaults)
        [Event.connected 256] = some s ∧ s.conns.get 256 = some c ∧ c.marker = 0 ∧
      c.buf = NetEngineConfig.defaults.newBuf ∧
      readAll 2 1537 256 s [[1], [2]] = Outcome.ret u ∧ u.payloads = s.payloads ∧
      u.payloads ≠ s.payloads ++ (frames 2 [1, 2]).map fun f => (c.connTx, f, 256) :=
    ⟨_, _, _, rfl, rfl, rfl, rfl, rfl, rfl, by decide⟩
  refine ⟨s, c, u, reach_of_execute (fun _ _ _ => trivial) hexec, hc, hmarker, hbuf, ?_, hread,
    hsame, hne⟩
  intro xs n ys h
  rcases pair_splits h with ⟨rfl, rfl, rfl⟩ | ⟨rfl, rfl, rfl⟩ <;> decide

end Net

end Rx
