import RxRust.Reactor.Reassembly

/-!
# The last bytes before a hang-up

A peer writes a stream of whole frames and closes.  What it has written waits in the kernel's
receive queue until a read takes it, and every `readable` event after the close carries the hint of
a hang-up. `readable` then reads once and drops the connection, whatever is still queued: a read
takes no more than there is room for in the read buffer.

* `Wire` — an engine, and the peer of one connection with the queue between them.
* `Wire.Clean` — the read is a whole number of frames and, at a hang-up, takes all that is queued.
* `Wire.Follows` — the reads so far are a run of the machine of `ReadBuffer`.
* `Wire.hung_up_iff` — once the connection is gone, all frames of the stream have been sent exactly
  when every event of the run was `Clean`.
* `Wire.cutShort_loses` — a stream that is longer than the read buffer is cut if the peer is quick.
-/

namespace Rx

open Core

/-! ## The peer -/

/-- The bytes that an answer brings. -/
def ReadAnswer.data : ReadAnswer → List UInt8
  | ready data => data
  | wouldBlock => []
  | err _ => []

/-- An engine and the peer of one of its connections: what waits in the receive queue, everything
that the peer has written, and whether it has closed. -/
structure Wire where
  net : Net Unit AROIobuf
  queue : List UInt8
  stream : List UInt8
  closed : Bool

inductive WireEvent where
  | write (bytes : List UInt8)
  | close
  | readable (read : ReadAnswer)

namespace Wire

/-- The peer has not written yet. -/
def start (s : Net Unit AROIobuf) : Wire := ⟨s, [], [], false⟩

/-- One event of the peer or of the loop. -/
def step (size fuel : ℕ) (t : Token) (w : Wire) : WireEvent → Outcome Wire
  | WireEvent.write bytes =>
      if w.closed = false then
        pure { w with queue := w.queue ++ bytes, stream := w.stream ++ bytes }
      else Outcome.stuck
  | WireEvent.close =>
      -- the peer closes at the end of a frame
      if size ∣ w.stream.length then pure { w with closed := true } else Outcome.stuck
  | WireEvent.readable read =>
      match w.net.conns.get t with
      | none => pure w
      | some _ =>
          -- a read takes bytes off the front of the queue
          if w.queue.take read.data.length = read.data then do
            let net ← w.net.readable (BufProtocol size) fuel t w.closed AcceptAnswer.failed read
            pure { w with net := net, queue := w.queue.drop read.data.length }
          else Outcome.stuck

/-- A read of the connection is a whole number of frames and, after the close, takes what is
left. -/
def Clean (size : ℕ) (t : Token) (w : Wire) : WireEvent → Prop
  | WireEvent.readable read => w.net.conns.get t ≠ none →
      size ∣ read.data.length ∧ (w.closed = true → read.data.length = w.queue.length)
  | WireEvent.write _ => True
  | WireEvent.close => True

instance (size : ℕ) (t : Token) (w : Wire) : DecidablePred (w.Clean size t)
  | WireEvent.readable read => inferInstanceAs (Decidable (w.net.conns.get t ≠ none →
      size ∣ read.data.length ∧ (w.closed = true → read.data.length = w.queue.length)))
  | WireEvent.write _ => inferInstanceAs (Decidable True)
  | WireEvent.close => inferInstanceAs (Decidable True)

end Wire

/-! ## One read -/

namespace Net

variable {size : ℕ} {cfg : NetEngineConfig} {token : Token} {tx fuel : ℕ}

/-- An answer without bytes leaves the machine where it is. -/
lemma readable_idle {s u : Net Unit AROIobuf} {r : Reader} {hup : Bool} {answer : AcceptAnswer}
    {read : ReadAnswer} (hs : Framed cfg token tx s r)
    (hread : ∀ c : Connection Unit, c.readAnswered (BufProtocol size) s.config token fuel read
      = Outcome.ret (c, []))
    (h : s.readable (BufProtocol size) fuel token hup answer read = Outcome.ret u) :
    (hup = false → Framed cfg token tx u r) ∧ (hup = true → u.conns.get token = none) ∧
      u.payloads = s.payloads := by
  obtain ⟨hconfig, hl, c, hc, htx, hshows⟩ := hs
  simp only [readable, hl, hc, hread, Outcome.ret_bind, Outcome.pure_eq] at h
  obtain rfl := Outcome.ret.inj h
  cases hup with
  | false =>
      refine ⟨?_, ?_, ?_⟩
      · intro _
        refine ⟨hconfig, hl, _, Slab.get_put_of_get _ hc, htx, ?_⟩
        exact ⟨hshows.cap, hshows.marker, hshows.pend, hshows.filled⟩
      · intro hup
        cases hup
      · simp [settle, pass, payloads]
  | true =>
      refine ⟨?_, fun _ => Slab.get_remove, ?_⟩
      · intro hup
        cases hup
      · simp [settle, payloads]

/-- **One event**, whatever the socket answers: the machine takes what was read, if anything was. -/
lemma readable_answered (hsize : 0 < size) (hfuel : cfg.readBufSz < fuel) {s u : Net Unit AROIobuf}
    {r : Reader} {hup : Bool} {answer : AcceptAnswer} {read : ReadAnswer}
    (hs : Framed cfg token tx s r)
    (h : s.readable (BufProtocol size) fuel token hup answer read = Outcome.ret u) :
    ∃ ds : List (List UInt8), ds.flatten = read.data ∧
      ((∀ d ∈ ds, size ∣ d.length) ↔ size ∣ read.data.length) ∧
      (hup = false → Framed cfg token tx u ((reader cfg.readBufSz cfg.low size).run r ds).1) ∧
      (hup = true → u.conns.get token = none) ∧
      u.payloads = s.payloads ++ ((reader cfg.readBufSz cfg.low size).run r ds).2.map
        fun f => (tx, f, token) := by
  cases read with
  | ready data =>
      have hroom : data.length ≤ cfg.readBufSz - r.filled := by
        obtain ⟨-, hl, c, hc, -, hshows⟩ := hs
        simp only [readable, hl, hc] at h
        obtain ⟨⟨c', msgs⟩, hread, -⟩ := Outcome.bind_eq_ret.mp h
        obtain ⟨hfits, -⟩ := Outcome.guard_eq_ret.mp hread
        rw [AppendBuf.len, hshows.cap, ← hshows.filled] at hfits
        exact hfits
      obtain ⟨v, hv, hlive, hgone, hpay⟩ := @readable_framed size cfg token tx fuel hsize s r data
        hs hroom (by omega) hup answer
      obtain rfl : v = u := Outcome.ret.inj (hv.symm.trans h)
      refine ⟨[data], by simp [ReadAnswer.data], by simp [ReadAnswer.data], ?_, hgone, ?_⟩
      · rw [Transducer.run_singleton]
        exact hlive
      · rw [Transducer.run_singleton]
        exact hpay
  | wouldBlock =>
      obtain ⟨hlive, hgone, hpay⟩ := readable_idle hs (fun _ => rfl) h
      exact ⟨[], rfl, by simp [ReadAnswer.data], hlive, hgone, by simpa using hpay⟩
  | err e =>
      obtain ⟨hlive, hgone, hpay⟩ := readable_idle hs (fun _ => rfl) h
      exact ⟨[], rfl, by simp [ReadAnswer.data], hlive, hgone, by simpa using hpay⟩

end Net

/-! ## All the reads -/

namespace Wire

/-- The reads `ds` account for what has happened since the engine was `s`. -/
structure Follows (size : ℕ) (cfg : NetEngineConfig) (t : Token) (tx : ℕ) (s : Net Unit AROIobuf)
    (w : Wire) (ds : List (List UInt8)) : Prop where
  bytes : ds.flatten ++ w.queue = w.stream
  sent : w.net.payloads = s.payloads
    ++ ((reader cfg.readBufSz cfg.low size).run ⟨[], 0⟩ ds).2.map fun f => (tx, f, t)
  live : w.net.conns.get t ≠ none →
    Net.Framed cfg t tx w.net ((reader cfg.readBufSz cfg.low size).run ⟨[], 0⟩ ds).1
  gone : w.net.conns.get t = none → w.closed = true
  whole : w.closed = true → size ∣ w.stream.length

/-- Every read was a whole number of frames, and a connection that is gone has left nothing
behind. -/
def Emptied (size : ℕ) (t : Token) (w : Wire) (ds : List (List UInt8)) : Prop :=
  (∀ d ∈ ds, size ∣ d.length) ∧ (w.net.conns.get t = none → w.queue = [])

section Run

variable {size fuel : ℕ} {cfg : NetEngineConfig} {t : Token} {tx : ℕ} {s : Net Unit AROIobuf}
  {w v : Wire} {ds : List (List UInt8)}

/-- A `readable` event that finds the connection. -/
lemma Follows.readable (hsize : 0 < size) (hfuel : cfg.readBufSz < fuel)
    (h : Follows size cfg t tx s w ds) {read : ReadAnswer} {net : Net Unit AROIobuf}
    (hlive : w.net.conns.get t ≠ none) (hfront : w.queue.take read.data.length = read.data)
    (hnet : w.net.readable (BufProtocol size) fuel t w.closed AcceptAnswer.failed read
      = Outcome.ret net) :
    ∃ ds', Follows size cfg t tx s
        { w with net := net, queue := w.queue.drop read.data.length } ds' ∧
      (w.Clean size t (WireEvent.readable read) ∧ w.Emptied size t ds ↔
        Emptied size t { w with net := net, queue := w.queue.drop read.data.length } ds') := by
  obtain ⟨es, hes, hdvd, hstays, hgoes, hpay⟩ :=
    Net.readable_answered hsize hfuel (h.live hlive) hnet
  have hclosed : net.conns.get t = none ↔ w.closed = true := by
    constructor
    · intro hnone
      by_contra hopen
      obtain ⟨-, -, c, hc, -⟩ := hstays (Bool.eq_false_iff.mpr hopen)
      cases hnone.symm.trans hc
    · exact hgoes
  refine ⟨ds ++ es, ⟨?_, ?_, ?_, hclosed.mp, h.whole⟩, ?_⟩
  · rw [List.flatten_append, hes, List.append_assoc]
    nth_rewrite 1 [← hfront]
    rw [List.take_append_drop]
    exact h.bytes
  · show net.payloads = _
    rw [hpay, h.sent, Transducer.run_append, List.map_append, List.append_assoc]
  · intro hstill
    rw [Transducer.run_append]
    exact hstays (Bool.eq_false_iff.mpr fun hc => hstill (hclosed.mpr hc))
  · have hlen : read.data.length ≤ w.queue.length := by
      rw [← hfront, List.length_take]
      exact Nat.min_le_right _ _
    have hempty : w.queue.drop read.data.length = [] ↔ read.data.length = w.queue.length := by
      rw [List.drop_eq_nil_iff]
      omega
    simp only [Clean, Emptied, List.forall_mem_append, hdvd, hempty, hclosed]
    constructor
    · rintro ⟨hread, hall, -⟩
      exact ⟨⟨hall, (hread hlive).1⟩, (hread hlive).2⟩
    · rintro ⟨⟨hall, hwhole⟩, hlast⟩
      exact ⟨fun _ => ⟨hwhole, hlast⟩, hall, fun hnone => absurd hnone hlive⟩

/-- **One event.** -/
lemma Follows.step (hsize : 0 < size) (hfuel : cfg.readBufSz < fuel)
    (h : Follows size cfg t tx s w ds) {e : WireEvent} (hs : w.step size fuel t e = Outcome.ret v) :
    ∃ ds', Follows size cfg t tx s v ds' ∧
      (w.Clean size t e ∧ w.Emptied size t ds ↔ v.Emptied size t ds') := by
  cases e with
  | write bytes =>
      obtain ⟨hopen, hs⟩ := Outcome.guard_eq_ret.mp hs
      obtain rfl := Outcome.ret.inj hs
      have hlive : w.net.conns.get t ≠ none := by
        intro hnone
        cases hopen.symm.trans (h.gone hnone)
      refine ⟨ds, ⟨?_, h.sent, h.live, h.gone, ?_⟩, ?_⟩
      · show ds.flatten ++ (w.queue ++ bytes) = w.stream ++ bytes
        rw [← List.append_assoc, h.bytes]
      · intro hc
        cases hopen.symm.trans hc
      · constructor
        · rintro ⟨-, hall, -⟩
          exact ⟨hall, fun hnone => absurd hnone hlive⟩
        · rintro ⟨hall, -⟩
          exact ⟨trivial, hall, fun hnone => absurd hnone hlive⟩
  | close =>
      obtain ⟨hdvd, hs⟩ := Outcome.guard_eq_ret.mp hs
      obtain rfl := Outcome.ret.inj hs
      exact ⟨ds, ⟨h.bytes, h.sent, h.live, fun _ => rfl, fun _ => hdvd⟩,
        fun hw => hw.2, fun hv => ⟨trivial, hv⟩⟩
  | readable read =>
      simp only [Wire.step] at hs
      cases hc : w.net.conns.get t with
      | none =>
          rw [hc] at hs
          obtain rfl := Outcome.ret.inj hs
          exact ⟨ds, h, fun hw => hw.2, fun hv => ⟨fun hne => absurd hc hne, hv⟩⟩
      | some c =>
          rw [hc] at hs
          obtain ⟨hfront, hs⟩ := Outcome.guard_eq_ret.mp hs
          obtain ⟨net, hnet, hs⟩ := Outcome.bind_eq_ret.mp hs
          obtain rfl := Outcome.ret.inj hs
          exact h.readable hsize hfuel (by rw [hc]; exact Option.some_ne_none c) hfront hnet

/-- **Every run**, and which of the runs are clean. -/
lemma follows_reach (hsize : 0 < size) (hfuel : cfg.readBufSz < fuel) {es : List WireEvent}
    (hframed : Net.Framed cfg t tx s ⟨[], 0⟩)
    (h : Reach (step size fuel t) anyStep (start s) es w) :
    ∃ ds, Follows size cfg t tx s w ds ∧
      (Reach (step size fuel t) (Clean size t) (start s) es w ↔ w.Emptied size t ds) := by
  induction h with
  | nil =>
      obtain ⟨c, hc, -⟩ := hframed.conn
      have hlive : s.conns.get t ≠ none := by
        rw [hc]
        exact Option.some_ne_none c
      refine ⟨[], ⟨rfl, by simp [start], fun _ => hframed, fun hnone => absurd hnone hlive, ?_⟩,
        ?_, ?_⟩
      · intro hclosed
        cases hclosed
      · intro _
        exact ⟨by simp, fun hnone => absurd hnone hlive⟩
      · intro _
        exact Reach.nil
  | @snoc es w v e hes _ hs ih =>
      obtain ⟨ds, hds, hclean⟩ := ih
      obtain ⟨ds', hds', hstep⟩ := hds.step hsize hfuel hs
      exact ⟨ds', hds', by rw [Reach.snoc_iff hes hs, hclean, and_comm, hstep]⟩

/-- Whole reads that leave nothing behind have brought all the frames, and nothing else has. -/
lemma Follows.emptied_iff (hsize : 0 < size) (h : Follows size cfg t tx s w ds)
    (hgone : w.net.conns.get t = none) :
    w.net.payloads = s.payloads ++ (frames size w.stream).map (fun f => (tx, f, t)) ↔
      w.Emptied size t ds := by
  have hwhole := whole_le_flatten size ds
  have hstream : w.stream.length = ds.flatten.length + w.queue.length := by
    rw [← h.bytes, List.length_append]
  have hsum : ds.flatten.length = (ds.map List.length).sum := List.length_flatten
  rw [h.sent, List.append_cancel_left_eq,
    List.map_inj_right fun f g hfg => by simpa using hfg]
  constructor
  · intro hout
    -- every read sends the whole frames of its own length, so the count decides
    have hcount := @length_run cfg.readBufSz cfg.low size ⟨[], 0⟩ ds
    rw [hout, length_frames, Nat.div_mul_cancel (h.whole (h.gone hgone))] at hcount
    have hall := (whole_eq_sum_iff size (ds.map List.length)).mp (by omega)
    refine ⟨?_, fun _ => List.length_eq_zero_iff.mp (by omega)⟩
    intro d hd
    exact hall _ (List.mem_map_of_mem hd)
  · rintro ⟨hall, hqueue⟩
    have hdvd : ∀ n ∈ ds.map List.length, size ∣ n := by
      intro n hn
      obtain ⟨d, hd, rfl⟩ := List.mem_map.mp hn
      exact hall d hd
    have hkept : Kept cfg.readBufSz cfg.low size (ds.map List.length) := by
      intro xs n ys hns _ x hx
      exact hdvd x (by rw [hns]; exact List.mem_append_left _ hx)
    have htaken : Core.whole size (ds.map List.length) = ds.flatten.length :=
      ((whole_eq_sum_iff _ _).mpr hdvd).trans hsum.symm
    rw [(run_kept hsize hkept).1, htaken, List.take_length, ← h.bytes, hqueue hgone,
      List.append_nil]

end Run

/-- **The stream and the hang-up.**  A `BufProtocol` connection of a running engine has just been
made, and its peer writes and closes as it likes, at the end of a frame.  In a run at the end of
which the connection is gone, the frames of everything the peer has written have been sent, in order
and each once, exactly when every read of the run was a whole number of frames and the read at the
hang-up took all that was queued. -/
theorem hung_up_iff {size fuel : ℕ} {cfg : NetEngineConfig} {before : List Net.Event}
    {s : Net Unit AROIobuf} {t : Token} {c : Connection Unit} {es : List WireEvent} {w : Wire}
    (hsize : 1 ≤ size) (hfuel : cfg.readBufSz < fuel)
    (hs : Reach (Net.step (BufProtocol size) fuel) anyStep (Net.new cfg) before s)
    (hc : s.conns.get t = some c) (hmarker : c.marker = 0) (hbuf : c.buf = cfg.newBuf)
    (h : Reach (step size fuel t) anyStep (start s) es w) (hgone : w.net.conns.get t = none) :
    w.net.payloads = s.payloads ++ (frames size w.stream).map (fun f => (c.connTx, f, t)) ↔
      Reach (step size fuel t) (Clean size t) (start s) es w := by
  obtain ⟨ds, hds, hclean⟩ := follows_reach hsize hfuel (Net.framed_new hs hc hmarker hbuf) h
  rw [hclean]
  exact hds.emptied_iff hsize hgone

/-- The peer writes two frames of two bytes and closes. -/
def twoFrames (first last : ReadAnswer) : List WireEvent :=
  [WireEvent.write [1, 2, 3], WireEvent.readable first, WireEvent.write [4], WireEvent.close,
    WireEvent.readable last]

/-- The first frame is read when it has come, the second with the hang-up. -/
theorem hung_up_two_frames : ∃ s c w,
    Reach (Net.step (BufProtocol 2) 1537) anyStep (Net.new NetEngineConfig.defaults)
        [Net.Event.connected 256] s ∧
      s.conns.get 256 = some c ∧
      Reach (step 2 1537 256) (Clean 2 256) (start s)
        (twoFrames (ReadAnswer.ready [1, 2]) (ReadAnswer.ready [3, 4])) w ∧
      w.net.conns.get 256 = none ∧
      w.net.payloads = s.payloads ++ (frames 2 [1, 2, 3, 4]).map fun f => (c.connTx, f, 256) := by
  obtain ⟨s, hexec, c, hc, hmarker, hbuf, w, hw, hgone, hstream⟩ : ∃ s,
      execute (Net.step (BufProtocol 2) 1537) (fun _ _ => true) (Net.new NetEngineConfig.defaults)
        [Net.Event.connected 256] = some s ∧
      ∃ c, s.conns.get 256 = some c ∧ c.marker = 0 ∧ c.buf = NetEngineConfig.defaults.newBuf ∧
      ∃ w, execute (step 2 1537 256) (fun w e => decide (w.Clean 2 256 e)) (start s)
        (twoFrames (ReadAnswer.ready [1, 2]) (ReadAnswer.ready [3, 4])) = some w ∧
        w.net.conns.get 256 = none ∧ w.stream = [1, 2, 3, 4] :=
    ⟨_, rfl, _, rfl, rfl, rfl, _, rfl, rfl, rfl⟩
  have hs : Reach (Net.step (BufProtocol 2) 1537) anyStep _ _ s :=
    reach_of_execute (fun _ _ _ => trivial) hexec
  have hrun : Reach (step 2 1537 256) (Clean 2 256) (start s) _ w :=
    reach_of_execute (fun w e => of_decide_eq_true) hw
  refine ⟨s, c, w, hs, hc, hrun, hgone, ?_⟩
  rw [← hstream]
  exact (hung_up_iff (by decide) (by decide) hs hc hmarker hbuf (hrun.mono fun _ _ _ => trivial)
    hgone).mpr hrun

/-- The peer has written more than a read buffer holds, and has closed, before the first read: this
takes what there is room for, and the connection is gone with the rest. -/
def cutShort (room : ℕ) (stream : List UInt8) : List WireEvent :=
  [WireEvent.write stream, WireEvent.close,
    WireEvent.readable (ReadAnswer.ready (stream.take room))]

/-- **Every stream that is longer than the read buffer** can be cut. -/
lemma cutShort_loses {size fuel : ℕ} {cfg : NetEngineConfig} {t : Token} {tx : ℕ}
    {s : Net Unit AROIobuf} (hsize : 0 < size) (hfuel : cfg.readBufSz < fuel)
    (hframed : Net.Framed cfg t tx s ⟨[], 0⟩) {stream : List UInt8} (hdvd : size ∣ stream.length)
    (hlong : cfg.readBufSz < stream.length) :
    ∃ w, Reach (step size fuel t) anyStep (start s) (cutShort cfg.readBufSz stream) w ∧
      w.net.conns.get t = none ∧ w.stream = stream ∧
      w.net.payloads ≠ s.payloads ++ (frames size w.stream).map fun f => (tx, f, t) := by
  obtain ⟨c, hc, -⟩ := hframed.conn
  have hlen : (stream.take cfg.readBufSz).length = cfg.readBufSz := by
    rw [List.length_take]
    omega
  obtain ⟨net, hnet, -, hgone, -⟩ := @Net.readable_framed size cfg t tx fuel hsize s ⟨[], 0⟩
    (stream.take cfg.readBufSz) hframed (by rw [hlen]; exact Nat.le_refl _) (by omega) true
    AcceptAnswer.failed
  have hrun : Reach (step size fuel t) anyStep (start s) (cutShort cfg.readBufSz stream)
      ⟨net, stream.drop cfg.readBufSz, stream, true⟩ := by
    have hwrite : Reach (step size fuel t) anyStep (start s) [WireEvent.write stream]
        ⟨s, stream, stream, false⟩ := Reach.snoc Reach.nil trivial rfl
    have hclose : Reach (step size fuel t) anyStep (start s)
        [WireEvent.write stream, WireEvent.close] ⟨s, stream, stream, true⟩ := Reach.snoc hwrite trivial (if_pos hdvd)
    refine Reach.snoc hclose trivial ?_
    simp [step, hc, ReadAnswer.data, hnet, Nat.min_eq_left (Nat.le_of_lt hlong)]
  refine ⟨_, hrun, hgone rfl, rfl, ?_⟩
  intro hall
  obtain ⟨ds, hds, -⟩ := follows_reach hsize hfuel hframed hrun
  obtain ⟨-, hqueue⟩ := (hds.emptied_iff hsize (hgone rfl)).mp hall
  have hnil := List.drop_eq_nil_iff.mp (hqueue (hgone rfl))
  omega

/-- With the defaults, 769 frames of two bytes are two bytes too many. -/
theorem hung_up_too_early : ∃ s c w,
    Reach (Net.step (BufProtocol 2) 1537) anyStep (Net.new NetEngineConfig.defaults)
        [Net.Event.connected 256] s ∧
      s.conns.get 256 = some c ∧
      Reach (step 2 1537 256) anyStep (start s) (cutShort 1536 (List.replicate 1538 7)) w ∧
      w.net.conns.get 256 = none ∧ w.stream = List.replicate 1538 7 ∧
      w.net.payloads ≠ s.payloads ++ (frames 2 w.stream).map fun f => (c.connTx, f, 256) := by
  obtain ⟨s, hexec, c, hc, hmarker, hbuf⟩ : ∃ s,
      execute (Net.step (BufProtocol 2) 1537) (fun _ _ => true) (Net.new NetEngineConfig.defaults)
        [Net.Event.connected 256] = some s ∧
      ∃ c, s.conns.get 256 = some c ∧ c.marker = 0 ∧ c.buf = NetEngineConfig.defaults.newBuf :=
    ⟨_, rfl, _, rfl, rfl, rfl⟩
  have hs : Reach (Net.step (BufProtocol 2) 1537) anyStep _ _ s :=
    reach_of_execute (fun _ _ _ => trivial) hexec
  have hdvd : 2 ∣ (List.replicate 1538 (7 : UInt8)).length := by
    rw [List.length_replicate]
    decide
  have hlong : NetEngineConfig.defaults.readBufSz < (List.replicate 1538 (7 : UInt8)).length := by
    rw [List.length_replicate]
    decide
  have hframed := Net.framed_new hs hc hmarker hbuf
  obtain ⟨w, hw, hgone, hstream, hlost⟩ := @cutShort_loses 2 1537 _ _ _ _ (by decide) (by decide)
    hframed _ hdvd hlong
  exact ⟨s, c, w, hs, hc, hw, hgone, hstream, hlost⟩

end Wire

end Rx
