import RxRust.Reactor.Isolation
import RxRust.Reactor.Reassembly

/-!
# Views of the read buffer

A frame is not copied: it is a view of the read buffer.  The view that is decoded starts at the
marker, the frames are cut off its front, and the marker moves with them, so the frames of a read
lie side by side between where the marker was and where it is.

This file supplies what `ZeroCopy` needs of the decode loop and of the calls of the event loop.

* `Tiles` — views that lie side by side, and `decode_tiles`: the loop sends such views.
* `Heard` — what one read does to the buffer, with `received_heard`.
* `Watch.call_readable`, `Watch.call_same` — the calls that read the connection, and all the others.
-/

namespace Rx

open Core

/-! ## Views that lie side by side -/

/-- The view shows what the buffer holds there. -/
def AROIobuf.Of (self : AROIobuf) (bytes : List UInt8) : Prop :=
  self.lo + self.len ≤ bytes.length ∧ self.window = (bytes.drop self.lo).take self.len

/-- The views lie side by side, from `lo` to `hi`. -/
def Tiles : ℕ → List AROIobuf → ℕ → Prop
  | lo, [], hi => lo = hi
  | lo, v :: vs, hi => v.lo = lo ∧ Tiles (lo + v.len) vs hi

lemma Tiles.le {lo hi : ℕ} {vs : List AROIobuf} (h : Tiles lo vs hi) : lo ≤ hi := by
  induction vs generalizing lo with
  | nil => exact Nat.le_of_eq h
  | cons v vs ih => exact Nat.le_trans (Nat.le_add_right lo v.len) (ih h.2)

lemma Tiles.mem {lo hi : ℕ} {vs : List AROIobuf} (h : Tiles lo vs hi) {v : AROIobuf} (hv : v ∈ vs) :
    lo ≤ v.lo ∧ v.lo + v.len ≤ hi := by
  induction vs generalizing lo with
  | nil => cases hv
  | cons u us ih =>
      obtain ⟨rfl, hus⟩ := h
      rcases List.mem_cons.mp hv with rfl | hv
      · exact ⟨Nat.le_refl _, hus.le⟩
      · obtain ⟨hlo, hhi⟩ := ih hus hv
        exact ⟨Nat.le_trans (Nat.le_add_right _ _) hlo, hhi⟩

lemma Tiles.pairwise {lo hi : ℕ} {vs : List AROIobuf} (h : Tiles lo vs hi) :
    vs.Pairwise fun v u => v.lo + v.len ≤ u.lo := by
  induction vs generalizing lo with
  | nil => exact List.Pairwise.nil
  | cons v vs ih =>
      obtain ⟨rfl, hvs⟩ := h
      refine List.Pairwise.cons ?_ (ih hvs)
      intro u hu
      exact (hvs.mem hu).1

lemma Tiles.sum {lo hi : ℕ} {vs : List AROIobuf} (h : Tiles lo vs hi) :
    lo + (vs.map AROIobuf.len).sum = hi := by
  induction vs generalizing lo with
  | nil => exact h
  | cons v vs ih =>
      rw [List.map_cons, List.sum_cons, ← Nat.add_assoc]
      exact ih h.2

/-! ## The decode loop -/

/-- Both parts of a split view show the buffer. -/
lemma AROIobuf.Of.splitAt {self a b : AROIobuf} {bytes : List UInt8} {n : ℕ} (h : self.Of bytes)
    (hs : self.splitAt n = some (a, b)) :
    a.lo = self.lo ∧ a.len = n ∧ b.lo = self.lo + n ∧ a.Of bytes ∧ b.Of bytes := by
  rw [AROIobuf.splitAt] at hs
  split at hs
  · rename_i hn
    obtain ⟨hle, hw⟩ := h
    obtain ⟨rfl, rfl⟩ := Prod.mk.inj (Option.some.inj hs)
    have ha : (self.window.take n).length = n := by
      rw [List.length_take]
      exact Nat.min_eq_left hn
    have hb : (self.window.drop n).length = self.len - n := by
      rw [List.length_drop, AROIobuf.len]
    refine ⟨rfl, ha, rfl, ⟨?_, ?_⟩, ?_, ?_⟩
    · show self.lo + (self.window.take n).length ≤ bytes.length
      omega
    · show self.window.take n = (bytes.drop self.lo).take (self.window.take n).length
      rw [ha, hw, List.take_take, Nat.min_eq_left hn]
    · show self.lo + n + (self.window.drop n).length ≤ bytes.length
      omega
    · show self.window.drop n = (bytes.drop (self.lo + n)).take (self.window.drop n).length
      rw [hb, hw, List.drop_take, List.drop_drop]
  · cases hs

/-- A round of `append` that finds a frame has split the view. -/
lemma bufProtocol_some {size consumed : ℕ} {p q : Unit} {abuf a b : AROIobuf}
    (h : (BufProtocol size).append p abuf = Outcome.ret (q, some (a, b, consumed))) :
    consumed = size ∧ abuf.splitAt size = some (a, b) := by
  simp only [BufProtocol] at h
  split at h
  · split at h
    · rename_i hs
      obtain ⟨rfl, rfl, rfl⟩ : _ = a ∧ _ = b ∧ size = consumed := by
        simpa using Outcome.ret.inj h
      exact ⟨rfl, hs⟩
    · cases h
  · cases Outcome.ret.inj h

/-- A round that finds none had less than a frame. -/
lemma bufProtocol_none {size : ℕ} {p q : Unit} {abuf : AROIobuf}
    (h : (BufProtocol size).append p abuf = Outcome.ret (q, none)) : abuf.len < size := by
  simp only [BufProtocol] at h
  split at h
  · split at h
    · cases Outcome.ret.inj h
    · cases h
  · rename_i hlt
    exact Nat.lt_of_not_le hlt

/-- **The decode loop** sends views that lie side by side, from where the marker was to where it is,
and leaves less than a frame. -/
theorem decode_tiles {size : ℕ} {token : Token} {bytes : List UInt8}
    (hbytes : bytes.length < 2 ^ 32) {fuel : ℕ} {p q : Unit} {abuf rest : AROIobuf} {marker : ℕ}
    {sent out : List (ProtoMsg AROIobuf)} (hview : abuf.Of bytes)
    (h : decode (BufProtocol size) token fuel p abuf abuf.lo sent
      = Outcome.ret (q, rest, marker, out)) :
    ∃ msgs, out = sent ++ msgs ∧ Tiles abuf.lo (msgs.map ProtoMsg.item) marker ∧
      (∀ v ∈ msgs.map ProtoMsg.item, v.Of bytes) ∧ marker ≤ bytes.length ∧ rest.len < size := by
  induction fuel generalizing p abuf sent with
  | zero => cases h
  | succ fuel ih =>
      obtain ⟨⟨p', next⟩, happ, h⟩ := Outcome.bind_eq_ret.mp h
      cases next with
      | none =>
          cases h
          refine ⟨[], (List.append_nil _).symm, rfl, ?_, ?_, bufProtocol_none happ⟩
          · intro v hv
            cases hv
          · exact Nat.le_trans (Nat.le_add_right _ _) hview.1
      | some r =>
          obtain ⟨a, b, consumed⟩ := r
          obtain ⟨rfl, hs⟩ := bufProtocol_some happ
          obtain ⟨halo, halen, hblo, ha, hb⟩ := hview.splitAt hs
          -- the marker is where the rest of the view starts: it has not wrapped
          have hmod : (abuf.lo + consumed) % 2 ^ 32 = b.lo := by
            have := hb.1
            rw [hblo]
            exact Nat.mod_eq_of_lt (by omega)
          simp only [hmod] at h
          obtain ⟨msgs, rfl, htiles, hof, hle, hrest⟩ := ih hb h
          refine ⟨⟨a, token⟩ :: msgs, by simp, ?_, ?_, hle, hrest⟩
          · refine ⟨halo, ?_⟩
            rw [halen, ← hblo]
            exact htiles
          · intro v hv
            rcases List.mem_cons.mp hv with rfl | hv
            · exact ha
            · exact hof v hv

/-! ## One read -/

/-- A view taken from a buffer shows it. -/
lemma AppendBuf.of_atomicSlicePosFromBegin {self : AppendBuf} {pos n : ℕ} {abuf : AROIobuf}
    (h : self.atomicSlicePosFromBegin pos n = some abuf) : abuf.lo = pos ∧ abuf.Of self.bytes := by
  rw [AppendBuf.atomicSlicePosFromBegin] at h
  split at h
  · rename_i hle
    obtain rfl := Option.some.inj h
    have hlen : ((self.bytes.drop pos).take n).length = n := by
      rw [List.length_take, List.length_drop]
      omega
    refine ⟨rfl, ?_, ?_⟩
    · show pos + ((self.bytes.drop pos).take n).length ≤ self.bytes.length
      omega
    · show (self.bytes.drop pos).take n
        = (self.bytes.drop pos).take ((self.bytes.drop pos).take n).length
      rw [hlen]
  · cases h

/-- What a read does to the buffer of a connection: the frames lie between the old marker and
`m`. -/
structure Heard (size : ℕ) (config : NetEngineConfig) (c : Connection Unit) (data : List UInt8)
    (c' : Connection Unit) (msgs : List (ProtoMsg AROIobuf)) (m : ℕ) : Prop where
  fits : data.length ≤ c.buf.len
  tiles : Tiles c.marker (msgs.map ProtoMsg.item) m
  shown : ∀ v ∈ msgs.map ProtoMsg.item, v.Of (c.buf.fill data).bytes
  le : m ≤ (c.buf.fill data).bytes.length
  rolls : (c.buf.fill data).len < config.low →
    c'.marker = 0 ∧ c'.buf.cap = config.readBufSz ∧ c'.buf.bytes.length < size
  stays : ¬ (c.buf.fill data).len < config.low → c'.marker = m ∧ c'.buf = c.buf.fill data

lemma received_heard {size : ℕ} {config : NetEngineConfig} (hsize : size ≤ config.readBufSz)
    {token : Token} {fuel : ℕ} {c c' : Connection Unit} {data : List UInt8}
    {msgs : List (ProtoMsg AROIobuf)}
    (h : c.received (BufProtocol size) config token fuel data = Outcome.ret (c', msgs)) :
    ∃ m, Heard size config c data c' msgs m := by
  obtain ⟨hfits, h⟩ := Outcome.guard_eq_ret.mp h
  dsimp only at h
  cases hslice : (c.buf.fill data).atomicSlicePosFromBegin c.marker data.length with
  | none =>
      rw [hslice] at h
      cases h
  | some abuf =>
      rw [hslice] at h
      obtain ⟨⟨p, rest, m, sent⟩, hdec, h⟩ := Outcome.bind_eq_ret.mp h
      obtain ⟨hlo, hof⟩ := AppendBuf.of_atomicSlicePosFromBegin hslice
      have hsmall : (c.buf.fill data).bytes.length < 2 ^ 32 :=
        Nat.lt_of_le_of_lt (c.buf.fill data).fits (c.buf.fill data).small
      rw [← hlo] at hdec
      obtain ⟨msgs', hout, htiles, hshown, hle, hrest⟩ := decode_tiles hsmall hof hdec
      rw [List.nil_append] at hout
      subst hout
      rw [hlo] at htiles
      have hnew := rolled_over (Nat.le_of_lt (Nat.lt_of_lt_of_le hrest hsize))
      simp only at h
      rw [← NetEngineConfig.low] at h
      by_cases hroll : (c.buf.fill data).len < config.low
      · rw [if_pos hroll] at h
        obtain ⟨rfl, rfl⟩ := Prod.mk.inj (Outcome.ret.inj h)
        refine ⟨m, hfits, htiles, hshown, hle, fun _ => ⟨rfl, hnew.2, ?_⟩,
          fun hn => absurd hroll hn⟩
        show (if rest.len > 0 then config.newBuf.fill rest.window
          else config.newBuf).bytes.length < size
        rw [hnew.1]
        exact hrest
      · rw [if_neg hroll] at h
        obtain ⟨rfl, rfl⟩ := Prod.mk.inj (Outcome.ret.inj h)
        exact ⟨m, hfits, htiles, hshown, hle, fun hr => absurd hr hroll, fun _ => ⟨rfl, rfl⟩⟩

/-! ## The event loop, seen from one read buffer -/

section Calls

variable {P Out : Type} {proto : Protocol P Out} {fuel : ℕ} {t : Token}

/-- The bytes that a call reads from the connection under `t`. -/
def LoopCall.heard (t : Token) : LoopCall → Option (List UInt8)
  | readable token _ _ (ReadAnswer.ready data) => if token = t then some data else none
  | _ => none

lemma LoopCall.eq_readable {e : LoopCall} {data : List UInt8} (h : e.heard t = some data) :
    ∃ hup answer, e = LoopCall.readable t hup answer (ReadAnswer.ready data) := by
  cases e with
  | readable token hup answer read =>
      cases read with
      | ready data' =>
          simp only [heard] at h
          split at h
          · rename_i ht
            subst ht
            obtain rfl := Option.some.inj h
            exact ⟨hup, answer, rfl⟩
          · cases h
      | wouldBlock => cases h
      | err e => cases h
  | writable token answers => cases h
  | notify msg answers => cases h

/-- The call has left the read buffer alone and sent nothing with the token. -/
structure Watch.SameBuffer (t : Token) (w v : Watch P Out) : Prop where
  buf : v.last.buf = w.last.buf
  marker : v.last.marker = w.last.marker
  connTx : v.last.connTx = w.last.connTx
  tagged : v.net.tagged t = w.net.tagged t

namespace Net

/-- Draining a connection does not touch its read buffer. -/
lemma drained_buffer {s u : Net P Out} {c : Connection P} {outbuf : List StreamBuf}
    {answers : List WriteAnswer} (hc : s.conns.get t = some c)
    (h : s.drained t { c with outbuf := outbuf } answers = Outcome.ret u) :
    (∃ k, u.conns.get t = some k ∧ k.buf = c.buf ∧ k.marker = c.marker ∧ k.connTx = c.connTx) ∧
      u.tagged t = s.tagged t := by
  obtain ⟨k, hdrain, rfl⟩ := drained_eq h
  obtain ⟨⟨ws, hws⟩, -⟩ := Connection.drainWriteQueueToSocket_spec hdrain
  have hrest := hws.rest
  by_cases hnil : k.outbuf = []
  · rw [flushed_nil hnil]
    refine ⟨⟨k, Slab.get_put_of_get _ hc, ?_, ?_, ?_⟩, rfl⟩ <;> rw [hrest]
  · rw [flushed_pending hnil]
    refine ⟨⟨_, Slab.get_put_of_get _ hc, ?_, ?_, ?_⟩, rfl⟩ <;> rw [hrest]

/-- A call on a laid-out engine leaves it laid out. -/
lemma handle_laid {cfg : NetEngineConfig} {s u : Net P Out} {c : Connection P} {e : LoopCall}
    (hlaid : Laid (new cfg) s) (hc : s.conns.get t = some c)
    (h : s.handle proto fuel e = Outcome.ret u) : Laid (new cfg) u := by
  cases he : e.addressed t with
  | false => exact hlaid.trans (handle_untouched hlaid hc he h).laid
  | true =>
      have hself : Agree cfg t s s := ⟨hlaid, hlaid, rfl, rfl, rfl⟩
      obtain ⟨_, -, hagree⟩ := hself.own hc he h
      exact hagree.laid

end Net

namespace Watch

variable {cfg : NetEngineConfig} {w v : Watch P Out} {c : Connection P}

/-- **A read of the connection**, also one after which it is dropped. -/
lemma call_readable {hup : Bool} {answer : AcceptAnswer} {read : ReadAnswer}
    (hlaid : Net.Laid (Net.new cfg) w.net) (hc : w.net.conns.get t = some c) (hheld : w.last = c)
    (h : w.call proto fuel t (LoopCall.readable t hup answer read) = Outcome.ret v) :
    ∃ c' msgs, c.readAnswered proto w.net.config t fuel read = Outcome.ret (c', msgs) ∧
      v.last.buf = c'.buf ∧ v.last.marker = c'.marker ∧ v.last.connTx = c.connTx ∧
      v.net.tagged t = w.net.tagged t ++ msgs.map fun m => (c.connTx, m) := by
  obtain ⟨hnet, hlast⟩ := call_eq_ret h
  have hl := Net.get_listeners_of_laid hlaid hc
  simp only [Net.handle, Net.readable, hl, hc] at hnet
  obtain ⟨⟨c', msgs⟩, hread, hnet⟩ := Outcome.bind_eq_ret.mp hnet
  have hnet := Outcome.ret.inj hnet
  have htx : c'.connTx = c.connTx := by rw [Connection.readAnswered_keeps hread]
  have hall : (msgs.map fun m => (c.connTx, m)).filter (fun m => decide (m.2.tok = t))
      = msgs.map fun m => (c.connTx, m) := by
    rw [List.filter_eq_self]
    intro k hk
    obtain ⟨m, hm, rfl⟩ := List.mem_map.mp hk
    simpa using Net.readAnswered_tok hread m hm
  have htagged : v.net.tagged t = w.net.tagged t ++ msgs.map fun m => (c.connTx, m) := by
    have hsent : v.net.sent = w.net.sent ++ msgs.map fun m => (c.connTx, m) := by
      rw [← hnet, ← htx]
      cases hup <;> rfl
    rw [Net.tagged, hsent, List.filter_append, hall, Net.tagged]
  refine ⟨c', msgs, hread, ?_⟩
  cases hup with
  | true =>
      have hnone : v.net.conns.get t = none := by
        rw [← hnet]
        exact Slab.get_remove
      have hdropped : v.last = c' := by
        rw [hlast, hnone, Option.getD_none, hheld]
        simp only [Connection.dropped, hread]
      rw [hdropped]
      exact ⟨rfl, rfl, htx, htagged⟩
  | false =>
      have hsome : v.net.conns.get t
          = some { c' with interest := c'.interest.insert Interest.READABLE } := by
        rw [← hnet]
        exact Slab.get_put_of_get _ hc
      rw [held_of_call h _ hsome]
      exact ⟨rfl, rfl, htx, htagged⟩

/-- **Every other call**, with whatever token, leaves the read buffer alone. -/
lemma call_same {e : LoopCall} (hlaid : Net.Laid (Net.new cfg) w.net)
    (hc : w.net.conns.get t = some c) (hheld : w.last = c) (he : e.heard t = none)
    (h : w.call proto fuel t e = Outcome.ret v) : SameBuffer t w v := by
  obtain ⟨hnet, -⟩ := call_eq_ret h
  cases hown : e.addressed t with
  | false =>
      have hu := Net.handle_untouched hlaid hc hown hnet
      have hlast : v.last = w.last := by rw [held_of_call h c (hu.conn.trans hc), hheld]
      exact ⟨by rw [hlast], by rw [hlast], by rw [hlast], hu.tagged⟩
  | true =>
      obtain rfl : e.token = t := of_decide_eq_true hown
      cases e with
      | readable token hup answer read =>
          obtain ⟨c', msgs, hread, hbuf, hmarker, htx, htagged⟩ := call_readable hlaid hc hheld h
          obtain ⟨rfl, rfl⟩ : c = c' ∧ [] = msgs := by
            cases read with
            | ready data => simp [LoopCall.heard, LoopCall.token] at he
            | wouldBlock => exact Prod.mk.inj (Outcome.ret.inj hread)
            | err e => exact Prod.mk.inj (Outcome.ret.inj hread)
          rw [← hheld] at hbuf hmarker htx
          exact ⟨hbuf, hmarker, htx, by rw [htagged, List.map_nil, List.append_nil]⟩
      | writable token answers =>
          simp only [LoopCall.token] at hc
          simp only [Net.handle, Net.writable, hc] at hnet
          have hdrain : w.net.drained token { c with outbuf := c.outbuf } answers
              = Outcome.ret v.net := hnet
          obtain ⟨⟨k, hk, hbuf, hmarker, htx⟩, htagged⟩ := Net.drained_buffer hc hdrain
          rw [← hheld] at hbuf hmarker htx
          have hlast := held_of_call h k hk
          exact ⟨hlast ▸ hbuf, hlast ▸ hmarker, hlast ▸ htx, htagged⟩
      | notify msg answers =>
          simp only [LoopCall.token] at hc
          simp only [Net.handle, Net.notify, hc] at hnet
          obtain ⟨⟨k, hk, hbuf, hmarker, htx⟩, htagged⟩ := Net.drained_buffer hc hnet
          rw [← hheld] at hbuf hmarker htx
          have hlast := held_of_call h k hk
          exact ⟨hlast ▸ hbuf, hlast ▸ hmarker, hlast ▸ htx, htagged⟩

end Watch

end Calls

end Rx
