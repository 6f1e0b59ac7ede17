import RxRust.Reactor.Moves

/-!
# Connections do not interfere

The handlers share one slab, one configuration and the channels of the listeners, but each of them
touches the entry of the token it is called with and no other.  So a connection fares in the whole
run as it does in the run that keeps only the calls addressed to it.

* `LoopCall`, `Net.handle` — the calls the event loop makes, with the answers of the sockets.
* `Watch` — an engine, and one connection as the last call left it, also when that call dropped it.
* `Net.Untouched`, `handle_untouched` — what a call with another token leaves alone.
* `Watch.Alike`, `Alike.own` — two engines that agree on a token go on agreeing.
* `Watch.alone` — the run of one connection's own calls.
-/

namespace Rx

open Core

/-! ## Calls -/

/-- A call of the event loop on the engine. -/
inductive LoopCall where
  | readable (token : Token) (hup : Bool) (answer : AcceptAnswer) (read : ReadAnswer)
  | writable (token : Token) (answers : List WriteAnswer)
  | notify (msg : StreamBuf) (answers : List WriteAnswer)

/-- The token that a call is addressed to. -/
def LoopCall.token : LoopCall → Token
  | readable token _ _ _ => token
  | writable token _ => token
  | notify msg _ => msg.tok

def LoopCall.addressed (t : Token) (e : LoopCall) : Bool := decide (e.token = t)

variable {P Out : Type}

/-- One call. -/
def Net.handle (proto : Protocol P Out) (fuel : ℕ) (self : Net P Out) : LoopCall → Outcome (Net P Out)
  | LoopCall.readable token hup answer read => self.readable proto fuel token hup answer read
  | LoopCall.writable token answers => self.writable token answers
  | LoopCall.notify msg answers => self.notify msg answers

/-- The messages with the token, each with the channel it was sent on. -/
def Net.tagged (s : Net P Out) (t : Token) : List (ℕ × ProtoMsg Out) :=
  s.sent.filter fun m => decide (m.2.tok = t)

/-- An engine, and one connection as the last call left it. -/
structure Watch (P Out : Type) where
  net : Net P Out
  last : Connection P

/-- A connection at the moment a call drops it: it has been read once more. -/
def Connection.dropped (proto : Protocol P Out) (config : NetEngineConfig) (t : Token) (fuel : ℕ)
    (c : Connection P) : LoopCall → Connection P
  | LoopCall.readable _ _ _ read =>
      match c.readAnswered proto config t fuel read with
      | Outcome.ret (c', _) => c'
      | _ => c
  | _ => c

/-- One call, seen by somebody who watches the connection under `t`. -/
def Watch.call (proto : Protocol P Out) (fuel : ℕ) (t : Token) (w : Watch P Out) (e : LoopCall) :
    Outcome (Watch P Out) := do
  let net ← w.net.handle proto fuel e
  match net.conns.get t with
  | some c => pure ⟨net, c⟩
  | none => pure ⟨net, w.last.dropped proto w.net.config t fuel e⟩

/-- The connection has not been removed. -/
def Watch.Live (t : Token) (w : Watch P Out) (_ : LoopCall) : Prop := w.net.conns.get t ≠ none

variable {proto : Protocol P Out} {fuel : ℕ}

/-! ## Calls with another token -/

namespace Net

/-- What a call with another token leaves alone. -/
structure Untouched (t : Token) (s u : Net P Out) : Prop where
  laid : Laid s u
  conn : u.conns.get t = s.conns.get t
  passed : u.passed t = s.passed t
  tagged : u.tagged t = s.tagged t

lemma Untouched.refl (t : Token) (s : Net P Out) : Untouched t s s := ⟨Laid.refl s, rfl, rfl, rfl⟩

/-- Putting back another connection. -/
lemma untouched_flushed {t u : Token} (s : Net P Out) (c : Connection P) (h : t ≠ u) :
    Untouched t s (s.flushed u c) := by
  have hlaid := flushed_laid s u c
  by_cases hc : c.outbuf = []
  · rw [flushed_nil hc] at hlaid ⊢
    exact ⟨hlaid, Slab.get_put_ne _ h, rfl, rfl⟩
  · rw [flushed_pending hc] at hlaid ⊢
    exact ⟨hlaid, Slab.get_put_ne _ h, pass_passed_ne _ h, rfl⟩

/-- Reading another connection. -/
lemma untouched_settle {t u : Token} (s : Net P Out) (c : Connection P) (hup : Bool) (h : t ≠ u) :
    Untouched t s (s.settle u c hup) := by
  have hlaid := settle_laid s u c hup
  cases hup with
  | true => exact ⟨hlaid, Slab.get_remove_ne h, rfl, rfl⟩
  | false => exact ⟨hlaid, Slab.get_put_ne _ h, pass_passed_ne _ h, rfl⟩

/-- Accepting sends nothing. -/
lemma accept_sent {s u : Net P Out} {token : Token} {tx : ℕ} {answer : AcceptAnswer}
    (h : s.accept proto token tx answer = Outcome.ret u) : u.sent = s.sent := by
  cases answer with
  | failed =>
      obtain rfl := Outcome.ret.inj h
      rfl
  | ready slot =>
      obtain ⟨q, hins, h⟩ := Outcome.bind_eq_ret.mp h
      cases q with
      | none =>
          obtain rfl := Outcome.ret.inj h
          rfl
      | some r =>
          obtain rfl := Outcome.ret.inj h
          rfl

/-- Accepting takes a free slot, so a connection keeps its own. -/
lemma untouched_accept {cfg : NetEngineConfig} {s u : Net P Out} {t token : Token} {tx : ℕ}
    {answer : AcceptAnswer} {c : Connection P} (hlaid : Laid (new cfg) s)
    (hc : s.conns.get t = some c) (hl : s.listeners.get token = some tx)
    (h : s.accept proto token tx answer = Outcome.ret u) : Untouched t s u := by
  have hout : ¬ s.listeners.Range t := not_range_of_get hlaid hc
  have htagged : u.tagged t = s.tagged t := by rw [tagged, accept_sent h, tagged]
  have hmoves : Quiet s u ∨ ∃ slot,
      s.slotOf (Event.readable token false answer ReadAnswer.wouldBlock) = some slot ∧
        Opened proto s u slot := accept_moves hl h
  rcases hmoves with hq | ⟨slot, -, ho⟩
  · exact ⟨hq.laid, by rw [hq.conns], hq.passed_out t hout, htagged⟩
  · have hne : t ≠ slot := by
      rintro rfl
      cases hc.symm.trans ho.free
    obtain ⟨tx', hconns, -⟩ := ho.conn
    refine ⟨ho.laid, ?_, ho.passed_out t hne hout, htagged⟩
    rw [hconns]
    exact Slab.get_put_ne _ hne

/-- A message carries the token of the connection it was read from. -/
lemma decode_tok {token : Token} {fuel : ℕ} {p p' : P} {abuf abuf' : AROIobuf} {marker marker' : ℕ}
    {sent msgs : List (ProtoMsg Out)} (hsent : ∀ m ∈ sent, m.tok = token)
    (h : decode proto token fuel p abuf marker sent = Outcome.ret (p', abuf', marker', msgs)) :
    ∀ m ∈ msgs, m.tok = token := by
  induction fuel generalizing p abuf marker sent with
  | zero => cases h
  | succ fuel ih =>
      obtain ⟨⟨q, next⟩, -, h⟩ := Outcome.bind_eq_ret.mp h
      cases next with
      | none =>
          cases h
          exact hsent
      | some r =>
          refine ih ?_ h
          intro m hm
          rcases List.mem_append.mp hm with hm | hm
          · exact hsent m hm
          · obtain rfl := List.mem_singleton.mp hm
            rfl

lemma readAnswered_tok {config : NetEngineConfig} {token : Token} {c c' : Connection P}
    {read : ReadAnswer} {msgs : List (ProtoMsg Out)}
    (h : c.readAnswered proto config token fuel read = Outcome.ret (c', msgs)) :
    ∀ m ∈ msgs, m.tok = token := by
  cases read with
  | ready data =>
      obtain ⟨-, h⟩ := Outcome.guard_eq_ret.mp h
      cases hslice : (c.buf.fill data).atomicSlicePosFromBegin c.marker data.length with
      | none =>
          rw [hslice] at h
          cases h
      | some abuf =>
          rw [hslice] at h
          obtain ⟨⟨p, abuf', marker, sent⟩, hdecode, h⟩ := Outcome.bind_eq_ret.mp h
          have hsent : ∀ m ∈ sent, m.tok = token := decode_tok (fun m hm => by cases hm) hdecode
          simp only at h
          split at h
          · obtain ⟨-, rfl⟩ := Prod.mk.inj (Outcome.ret.inj h)
            exact hsent
          · obtain ⟨-, rfl⟩ := Prod.mk.inj (Outcome.ret.inj h)
            exact hsent
  | wouldBlock =>
      cases h
      simp
  | err e =>
      cases h
      simp

/-- The record of a read. -/
lemma untouched_record {t u : Token} (s : Net P Out) {tx : ℕ} {id : ℕ} {msgs : List (ProtoMsg Out)}
    (h : t ≠ u) (htok : ∀ m ∈ msgs, m.tok = u) :
    Untouched t s { s with
      sent := s.sent ++ msgs.map fun m => (tx, m)
      handed := s.handed ++ msgs.map fun _ => (id, u) } := by
  refine ⟨record_laid s _ _, rfl, rfl, ?_⟩
  have hnone : (msgs.map fun m => (tx, m)).filter (fun m => decide (m.2.tok = t)) = [] := by
    rw [List.filter_eq_nil_iff]
    intro k hk
    obtain ⟨m, hm, rfl⟩ := List.mem_map.mp hk
    simpa [htok m hm] using h.symm
  rw [tagged, List.filter_append, hnone, List.append_nil, tagged]

lemma Untouched.trans {t : Token} {s u v : Net P Out} (h : Untouched t s u) (h' : Untouched t u v) :
    Untouched t s v :=
  ⟨h.laid.trans h'.laid, h'.conn.trans h.conn, h'.passed.trans h.passed, h'.tagged.trans h.tagged⟩

/-- **A call with another token** leaves a connection, its registration and its messages alone. -/
theorem handle_untouched {cfg : NetEngineConfig} {s u : Net P Out} {t : Token} {c : Connection P}
    {e : LoopCall} (hlaid : Laid (new cfg) s) (hc : s.conns.get t = some c)
    (he : e.addressed t = false)
    (h : s.handle proto fuel e = Outcome.ret u) : Untouched t s u := by
  have hne : t ≠ e.token := by
    rintro rfl
    simp [LoopCall.addressed] at he
  cases e with
  | readable token hup answer read =>
      simp only [handle, readable] at h
      cases hl : s.listeners.get token with
      | some tx =>
          rw [hl] at h
          exact untouched_accept hlaid hc hl h
      | none =>
          rw [hl] at h
          cases hk : s.conns.get token with
          | none =>
              rw [hk] at h
              obtain rfl := Outcome.ret.inj h
              exact Untouched.refl t s
          | some k =>
              rw [hk] at h
              obtain ⟨⟨k', msgs⟩, hread, h⟩ := Outcome.bind_eq_ret.mp h
              obtain rfl := Outcome.ret.inj h
              exact (untouched_record s hne (readAnswered_tok hread)).trans
                (untouched_settle _ k' hup hne)
  | writable token answers =>
      simp only [handle, writable] at h
      cases hk : s.conns.get token with
      | none =>
          rw [hk] at h
          obtain ⟨-, h⟩ := Outcome.guard_eq_ret.mp h
          obtain rfl := Outcome.ret.inj h
          exact Untouched.refl t s
      | some k =>
          rw [hk] at h
          obtain ⟨k', -, rfl⟩ := drained_eq h
          exact untouched_flushed s k' hne
  | notify msg answers =>
      simp only [handle, notify] at h
      cases hk : s.conns.get msg.tok with
      | none =>
          rw [hk] at h
          obtain ⟨-, h⟩ := Outcome.guard_eq_ret.mp h
          obtain rfl := Outcome.ret.inj h
          exact Untouched.refl t s
      | some k =>
          rw [hk] at h
          obtain ⟨k', -, rfl⟩ := drained_eq h
          exact untouched_flushed s k' hne

/-! ## Calls with the connection's token -/

/-- Two engines of one configuration that agree on a token. -/
structure Agree (cfg : NetEngineConfig) (t : Token) (s s' : Net P Out) : Prop where
  laid : Laid (new cfg) s
  laid' : Laid (new cfg) s'
  conn : s'.conns.get t = s.conns.get t
  passed : s'.passed t = s.passed t
  tagged : s'.tagged t = s.tagged t

lemma Agree.config {cfg : NetEngineConfig} {t : Token} {s s' : Net P Out} (h : Agree cfg t s s') :
    s'.config = s.config := h.laid'.config.trans h.laid.config.symm

/-- The connection is drained in both. -/
lemma Agree.flushed {cfg : NetEngineConfig} {t : Token} {s s' : Net P Out} {c : Connection P}
    (h : Agree cfg t s s') (hc : s.conns.get t = some c) (c' : Connection P) :
    Agree cfg t (s.flushed t c') (s'.flushed t c') := by
  have hc' : s'.conns.get t = some c := h.conn.trans hc
  have hlaid := h.laid.trans (flushed_laid s t c')
  have hlaid' := h.laid'.trans (flushed_laid s' t c')
  by_cases hnil : c'.outbuf = []
  · rw [flushed_nil hnil] at hlaid
    rw [flushed_nil hnil] at hlaid'
    rw [flushed_nil hnil, flushed_nil hnil]
    refine ⟨hlaid, hlaid', ?_, h.passed, h.tagged⟩
    exact (Slab.get_put_of_get _ hc').trans (Slab.get_put_of_get _ hc).symm
  · rw [flushed_pending hnil] at hlaid
    rw [flushed_pending hnil] at hlaid'
    rw [flushed_pending hnil, flushed_pending hnil]
    refine ⟨hlaid, hlaid', ?_, ?_, h.tagged⟩
    · exact (Slab.get_put_of_get _ hc').trans (Slab.get_put_of_get _ hc).symm
    · exact (pass_passed _ t _).trans (pass_passed _ t _).symm

/-- The connection has been read in both. -/
lemma Agree.settle {cfg : NetEngineConfig} {t : Token} {s s' : Net P Out} {c : Connection P}
    (h : Agree cfg t s s') (hc : s.conns.get t = some c) (c' : Connection P) (hup : Bool) :
    Agree cfg t (s.settle t c' hup) (s'.settle t c' hup) := by
  have hc' : s'.conns.get t = some c := h.conn.trans hc
  have hlaid := h.laid.trans (settle_laid s t c' hup)
  have hlaid' := h.laid'.trans (settle_laid s' t c' hup)
  cases hup with
  | true =>
      refine ⟨hlaid, hlaid', ?_, h.passed, h.tagged⟩
      exact Slab.get_remove.trans Slab.get_remove.symm
  | false =>
      refine ⟨hlaid, hlaid', ?_, ?_, h.tagged⟩
      · exact (Slab.get_put_of_get _ hc').trans (Slab.get_put_of_get _ hc).symm
      · exact (pass_passed _ t _).trans (pass_passed _ t _).symm

/-- The same messages are recorded in both. -/
lemma Agree.record {cfg : NetEngineConfig} {t : Token} {s s' : Net P Out} (h : Agree cfg t s s')
    (sent : List (ℕ × ProtoMsg Out)) (handed : List (ℕ × Token)) :
    Agree cfg t { s with sent := s.sent ++ sent, handed := s.handed ++ handed }
      { s' with sent := s'.sent ++ sent, handed := s'.handed ++ handed } := by
  refine ⟨h.laid.trans (record_laid s _ _), h.laid'.trans (record_laid s' _ _), h.conn, h.passed,
    ?_⟩
  have htagged := h.tagged
  rw [Net.tagged, Net.tagged] at htagged
  rw [Net.tagged, List.filter_append, htagged, ← List.filter_append, Net.tagged]

/-- Draining the connection in both. -/
lemma Agree.drained {cfg : NetEngineConfig} {t : Token} {s s' u : Net P Out} {c k : Connection P}
    {answers : List WriteAnswer} (h : Agree cfg t s s') (hc : s.conns.get t = some c)
    (hu : s.drained t k answers = Outcome.ret u) :
    ∃ u', s'.drained t k answers = Outcome.ret u' ∧ Agree cfg t u u' := by
  obtain ⟨k', hdrain, rfl⟩ := drained_eq hu
  refine ⟨s'.flushed t k', ?_, h.flushed hc k'⟩
  rw [Net.drained, hdrain]
  rfl

/-- **A call with the token of the connection** does the same in both. -/
theorem Agree.own {cfg : NetEngineConfig} {t : Token} {s s' u : Net P Out} {c : Connection P}
    {e : LoopCall} (h : Agree cfg t s s') (hc : s.conns.get t = some c) (he : e.addressed t = true)
    (hu : s.handle proto fuel e = Outcome.ret u) :
    ∃ u', s'.handle proto fuel e = Outcome.ret u' ∧ Agree cfg t u u' := by
  have hc' : s'.conns.get t = some c := h.conn.trans hc
  obtain rfl : e.token = t := of_decide_eq_true he
  cases e with
  | readable token hup answer read =>
      have hl : s.listeners.get token = none := get_listeners_of_laid h.laid hc
      have hl' : s'.listeners.get token = none := get_listeners_of_laid h.laid' hc'
      simp only [LoopCall.token] at hc hc' h
      simp only [handle, readable, hl, hc] at hu
      obtain ⟨⟨k, msgs⟩, hread, hu⟩ := Outcome.bind_eq_ret.mp hu
      obtain rfl := Outcome.ret.inj hu
      refine ⟨_, ?_, (h.record (msgs.map fun m => (k.connTx, m))
        (msgs.map fun _ => (k.sock.id, token))).settle hc k hup⟩
      simp only [handle, readable, hl', hc', h.config, hread]
      rfl
  | writable token answers =>
      simp only [LoopCall.token] at hc hc' h
      simp only [handle, writable, hc] at hu
      simp only [handle, writable, hc']
      exact h.drained hc hu
  | notify msg answers =>
      simp only [LoopCall.token] at hc hc' h
      simp only [handle, notify, hc] at hu
      simp only [handle, notify, hc']
      exact h.drained hc hu

end Net

/-! ## Two runs -/

namespace Watch

/-- Two watched engines that agree on the token and on the connection seen there. -/
structure Alike (cfg : NetEngineConfig) (t : Token) (w w' : Watch P Out) : Prop where
  agree : Net.Agree cfg t w.net w'.net
  last : w'.last = w.last
  held : ∀ c, w.net.conns.get t = some c → w.last = c

/-- A call that comes back. -/
lemma call_eq_ret {t : Token} {w v : Watch P Out} {e : LoopCall}
    (h : w.call proto fuel t e = Outcome.ret v) :
    w.net.handle proto fuel e = Outcome.ret v.net ∧
      v.last = (v.net.conns.get t).getD (w.last.dropped proto w.net.config t fuel e) := by
  obtain ⟨net, hnet, h⟩ := Outcome.bind_eq_ret.mp h
  cases hc : net.conns.get t with
  | none =>
      rw [hc] at h
      obtain rfl := Outcome.ret.inj h
      exact ⟨hnet, by rw [hc]; rfl⟩
  | some c =>
      rw [hc] at h
      obtain rfl := Outcome.ret.inj h
      exact ⟨hnet, by rw [hc]; rfl⟩

/-- What a connection looked like last is what the slab holds, if it holds one. -/
lemma held_of_call {t : Token} {w v : Watch P Out} {e : LoopCall}
    (h : w.call proto fuel t e = Outcome.ret v) : ∀ c, v.net.conns.get t = some c → v.last = c := by
  intro c hc
  rw [(call_eq_ret h).2, hc]
  rfl

/-- The second engine does not take the call. -/
lemma Alike.other {cfg : NetEngineConfig} {t : Token} {w w' v : Watch P Out} {e : LoopCall}
    (h : Alike cfg t w w') (he : e.addressed t = false) (hlive : w.Live t e)
    (hv : w.call proto fuel t e = Outcome.ret v) : Alike cfg t v w' := by
  obtain ⟨c, hc⟩ := Option.ne_none_iff_exists'.mp hlive
  obtain ⟨hnet, -⟩ := call_eq_ret hv
  have hu := Net.handle_untouched h.agree.laid hc he hnet
  have hagree : Net.Agree cfg t v.net w'.net :=
    ⟨h.agree.laid.trans hu.laid, h.agree.laid', h.agree.conn.trans hu.conn.symm,
      h.agree.passed.trans hu.passed.symm, h.agree.tagged.trans hu.tagged.symm⟩
  refine ⟨hagree, ?_, held_of_call hv⟩
  rw [h.last, h.held c hc, held_of_call hv c (hu.conn.trans hc)]

/-- Both engines take the call. -/
lemma Alike.own {cfg : NetEngineConfig} {t : Token} {w w' v : Watch P Out} {e : LoopCall}
    (h : Alike cfg t w w') (he : e.addressed t = true) (hlive : w.Live t e)
    (hv : w.call proto fuel t e = Outcome.ret v) :
    ∃ v', w'.Live t e ∧ w'.call proto fuel t e = Outcome.ret v' ∧ Alike cfg t v v' := by
  obtain ⟨c, hc⟩ := Option.ne_none_iff_exists'.mp hlive
  have hlive' : w'.Live t e := by
    rw [Live, h.agree.conn]
    exact hlive
  obtain ⟨hnet, hlast⟩ := call_eq_ret hv
  obtain ⟨net', hnet', hagree⟩ := h.agree.own hc he hnet
  have hcall : w'.call proto fuel t e = Outcome.ret ⟨net', v.last⟩ := by
    rw [call, hnet', Outcome.ret_bind, hagree.conn, h.last, h.agree.config, hlast]
    cases v.net.conns.get t with
    | none => rfl
    | some k => rfl
  exact ⟨⟨net', v.last⟩, hlive', hcall, hagree, rfl, held_of_call hv⟩

/-- **Connections do not interfere.**  Take any reachable engine with a connection under `t` and any
calls, with any tokens, as long as the connection is there when each of them comes.  The calls
addressed to `t`, on their own, are a run too; and at its end the connection is the same, with its
socket, marker, buffer, queue and interest, or it was dropped in the same condition, and the same
messages with its token have been sent on the same channels. -/
theorem alone {cfg : NetEngineConfig} {before : List Net.Event} {s : Net P Out} {t : Token}
    {c : Connection P} {es : List LoopCall} {w : Watch P Out}
    (hs : Reach (Net.step proto fuel) anyStep (Net.new cfg) before s) (hc : s.conns.get t = some c)
    (h : Reach (Watch.call proto fuel t) (Watch.Live t) ⟨s, c⟩ es w) :
    ∃ w', Reach (Watch.call proto fuel t) (Watch.Live t) ⟨s, c⟩ (es.filter (LoopCall.addressed t)) w' ∧
      w'.last = w.last ∧ w'.net.conns.get t = w.net.conns.get t ∧
      w'.net.tagged t = w.net.tagged t ∧ w'.net.passed t = w.net.passed t := by
  have hlaid : Net.Laid (Net.new cfg) s := Net.laid_reach hs
  have h₀ : Alike cfg t ⟨s, c⟩ ⟨s, c⟩ := by
    refine ⟨⟨hlaid, hlaid, rfl, rfl, rfl⟩, rfl, ?_⟩
    intro k hk
    exact Option.some.inj (hc.symm.trans hk)
  obtain ⟨w', hw', halike⟩ := Reach.project (R := Alike cfg t) h₀
    (fun w w' e v hR he hlive hv => hR.other he hlive hv)
    (fun w w' e v hR he hlive hv => hR.own he hlive hv) h
  exact ⟨w', hw', halike.last, halike.agree.conn, halike.agree.tagged, halike.agree.passed⟩

/-- A listener accepts, the new connection is read and hangs up, its slot is taken again, and the
connection at 256 meanwhile reads a frame, writes what is left of a message and hangs up. -/
def mingled (msg : StreamBuf) : List LoopCall :=
  [LoopCall.readable 0 false (AcceptAnswer.ready (some 257)) ReadAnswer.wouldBlock,
    LoopCall.notify msg [WriteAnswer.ready 1, WriteAnswer.wouldBlock],
    LoopCall.readable 257 false AcceptAnswer.failed (ReadAnswer.ready [5, 6]),
    LoopCall.readable 256 false AcceptAnswer.failed (ReadAnswer.ready [1, 2, 3]),
    LoopCall.readable 257 true AcceptAnswer.failed ReadAnswer.wouldBlock,
    LoopCall.readable 0 false (AcceptAnswer.ready (some 257)) ReadAnswer.wouldBlock,
    LoopCall.writable 256 [WriteAnswer.ready 2],
    LoopCall.writable 257 [],
    LoopCall.readable 256 true AcceptAnswer.failed (ReadAnswer.ready [4])]

/-- The calls of `mingled` with the token 256 send the one frame and write the three bytes by
themselves. -/
theorem alone_mingled : ∃ s c w w',
    Reach (Net.step (BufProtocol 2) 3) anyStep (Net.new NetEngineConfig.defaults)
      [Net.Event.listen "localhost" 10001 (Except.ok ()) (Except.ok ()) (Except.ok ()) (some 0)
          (Except.ok ()), Net.Event.connected 256] s ∧
      s.conns.get 256 = some c ∧
      Reach (Watch.call (BufProtocol 2) 3 256) (Watch.Live 256) ⟨s, c⟩
        (mingled ⟨⟨0, [7, 8, 9], by decide⟩, 256, 0⟩) w ∧
      Reach (Watch.call (BufProtocol 2) 3 256) (Watch.Live 256) ⟨s, c⟩
        ((mingled ⟨⟨0, [7, 8, 9], by decide⟩, 256, 0⟩).filter (LoopCall.addressed 256)) w' ∧
      w.net.sent.length = 2 ∧ (w.net.tagged 256).length = 1 ∧ w.last.sock.sent = [7, 8, 9] ∧
      w'.last = w.last ∧ w'.net.tagged 256 = w.net.tagged 256 := by
  obtain ⟨s, hs, c, hc, w, hw, hsent, htagged, hbytes⟩ : ∃ s,
      execute (Net.step (BufProtocol 2) 3) (fun _ _ => true) (Net.new NetEngineConfig.defaults)
        [Net.Event.listen "localhost" 10001 (Except.ok ()) (Except.ok ()) (Except.ok ()) (some 0)
          (Except.ok ()), Net.Event.connected 256] = some s ∧
      ∃ c, s.conns.get 256 = some c ∧
      ∃ w, execute (Watch.call (BufProtocol 2) 3 256) (fun w _ => w.net.conns.contains 256) ⟨s, c⟩
        (mingled ⟨⟨0, [7, 8, 9], by decide⟩, 256, 0⟩) = some w ∧
      w.net.sent.length = 2 ∧ (w.net.tagged 256).length = 1 ∧ w.last.sock.sent = [7, 8, 9] :=
    ⟨_, rfl, _, rfl, _, rfl, rfl, rfl, rfl⟩
  have hstart : Reach (Net.step (BufProtocol 2) 3) anyStep _ _ s :=
    reach_of_execute (fun _ _ _ => trivial) hs
  have hrun : Reach (Watch.call (BufProtocol 2) 3 256) (Watch.Live 256) ⟨s, c⟩ _ w :=
    reach_of_execute (fun _ _ hv => Option.isSome_iff_ne_none.mp hv) hw
  obtain ⟨w', hw', hlast, -, htags, -⟩ := alone hstart hc hrun
  exact ⟨s, c, w, w', hstart, hc, hrun, hw', hsent, htagged, hbytes, hlast, htags⟩

end Watch

end Rx
