import RxRust.Reactor.Outbound
import RxRust.Reactor.Tokens

/-!
# Which calls panic

The engine unwraps a good deal: the view of what was read, the slot and the handle of a timer, the
entry of a timer that fires, the address of a host and the registrations with the loop.  This file
says when one of these fails, in every state an engine can reach.

* `Protocol.Sound` — the protocol does not panic, and gives back no more than it leaves of the view.
* `Net.Marked` — the marker of a connection is within its buffer, so the view always exists.
* `Net.step_ne_panic` — no event of the loop panics, as long as the loop takes the registrations.
* `Timed` — the timers are those that were set, each with its handle: none is ever removed.
* `answered` — an operation with the answers of the host and of the loop that it unwraps.
* **`panics_iff`** — what panics: such an answer, setting a timer when `255` have been set before or
  when the loop refuses it, and the firing of a timer that was not set.
-/

namespace Rx

open Core

/-! ## Protocols -/

/-- `append` does not panic, and what it has eaten and what it gives back are within the view. -/
structure Protocol.Sound {P Out : Type} (proto : Protocol P Out) : Prop where
  ne_panic : ∀ p buf msg, proto.append p buf ≠ Outcome.panic msg
  eaten : ∀ p buf p' item rest n, proto.append p buf = Outcome.ret (p', some (item, rest, n)) →
    n + rest.len ≤ buf.len

lemma bufProtocol_sound (size : ℕ) : (BufProtocol size).Sound := by
  refine ⟨?_, ?_⟩
  · rintro ⟨⟩ buf msg h
    by_cases hle : size ≤ buf.len
    · simp [BufProtocol, AROIobuf.splitAt, hle] at h
    · simp [BufProtocol, hle] at h
  · rintro ⟨⟩ buf ⟨⟩ item rest n h
    by_cases hle : size ≤ buf.len
    · simp only [BufProtocol, AROIobuf.splitAt, ge_iff_le, if_pos hle, Outcome.pure_eq,
        Outcome.ret.injEq, Prod.mk.injEq, Option.some.injEq, true_and] at h
      obtain ⟨-, rfl, rfl⟩ := h
      simp only [AROIobuf.len, List.length_drop] at hle ⊢
      omega
    · simp [BufProtocol, hle] at h

section Decode

variable {P Out : Type} {proto : Protocol P Out} {token : Token}

lemma decode_ne_panic (hproto : proto.Sound) (fuel : ℕ) (p : P) (abuf : AROIobuf) (marker : ℕ)
    (sent : List (ProtoMsg Out)) (msg : String) :
    decode proto token fuel p abuf marker sent ≠ Outcome.panic msg := by
  induction fuel generalizing p abuf marker sent with
  | zero => simp [decode]
  | succ fuel ih =>
      intro h
      rcases Outcome.bind_eq_panic.mp h with h | ⟨⟨p', r⟩, -, h⟩
      · exact hproto.ne_panic p abuf msg h
      · cases r with
        | none => simp at h
        | some r => exact ih _ _ _ _ h

/-- The marker moves by no more than what the loop has eaten. -/
lemma decode_le (hproto : proto.Sound) {fuel : ℕ} {p p' : P} {abuf abuf' : AROIobuf}
    {marker marker' : ℕ} {sent sent' : List (ProtoMsg Out)} (hlt : marker + abuf.len < 2 ^ 32)
    (h : decode proto token fuel p abuf marker sent = Outcome.ret (p', abuf', marker', sent')) :
    marker' + abuf'.len ≤ marker + abuf.len := by
  induction fuel generalizing p abuf marker sent with
  | zero => simp [decode] at h
  | succ fuel ih =>
      obtain ⟨⟨q, r⟩, happ, h⟩ := Outcome.bind_eq_ret.mp h
      cases r with
      | none =>
          simp only [Outcome.pure_eq, Outcome.ret.injEq, Prod.mk.injEq] at h
          obtain ⟨-, rfl, rfl, -⟩ := h
          exact Nat.le_refl _
      | some r =>
          obtain ⟨item, rest, n⟩ := r
          have heaten := hproto.eaten p abuf q item rest n happ
          have hsmall : (marker + n) % 2 ^ 32 = marker + n := Nat.mod_eq_of_lt (by omega)
          simp only [hsmall] at h
          have hle := ih (by omega) h
          omega

end Decode

/-! ## Connections -/

namespace Connection

variable {P Out : Type} {proto : Protocol P Out} {config : NetEngineConfig} {token : Token}
  {fuel : ℕ} {c c' : Connection P}

/-- The marker is within what has been filled. -/
def Marked (c : Connection P) : Prop := c.marker ≤ c.buf.bytes.length

lemma filled_length {data : List UInt8} (h : data.length ≤ c.buf.len) :
    (c.buf.fill data).bytes.length = c.buf.bytes.length + data.length := by
  rw [AppendBuf.fill_bytes h, List.length_append]

/-- The view of what was read exists. -/
lemma readAnswered_ne_panic (hproto : proto.Sound) (hc : c.Marked) (read : ReadAnswer)
    (msg : String) : c.readAnswered proto config token fuel read ≠ Outcome.panic msg := by
  cases read with
  | wouldBlock => simp [readAnswered]
  | err e => simp [readAnswered]
  | ready data =>
      simp only [readAnswered, received]
      by_cases hfit : data.length ≤ c.buf.len
      · have hview : c.marker + data.length ≤ (c.buf.fill data).bytes.length := by
          rw [filled_length hfit]
          exact Nat.add_le_add_right hc _
        obtain ⟨abuf, hslice, -⟩ := AppendBuf.atomicSlicePosFromBegin_eq hview
        rw [if_pos hfit, hslice]
        intro h
        rcases Outcome.bind_eq_panic.mp h with h | ⟨⟨p, abuf', marker, sent⟩, -, h⟩
        · exact decode_ne_panic hproto _ _ _ _ _ _ h
        · simp only at h
          split_ifs at h
      · simp [if_neg hfit]

/-- A read leaves the marker within the buffer. -/
lemma Marked.readAnswered (hproto : proto.Sound) (hc : c.Marked) {read : ReadAnswer}
    {msgs : List (ProtoMsg Out)}
    (h : c.readAnswered proto config token fuel read = Outcome.ret (c', msgs)) : c'.Marked := by
  cases read with
  | wouldBlock =>
      obtain ⟨rfl, -⟩ := Prod.mk.inj (Outcome.ret.inj h)
      exact hc
  | err e =>
      obtain ⟨rfl, -⟩ := Prod.mk.inj (Outcome.ret.inj h)
      exact hc
  | ready data =>
      obtain ⟨hfit, h⟩ := Outcome.guard_eq_ret.mp h
      have hlen := filled_length hfit
      have hview : c.marker + data.length ≤ (c.buf.fill data).bytes.length := by
        rw [hlen]
        exact Nat.add_le_add_right hc _
      obtain ⟨abuf, hslice, hwindow⟩ := AppendBuf.atomicSlicePosFromBegin_eq hview
      have habuf : abuf.len ≤ data.length := by
        rw [AROIobuf.len, hwindow]
        simp
      have hsmall : (c.buf.fill data).bytes.length < 2 ^ 32 :=
        Nat.lt_of_le_of_lt (c.buf.fill data).fits (c.buf.fill data).small
      rw [hslice] at h
      obtain ⟨⟨p, abuf', marker, sent⟩, hdec, h⟩ := Outcome.bind_eq_ret.mp h
      have hle := decode_le hproto (by omega) hdec
      simp only at h
      split_ifs at h
      · obtain ⟨rfl, -⟩ := Prod.mk.inj (Outcome.ret.inj h)
        exact Nat.zero_le _
      · obtain ⟨rfl, -⟩ := Prod.mk.inj (Outcome.ret.inj h)
        exact Nat.zero_le _
      · obtain ⟨rfl, -⟩ := Prod.mk.inj (Outcome.ret.inj h)
        show marker ≤ (c.buf.fill data).bytes.length
        omega

/-- Draining leaves the read buffer alone. -/
lemma Marked.drained {answers : List WriteAnswer} (hc : c.Marked)
    (h : c.drainWriteQueueToSocket answers = Outcome.ret (c', [])) : c'.Marked := by
  obtain ⟨⟨ws, hws⟩, -⟩ := drainWriteQueueToSocket_spec h
  have hmarker : c'.marker = c.marker := by rw [hws.rest]
  have hbuf : c'.buf = c.buf := by rw [hws.rest]
  rw [Marked, hmarker, hbuf]
  exact hc

end Connection

/-! ## Slabs -/

namespace Slab

variable {α : Type}

lemma insert_ne_panic (self : Slab α) (slot : Option Token) (a : α) (msg : String) :
    self.insert slot a ≠ Outcome.panic msg := by
  cases slot with
  | none =>
      simp only [insert]
      split_ifs <;> simp
  | some t =>
      simp only [insert]
      split_ifs <;> simp

/-- A slab is full when as many tokens are in use as it has. -/
lemma full_iff (self : Slab α) : self.full = true ↔ self.live.card = self.cap := by
  have hcard : (Finset.Ico self.off (self.off + self.cap)).card = self.cap := by
    rw [Nat.card_Ico, Nat.add_sub_cancel_left]
  have hall : self.live.card = self.cap ↔ ∀ t ∈ Finset.Ico self.off (self.off + self.cap),
      self.contains t = true := by
    rw [← Finset.card_filter_eq_iff, hcard, live]
  rw [hall, full, List.all_eq_true]
  constructor
  · intro h t ht
    obtain ⟨hlo, hhi⟩ := Finset.mem_Ico.mp ht
    have hk := h (t - self.off) (List.mem_range.mpr (by omega))
    rwa [Nat.add_sub_cancel' hlo] at hk
  · intro h k hk
    have hlt := List.mem_range.mp hk
    exact h _ (Finset.mem_Ico.mpr ⟨Nat.le_add_right _ _, by omega⟩)

lemma live_card_le (self : Slab α) : self.live.card ≤ self.cap := by
  have hle := Finset.card_filter_le (Finset.Ico self.off (self.off + self.cap))
    fun t => self.contains t = true
  rwa [Nat.card_Ico, Nat.add_sub_cancel_left] at hle

end Slab

/-! ## The loop -/

namespace Net

variable {P Out : Type} {proto : Protocol P Out} {fuel : ℕ} {s u : Net P Out}

/-- The marker of every connection is within its buffer. -/
def Marked (s : Net P Out) : Prop := ∀ t c, s.conns.get t = some c → c.Marked

lemma marked_new (cfg : NetEngineConfig) : (new cfg : Net P Out).Marked := by
  intro t c hc
  cases hc

lemma marked_put {conns : Slab (Connection P)} {t : Token} {c : Connection P}
    (h : ∀ u k, conns.get u = some k → k.Marked) (hc : c.Marked) :
    ∀ u k, (conns.put t c).get u = some k → k.Marked := by
  intro u k hk
  by_cases hu : u = t ∧ conns.off ≤ t ∧ t < conns.off + conns.cap
  · obtain rfl : c = k := by simpa [Slab.get, Slab.put, hu] using hk
    exact hc
  · exact h u k (by simpa [Slab.get, Slab.put, hu] using hk)

lemma marked_flushed {t : Token} {c : Connection P} (h : s.Marked) (hc : c.Marked) :
    (s.flushed t c).Marked := by
  by_cases hnil : c.outbuf = []
  · rw [flushed_nil hnil]
    exact marked_put h hc
  · rw [flushed_pending hnil]
    exact marked_put h hc

lemma Marked.step {e : Event} (hproto : proto.Sound) (h : s.Marked)
    (hs : s.step proto fuel e = Outcome.ret u) : u.Marked := by
  cases step_moves hs with
  | quiet he hq =>
      intro t c hc
      rw [hq.conns] at hc
      exact h t c hc
  | absent hc => exact h
  | @opened _ _ t hslot ho =>
      obtain ⟨tx, hput, -⟩ := ho.conn
      rw [Marked, hput]
      exact marked_put h (Nat.zero_le _)
  | @heard t hup answer read c c' msgs hc hread =>
      have hc' : c'.Marked := (h t c hc).readAnswered hproto hread
      cases hup with
      | true =>
          intro t' k hk
          by_cases ht : t' = t
          · subst ht
            simp [settle] at hk
          · exact h t' k (by simpa [settle, Slab.get_remove_ne ht] using hk)
      | false => exact marked_put h hc'
  | drained hc hdrain => exact marked_flushed h ((h _ _ hc).drained hdrain)
  | @notified msg queue answers c c' hq hc hdrain =>
      have hmarked : ({ c with outbuf := c.outbuf ++ [msg] } : Connection P).Marked := h _ c hc
      exact marked_flushed (s := { s with queue := queue }) h (hmarked.drained hdrain)
  | dropped hq hc => exact h
  | sent hmem => exact h

lemma connect_ne_panic (s : Net P Out) (hostname : String) (port : ℕ) (socket : Except String Unit)
    (slot : Option Token) (register connected : Except String Unit) (msg : String) :
    s.connect proto hostname port socket slot register connected ≠ Outcome.panic msg := by
  cases socket with
  | error e => simp [connect]
  | ok v =>
      intro h
      rcases Outcome.bind_eq_panic.mp h with h | ⟨r, -, h⟩
      · exact Slab.insert_ne_panic _ _ _ _ h
      · rcases r with _ | ⟨tok, conns⟩
        · simp at h
        · cases register with
          | error e => simp at h
          | ok v => cases connected <;> simp at h

lemma listen_ne_panic (s : Net P Out) (addr : String) (port : ℕ)
    (socket bind listen : Except String Unit) (slot : Option Token) (register : Except String Unit)
    (msg : String) : s.listen addr port socket bind listen slot register ≠ Outcome.panic msg := by
  cases socket with
  | error e => simp [Net.listen]
  | ok v =>
      cases bind with
      | error e => simp [Net.listen]
      | ok v =>
          cases listen with
          | error e => simp [Net.listen]
          | ok v =>
              intro h
              rcases Outcome.bind_eq_panic.mp h with h | ⟨r, -, h⟩
              · exact Slab.insert_ne_panic _ _ _ _ h
              · rcases r with _ | ⟨tok, listeners⟩
                · simp at h
                · cases register <;> simp at h

lemma accept_ne_panic (s : Net P Out) (token : Token) (tx : ℕ) (answer : AcceptAnswer)
    (msg : String) : s.accept proto token tx answer ≠ Outcome.panic msg := by
  cases answer with
  | failed => simp [accept]
  | ready slot =>
      intro h
      rcases Outcome.bind_eq_panic.mp h with h | ⟨r, -, h⟩
      · exact Slab.insert_ne_panic _ _ _ _ h
      · rcases r with _ | ⟨tok, conns⟩ <;> simp at h

/-- **No event of the loop panics**, in a state in which the markers are within the buffers. -/
lemma step_ne_panic (hproto : proto.Sound) (h : s.Marked) (e : Event) (msg : String) :
    s.step proto fuel e ≠ Outcome.panic msg := by
  cases e with
  | connect hostname port socket slot register connected =>
      intro hs
      exact connect_ne_panic _ _ _ _ _ _ _ _ (Outcome.map_eq_panic.mp hs)
  | listen addr port socket bind listen slot register =>
      intro hs
      exact listen_ne_panic _ _ _ _ _ _ _ _ _ (Outcome.map_eq_panic.mp hs)
  | readable token hup answer read =>
      simp only [step, readable]
      cases s.listeners.get token with
      | some tx => exact accept_ne_panic _ _ _ _ _
      | none =>
          cases hc : s.conns.get token with
          | none => simp
          | some c =>
              intro hs
              rcases Outcome.bind_eq_panic.mp hs with hs | ⟨r, -, hs⟩
              · exact Connection.readAnswered_ne_panic hproto (h token c hc) read msg hs
              · simp at hs
  | writable token answers => exact outStep_ne_panic s (OutEvent.writable token answers) msg
  | notify answers =>
      simp only [step]
      cases s.queue with
      | nil => simp
      | cons m queue => exact outStep_ne_panic { s with queue := queue } (OutEvent.notify m answers) msg
  | send m =>
      simp only [step]
      split_ifs <;> simp

end Net

/-! ## Timers -/

/-- A timer is set. -/
def Op.isTimeout : Op → Bool
  | Op.timeout _ _ _ => true
  | _ => false

/-- One of the operations set a timer at the token. -/
def IsSet (ops : List Op) (tok : Token) : Prop :=
  ∃ callback handle, Op.timeout callback (some tok) handle ∈ ops

namespace Engine

variable {P Out : Type} {proto : Protocol P Out} {fuel : ℕ} {cfg : NetEngineConfig}
  {s u : Engine P Out} {ops : List Op}

/-- The timers are those that were set, and each has its handle. -/
structure Timed (ops : List Op) (s : Engine P Out) : Prop where
  live : ∀ tok, tok ∈ s.timeouts.live ↔ IsSet ops tok
  card : s.timeouts.live.card = ops.countP Op.isTimeout
  handle : ∀ tok timer, s.timeouts.get tok = some timer → timer.handle.isSome = true

/-- What setting a timer does, when it comes back. -/
lemma timeout_ret {callback : ℕ} {slot : Option Token} {handle : Except String ℕ}
    (h : s.timeout callback slot handle = Outcome.ret u) :
    ∃ t k, slot = some t ∧ s.timeouts.get t = none ∧
      (s.timeouts.put t ⟨callback, none⟩).get t = some ⟨callback, none⟩ ∧
      u.timeouts = (s.timeouts.put t ⟨callback, none⟩).put t ⟨callback, some k⟩ := by
  obtain ⟨q, hins, h⟩ := Outcome.bind_eq_ret.mp h
  rcases Slab.insert_result hins with ⟨-, rfl⟩ | ⟨t, rfl, hfree, hget, rfl⟩
  · cases h
  · cases handle with
    | error e => cases h
    | ok k =>
        obtain rfl := Outcome.ret.inj h
        exact ⟨t, k, rfl, hfree, hget, rfl⟩

lemma isSet_snoc_other {op : Op} (hop : op.isTimeout = false) (tok : Token) :
    IsSet (ops ++ [op]) tok ↔ IsSet ops tok := by
  constructor
  · rintro ⟨callback, handle, hmem⟩
    rcases List.mem_append.mp hmem with hmem | hmem
    · exact ⟨callback, handle, hmem⟩
    · rw [← List.mem_singleton.mp hmem] at hop
      cases hop
  · rintro ⟨callback, handle, hmem⟩
    exact ⟨callback, handle, List.mem_append_left _ hmem⟩

lemma isSet_snoc (callback : ℕ) (t : Token) (handle : Except String ℕ) (tok : Token) :
    IsSet (ops ++ [Op.timeout callback (some t) handle]) tok ↔ tok = t ∨ IsSet ops tok := by
  constructor
  · rintro ⟨callback', handle', hmem⟩
    rcases List.mem_append.mp hmem with hmem | hmem
    · exact Or.inr ⟨callback', handle', hmem⟩
    · simp only [List.mem_singleton, Op.timeout.injEq, Option.some.injEq] at hmem
      exact Or.inl hmem.2.1
  · rintro (rfl | ⟨callback', handle', hmem⟩)
    · exact ⟨callback, handle, by simp⟩
    · exact ⟨callback', handle', List.mem_append_left _ hmem⟩

lemma Timed.other {op : Op} (h : Timed ops s) (hop : op.isTimeout = false)
    (htimeouts : u.timeouts = s.timeouts) : Timed (ops ++ [op]) u := by
  refine ⟨?_, ?_, ?_⟩
  · intro tok
    rw [htimeouts, isSet_snoc_other hop]
    exact h.live tok
  · simp [htimeouts, h.card, hop]
  · rw [htimeouts]
    exact h.handle

/-- **Timers are never removed**: each operation that sets one takes a token of its own. -/
lemma Timed.step {op : Op} (h : Timed ops s) (hs : s.step proto fuel op = Outcome.ret u) :
    Timed (ops ++ [op]) u := by
  cases op with
  | event e =>
      obtain ⟨net, -, rfl⟩ := Outcome.map_eq_ret.mp hs
      exact h.other rfl rfl
  | fired tok again => exact h.other rfl (fired_same hs).2
  | timeout callback slot handle =>
      obtain ⟨t, k, rfl, hfree, hget, htimeouts⟩ := timeout_ret hs
      have hlive : u.timeouts.live = Insert.insert t s.timeouts.live := by
        rw [htimeouts, Slab.live_put_of_get _ hget, Slab.live_put hget]
      refine ⟨?_, ?_, ?_⟩
      · intro tok
        rw [hlive, Finset.mem_insert, h.live, isSet_snoc]
      · rw [hlive, Finset.card_insert_of_notMem (Slab.not_mem_live.mpr hfree), h.card]
        simp [Op.isTimeout]
      · intro tok timer htimer
        rw [htimeouts] at htimer
        by_cases ht : tok = t
        · subst ht
          rw [Slab.get_put_of_get _ hget] at htimer
          obtain rfl := Option.some.inj htimer
          rfl
        · rw [Slab.get_put_ne _ ht, Slab.get_put_ne _ ht] at htimer
          exact h.handle tok timer htimer

lemma timed_new (cfg : NetEngineConfig) : Timed [] (new cfg : Engine P Out) := by
  refine ⟨?_, by simp [new], ?_⟩
  · intro tok
    simp [new, IsSet]
  · intro tok timer htimer
    cases htimer

/-- Setting a timer fails when there is no slot, or when the loop does not take it. -/
lemma timeout_panics_iff {callback : ℕ} {slot : Option Token} {handle : Except String ℕ} :
    (∃ msg, s.timeout callback slot handle = Outcome.panic msg) ↔
      (slot = none ∧ s.timeouts.full = true) ∨
      ∃ t e, slot = some t ∧ s.timeouts.Range t ∧ s.timeouts.contains t = false ∧
        handle = Except.error e := by
  cases slot with
  | none =>
      by_cases hfull : s.timeouts.full = true
      · simp [timeout, Slab.insert, hfull]
      · simp [timeout, Slab.insert, hfull]
  | some t =>
      by_cases hfree : s.timeouts.off ≤ t ∧ t < s.timeouts.off + s.timeouts.cap ∧
          s.timeouts.contains t = false
      · cases handle with
        | error e => simp [timeout, Slab.insert, Slab.Range, hfree]
        | ok k => simp [timeout, Slab.insert, hfree]
      · simp only [timeout, Slab.insert, if_neg hfree, Outcome.stuck_bind, reduceCtorEq,
          exists_const, false_and, false_or, false_iff]
        rintro ⟨t', e, ht, ⟨hlo, hhi⟩, hcontains, -⟩
        obtain rfl := Option.some.inj ht
        exact hfree ⟨hlo, hhi, hcontains⟩

/-- A timer that fires needs its entry, and then its handle is there. -/
lemma fired_panics_iff (h : Timed ops s) {tok : Token} {again : Bool} :
    (∃ msg, s.fired tok again = Outcome.panic msg) ↔ ¬ IsSet ops tok := by
  rw [← h.live, Slab.not_mem_live]
  cases htimer : s.timeouts.get tok with
  | none => simp [fired, htimer]
  | some timer =>
      obtain ⟨k, hk⟩ := Option.isSome_iff_exists.mp (h.handle tok timer htimer)
      cases again with
      | true => simp [fired, htimer]
      | false => simp [fired, htimer, hk]

/-! ## Runs -/

/-- What every run keeps. -/
structure Sane (cfg : NetEngineConfig) (ops : List Op) (s : Engine P Out) : Prop where
  placed : Placed cfg s
  marked : s.net.Marked
  timed : Timed ops s

lemma sane_reach (hproto : proto.Sound)
    (h : Reach (step proto fuel) anyStep (new cfg : Engine P Out) ops s) : Sane cfg ops s := by
  induction h with
  | nil => exact ⟨placed_new cfg, Net.marked_new cfg, timed_new cfg⟩
  | @snoc ops s u op _ _ hs ih =>
      refine ⟨ih.placed.step hs, ?_, ih.timed.step hs⟩
      cases op with
      | event e =>
          obtain ⟨net, hnet, rfl⟩ := Outcome.map_eq_ret.mp hs
          exact ih.marked.step hproto hnet
      | timeout callback slot handle =>
          obtain ⟨-, -, hnet, -⟩ := timeout_live hs
          rw [hnet]
          exact ih.marked
      | fired tok again =>
          rw [(fired_same hs).1]
          exact ih.marked

/-- Setting a timer panics when they are all in use, or when the loop refuses this one. -/
lemma Sane.timeout_panics (h : Sane cfg ops s) {callback : ℕ} {slot : Option Token}
    {handle : Except String ℕ} :
    (∃ msg, s.timeout callback slot handle = Outcome.panic msg) ↔
      (slot = none ∧ ops.countP Op.isTimeout = 255) ∨
      ∃ t e, slot = some t ∧ 129 ≤ t ∧ t < 384 ∧ ¬ IsSet ops t ∧ handle = Except.error e := by
  have hfree : ∀ t, s.timeouts.contains t = false ↔ ¬ IsSet ops t := by
    intro t
    rw [Slab.contains_eq_false, h.timed.live]
  rw [timeout_panics_iff, Slab.full_iff, h.timed.card, h.placed.timeouts.2]
  simp only [Slab.Range, h.placed.timeouts.1, h.placed.timeouts.2, hfree, and_assoc]

/-! ## What is unwrapped on the spot -/

/-- What the host and the event loop answer where the engine unwraps the answer at once: whether the
name of a host has an address, and which registrations the loop takes. -/
structure Unwrapped where
  resolves : Bool
  takes : Token → Bool

/-- Every answer is the one that is hoped for. -/
def Unwrapped.willing : Unwrapped := ⟨true, fun _ => true⟩

/-- `connect` and `listen` look up the name of a host. -/
def looksUp : Op → Bool
  | Op.event (Net.Event.connect _ _ _ _ _ _) => true
  | Op.event (Net.Event.listen _ _ _ _ _ _ _) => true
  | _ => false

/-- A connection that has something left to write is registered again. -/
def pending (u : Net P Out) (t : Token) : List Token :=
  match u.conns.get t with
  | some c => if c.outbuf.length > 0 then [t] else []
  | none => []

/-- The registrations that an operation between the two states unwraps, by their tokens.  `connect`
and `listen` return theirs as an error instead. -/
def asks (s u : Net P Out) : Op → List Token
  | Op.event (Net.Event.readable token hup answer _) =>
      if s.listeners.contains token then
        match answer with
        | AcceptAnswer.ready slot => slot.toList ++ [token]
        | AcceptAnswer.failed => [token]
      else if s.conns.contains token && !hup then [token] else []
  | Op.event (Net.Event.writable token _) => pending u token
  | Op.event (Net.Event.notify _) =>
      match s.queue with
      | [] => []
      | msg :: _ => pending u msg.tok
  | _ => []

/-- One operation, with the answers that it unwraps. -/
def answered (proto : Protocol P Out) (fuel : ℕ) (self : Engine P Out) (op : Op × Unwrapped) :
    Outcome (Engine P Out) :=
  if looksUp op.1 && !op.2.resolves then
    Outcome.panic "called `Result::unwrap()` on an `Err` value"
  else do
    let u ← self.step proto fuel op.1
    if (asks self.net u.net op.1).all op.2.takes then pure u
    else Outcome.panic "called `Result::unwrap()` on an `Err` value"

/-- What comes back is what the operation does. -/
lemma step_of_answered {op : Op × Unwrapped} (h : s.answered proto fuel op = Outcome.ret u) :
    s.step proto fuel op.1 = Outcome.ret u := by
  simp only [answered] at h
  by_cases hname : looksUp op.1 && !op.2.resolves
  · simp [hname] at h
  · rw [if_neg hname] at h
    obtain ⟨v, hv, h⟩ := Outcome.bind_eq_ret.mp h
    by_cases hall : (asks s.net v.net op.1).all op.2.takes
    · rw [if_pos hall] at h
      obtain rfl := Outcome.ret.inj h
      exact hv
    · simp [hall] at h

lemma answered_willing (s : Engine P Out) (op : Op) :
    s.answered proto fuel (op, Unwrapped.willing) = s.step proto fuel op := by
  simp only [answered, Unwrapped.willing, Bool.not_true, Bool.and_false]
  cases s.step proto fuel op with
  | ret u => simp
  | panic msg => simp
  | stuck => simp

lemma reach_of_answered {ops : List (Op × Unwrapped)}
    (h : Reach (answered proto fuel) anyStep s ops u) :
    Reach (step proto fuel) anyStep s (ops.map Prod.fst) u := by
  induction h with
  | nil => exact Reach.nil
  | snoc _ _ hs ih =>
      rw [List.map_append]
      exact Reach.snoc ih trivial (step_of_answered hs)

lemma reach_willing {ok : Engine P Out → Op → Prop} (h : Reach (step proto fuel) ok s ops u) :
    Reach (answered proto fuel) anyStep s (ops.map fun op => (op, Unwrapped.willing)) u := by
  induction h with
  | nil => exact Reach.nil
  | snoc _ _ hs ih =>
      rw [List.map_append]
      exact Reach.snoc ih trivial ((answered_willing _ _).trans hs)

/-- An operation panics because of what it does, or because of an answer that it unwraps. -/
lemma answered_panics_iff {op : Op} {a : Unwrapped} :
    (∃ msg, s.answered proto fuel (op, a) = Outcome.panic msg) ↔
      (looksUp op = true ∧ a.resolves = false) ∨
      (∃ msg, s.step proto fuel op = Outcome.panic msg) ∨
      ∃ u, s.step proto fuel op = Outcome.ret u ∧ ∃ t ∈ asks s.net u.net op, a.takes t = false := by
  by_cases hname : looksUp op = true ∧ a.resolves = false
  · simp [answered, hname]
  · have hgoes : (looksUp op && !a.resolves) = false := by
      simpa using hname
    simp only [answered, hgoes, hname, false_or, Bool.false_eq_true, if_false]
    cases hs : s.step proto fuel op with
    | panic msg => simp
    | stuck => simp
    | ret u =>
        rw [Outcome.ret_bind]
        by_cases hall : (asks s.net u.net op).all a.takes = true
        · have hnone : ¬ ∃ t ∈ asks s.net u.net op, a.takes t = false := by
            simpa using hall
          rw [if_pos hall]
          simp [hnone]
        · have hsome : ∃ t ∈ asks s.net u.net op, a.takes t = false := by
            simpa using hall
          rw [if_neg hall]
          simp [hsome]

/-- After the operations `ops`, in the state `s`, the operation panics: the name of the host has no
address, or a registration that is made is refused; the timers are all in use, or the loop refuses
this one; the timer was never set. -/
def PanicsAfter (proto : Protocol P Out) (fuel : ℕ) (ops : List Op) (s : Engine P Out)
    (a : Unwrapped) : Op → Prop
  | Op.event e => (looksUp (Op.event e) = true ∧ a.resolves = false) ∨
      ∃ net, s.net.step proto fuel e = Outcome.ret net ∧
        ∃ t ∈ asks s.net net (Op.event e), a.takes t = false
  | Op.timeout _ slot handle => (slot = none ∧ ops.countP Op.isTimeout = 255) ∨
      ∃ t e, slot = some t ∧ 129 ≤ t ∧ t < 384 ∧ ¬ IsSet ops t ∧ handle = Except.error e
  | Op.fired tok _ => ¬ IsSet ops tok

/-- **Which operations panic.**  In every run of an engine with a sound protocol: a call or an event
of the loop panics only where it unwraps an answer on the spot, a name without an address or a
registration that the loop refuses, and never because of what a socket answers or of the bytes that
arrive; setting a timer panics exactly if `255` timers have been set before, since their entries are
never removed, or if the loop refuses the timer; and a timer that fires panics exactly if it was
never set.  So no engine ever sets more than `255` timers. -/
theorem panics_iff {ops : List (Op × Unwrapped)} (hproto : proto.Sound)
    (h : Reach (answered proto fuel) anyStep (new cfg : Engine P Out) ops s) :
    (∀ op a, (∃ msg, s.answered proto fuel (op, a) = Outcome.panic msg) ↔
      PanicsAfter proto fuel (ops.map Prod.fst) s a op) ∧
      (ops.map Prod.fst).countP Op.isTimeout ≤ 255 := by
  have hsane := sane_reach hproto (reach_of_answered h)
  have hcard := Slab.live_card_le s.timeouts
  rw [hsane.timed.card, hsane.placed.timeouts.2] at hcard
  refine ⟨?_, hcard⟩
  intro op a
  rw [answered_panics_iff]
  cases op with
  | event e =>
      have hne : ¬ ∃ msg, s.step proto fuel (Op.event e) = Outcome.panic msg := by
        rintro ⟨msg, hs⟩
        exact Net.step_ne_panic hproto hsane.marked e msg (Outcome.map_eq_panic.mp hs)
      simp only [hne, false_or, PanicsAfter]
      refine or_congr_right ?_
      constructor
      · rintro ⟨u, hu, hasks⟩
        obtain ⟨net, hnet, rfl⟩ := Outcome.map_eq_ret.mp hu
        exact ⟨net, hnet, hasks⟩
      · rintro ⟨net, hnet, hasks⟩
        exact ⟨_, Outcome.map_eq_ret.mpr ⟨net, hnet, rfl⟩, hasks⟩
  | timeout callback slot handle =>
      simpa [looksUp, asks, PanicsAfter, step] using hsane.timeout_panics
  | fired tok again =>
      simpa [looksUp, asks, PanicsAfter, step] using fired_panics_iff hsane.timed

/-- After `255` timers no other can be set, and the first one can still fire. -/
theorem panics_iff_all_set :
    ∃ ops s, Reach (answered (BufProtocol 8) 9) anyStep (new NetEngineConfig.defaults) ops s ∧
      (∃ msg, s.answered (BufProtocol 8) 9 (Op.timeout 255 none (Except.ok 255), Unwrapped.willing)
        = Outcome.panic msg) ∧
      ¬ ∃ msg, s.answered (BufProtocol 8) 9 (Op.fired 129 true, Unwrapped.willing)
        = Outcome.panic msg := by
  obtain ⟨s, hs, -⟩ := @reach_timers Unit AROIobuf (BufProtocol 8) 9
    NetEngineConfig.defaults 255 (Nat.le_refl _)
  have hfst : ((timers 255).map fun op => (op, Unwrapped.willing)).map Prod.fst = timers 255 := by
    rw [List.map_map]
    exact List.map_id _
  have hcount : (timers 255).countP Op.isTimeout = 255 := by
    rw [timers, List.countP_map]
    simp [Function.comp_def, Op.isTimeout]
  have hset : IsSet (timers 255) 129 :=
    ⟨0, Except.ok 0, List.mem_map.mpr ⟨0, by simp, rfl⟩⟩
  have hpanics := (panics_iff (bufProtocol_sound 8) (reach_willing hs)).1
  rw [hfst] at hpanics
  refine ⟨_, s, reach_willing hs, (hpanics _ _).mpr (Or.inl ⟨rfl, hcount⟩), ?_⟩
  rw [hpanics]
  exact not_not.mpr hset

end Engine

end Rx
