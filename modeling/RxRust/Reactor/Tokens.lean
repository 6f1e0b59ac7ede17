import Mathlib.Data.Finset.Card
import Mathlib.Order.Interval.Finset.Nat
import RxRust.Reactor.Moves

/-!
# The token space

`EngineInner` has three slabs, and an event of the loop finds its way by its token alone.  Each slab
is made by `new_starting_at`, whose second argument is a capacity: the timers get the tokens from
`129` up to `384`, and those from `256` on are also the connections'; and there is room for `256`
connections more than the configuration says.

* `Slab.live` — the tokens in use, and what `put` and `remove` do to them.
* `Engine` — the engine with its timers: `Net`, `NetEngine::timeout` and the handler `timeout`.
* `Partitioned` — no token is live twice, and the connections are within their limit.
* `partitioned_iff` — a run keeps this exactly if no connection and no timer is given a token of the
  shared range that the other slab has in use, and no connection is made beyond the limit.
-/

namespace Rx

open Core

/-! ## Live tokens -/

namespace Slab

variable {α : Type}

/-- The tokens in use. -/
def live (self : Slab α) : Finset Token :=
  (Finset.Ico self.off (self.off + self.cap)).filter fun t => self.contains t = true

lemma contains_iff {self : Slab α} {t : Token} :
    self.contains t = true ↔ ∃ a, self.get t = some a := Option.isSome_iff_exists

lemma mem_live {self : Slab α} {t : Token} : t ∈ self.live ↔ ∃ a, self.get t = some a := by
  rw [live, Finset.mem_filter, contains_iff, Finset.mem_Ico]
  constructor
  · exact fun h => h.2
  · rintro ⟨a, ha⟩
    exact ⟨self.within t a ha, a, ha⟩

lemma not_mem_live {self : Slab α} {t : Token} : t ∉ self.live ↔ self.get t = none := by
  rw [mem_live, Option.eq_none_iff_forall_ne_some]
  exact not_exists

lemma contains_eq_false {self : Slab α} {t : Token} :
    self.contains t = false ↔ t ∉ self.live := by
  rw [← Bool.not_eq_true, contains_iff, mem_live]

/-- Writing an entry makes its token live. -/
lemma live_put {self : Slab α} {t : Token} {a : α} (h : (self.put t a).get t = some a) :
    (self.put t a).live = Insert.insert t self.live := by
  ext u
  rw [Finset.mem_insert, mem_live, mem_live]
  by_cases hu : u = t
  · subst hu
    exact ⟨fun _ => Or.inl rfl, fun _ => ⟨a, h⟩⟩
  · rw [get_put_ne a hu]
    simp [hu]

/-- Writing over an entry changes nothing. -/
lemma live_put_of_get {self : Slab α} {t : Token} {a : α} (b : α) (h : self.get t = some a) :
    (self.put t b).live = self.live := by
  rw [live_put (get_put_of_get b h), Finset.insert_eq_of_mem (mem_live.mpr ⟨a, h⟩)]

/-- Removing an entry frees its token and no other. -/
lemma live_remove (self : Slab α) (t : Token) : (self.remove t).live = self.live.erase t := by
  ext u
  rw [Finset.mem_erase, mem_live, mem_live]
  by_cases hu : u = t
  · subst hu
    simp
  · rw [get_remove_ne hu]
    simp [hu]

/-- A new slab has nothing in use. -/
@[simp] lemma live_newStartingAt (off cap : ℕ) :
    (newStartingAt off cap : Slab α).live = ∅ := by
  ext t
  rw [mem_live]
  simp [newStartingAt, get]

/-- The tokens in use are among those the slab issues. -/
lemma range_of_mem_live {self : Slab α} {t : Token} (h : t ∈ self.live) : self.Range t := by
  obtain ⟨a, ha⟩ := mem_live.mp h
  exact self.within t a ha

/-- An insertion into a given slot. -/
lemma insert_some {self : Slab α} {t : Token} {a : α} {r : Option (Token × Slab α)}
    (h : self.insert (some t) a = Outcome.ret r) :
    self.get t = none ∧ (self.put t a).get t = some a ∧ r = some (t, self.put t a) := by
  rcases insert_result h with ⟨hnone, -⟩ | ⟨t', ht', hput⟩
  · cases hnone
  · obtain rfl := Option.some.inj ht'
    exact hput

end Slab

/-! ## What an event does to the live connections -/

namespace Net

variable {P Out : Type} {proto : Protocol P Out} {fuel : ℕ} {s u : Net P Out}

/-- `connect` with a slot puts a connection there, also when it fails afterwards. -/
lemma conns_connect {hostname : String} {port : ℕ} {t : Token}
    {register connected : Except String Unit} {r : Except String NetStream}
    (h : s.connect proto hostname port (Except.ok ()) (some t) register connected
      = Outcome.ret (u, r)) :
    s.conns.get t = none ∧ ∃ c, u.conns = s.conns.put t c ∧ u.conns.get t = some c := by
  obtain ⟨q, hins, h⟩ := Outcome.bind_eq_ret.mp h
  obtain ⟨hfree, hget, rfl⟩ := Slab.insert_some hins
  refine ⟨hfree, Connection.new proto ⟨s.nextSock, []⟩ s.nextChan s.config.newBuf, ?_⟩
  have hconns : u.conns
      = s.conns.put t (Connection.new proto ⟨s.nextSock, []⟩ s.nextChan s.config.newBuf) := by
    cases register with
    | error e =>
        obtain ⟨rfl, -⟩ := Prod.mk.inj (Outcome.ret.inj h)
        rfl
    | ok v =>
        cases connected with
        | error e =>
            obtain ⟨rfl, -⟩ := Prod.mk.inj (Outcome.ret.inj h)
            rfl
        | ok v =>
            obtain ⟨rfl, -⟩ := Prod.mk.inj (Outcome.ret.inj h)
            rfl
  rw [hconns]
  exact ⟨rfl, hget⟩

/-- So does an accept. -/
lemma conns_accept {token : Token} {tx : ℕ} {t : Token}
    (h : s.accept proto token tx (AcceptAnswer.ready (some t)) = Outcome.ret u) :
    s.conns.get t = none ∧ ∃ c, u.conns = s.conns.put t c ∧ u.conns.get t = some c := by
  obtain ⟨q, hins, h⟩ := Outcome.bind_eq_ret.mp h
  obtain ⟨hfree, hget, rfl⟩ := Slab.insert_some hins
  obtain rfl := Outcome.ret.inj h
  exact ⟨hfree, _, rfl, hget⟩

/-- An event with a slot for a connection puts one there. -/
lemma conns_of_slotOf {e : Event} {t : Token} (h : s.step proto fuel e = Outcome.ret u)
    (hslot : s.slotOf e = some t) :
    s.conns.get t = none ∧ ∃ c, u.conns = s.conns.put t c ∧ u.conns.get t = some c := by
  cases e with
  | connect hostname port socket slot register connected =>
      cases socket with
      | error e => cases hslot
      | ok v =>
          obtain rfl : slot = some t := hslot
          obtain ⟨⟨v, r⟩, hv, rfl⟩ := Outcome.map_eq_ret.mp h
          exact conns_connect hv
  | readable token hup answer read =>
      cases answer with
      | failed => cases hslot
      | ready slot =>
          simp only [slotOf] at hslot
          split_ifs at hslot with hl
          subst hslot
          obtain ⟨tx, htx⟩ := Slab.contains_iff.mp hl
          simp only [step, readable, htx] at h
          exact conns_accept h
  | listen addr port socket bind listen slot register => cases hslot
  | writable token answers => cases hslot
  | notify answers => cases hslot
  | send msg => cases hslot

/-- A drained connection stays live. -/
lemma live_flushed {t : Token} {c : Connection P} (hc : s.conns.get t = some c)
    (c' : Connection P) : (s.flushed t c').conns.live = s.conns.live := by
  by_cases hnil : c'.outbuf = []
  · rw [flushed_nil hnil]
    exact Slab.live_put_of_get c' hc
  · rw [flushed_pending hnil]
    exact Slab.live_put_of_get _ hc

/-- No other event makes a connection. -/
lemma live_of_slotOf_none {e : Event} (h : s.step proto fuel e = Outcome.ret u)
    (hslot : s.slotOf e = none) : u.conns.live ⊆ s.conns.live := by
  cases step_moves h with
  | quiet he hq => rw [hq.conns]
  | absent hc => exact Finset.Subset.refl _
  | opened hslot' ho => cases hslot.symm.trans hslot'
  | @heard t hup answer read c c' msgs hc hread =>
      cases hup with
      | true =>
          have hlive : (s.conns.remove t).live ⊆ s.conns.live := by
            rw [Slab.live_remove]
            exact Finset.erase_subset _ _
          exact hlive
      | false => exact (Slab.live_put_of_get _ hc).subset
  | drained hc hdrain => rw [live_flushed hc]
  | @notified msg queue answers c c' hq hc hdrain =>
      exact (live_flushed (s := { s with queue := queue }) hc c').subset
  | dropped hq hc => exact Finset.Subset.refl _
  | sent hmem => exact Finset.Subset.refl _

end Net

/-! ## Timers -/

/-- An entry of `timeouts`: which callback it is, and the handle of the loop's timer. -/
structure Timer where
  callback : ℕ
  handle : Option ℕ
  deriving Repr, DecidableEq

/-- `EngineInner` with all its slabs, and the timers that the loop has been told to clear. -/
structure Engine (P Out : Type) where
  net : Net P Out
  timeouts : Slab Timer
  cleared : List ℕ

/-- One operation: a call or an event as before, a new timer with the slot it gets, or a timer that
fires, with what its callback answers. -/
inductive Op where
  | event (e : Net.Event)
  | timeout (callback : ℕ) (slot : Option Token) (handle : Except String ℕ)
  | fired (tok : Token) (again : Bool)

namespace Engine

variable {P Out : Type}

/-- `EngineInner::new` -/
def new (cfg : NetEngineConfig) : Engine P Out where
  net := Net.new cfg
  timeouts := Slab.newStartingAt 129 255
  cleared := []

/-- `NetEngine::timeout`: the entry is made first, and the handle is written into it. -/
def timeout (self : Engine P Out) (callback : ℕ) (slot : Option Token)
    (handle : Except String ℕ) : Outcome (Engine P Out) := do
  let r ← self.timeouts.insert slot ⟨callback, none⟩
  match r with
  | none => Outcome.panic "called `Result::unwrap()` on an `Err` value"
  | some (tok, timeouts) =>
      match handle with
      | Except.error _ => Outcome.panic "called `Result::unwrap()` on an `Err` value"
      | Except.ok handle =>
          pure { self with timeouts := timeouts.put tok ⟨callback, some handle⟩ }

/-- The handler `timeout`; `again` is the answer of the callback.  The entry stays. -/
def fired (self : Engine P Out) (tok : Token) (again : Bool) : Outcome (Engine P Out) :=
  match self.timeouts.get tok with
  | none => Outcome.panic "called `Option::unwrap()` on a `None` value"
  | some timer =>
      if again then pure self
      else
        match timer.handle with
        | none => Outcome.panic "called `Option::unwrap()` on a `None` value"
        | some handle => pure { self with cleared := self.cleared ++ [handle] }

/-- One operation on the engine. -/
def step (proto : Protocol P Out) (fuel : ℕ) (self : Engine P Out) : Op → Outcome (Engine P Out)
  | Op.event e => (fun net => { self with net := net }) <$> self.net.step proto fuel e
  | Op.timeout callback slot handle => self.timeout callback slot handle
  | Op.fired tok again => self.fired tok again

/-- **The token space is partitioned** and the connections are within their limit. -/
structure Partitioned (s : Engine P Out) : Prop where
  listeners_timeouts : Disjoint s.net.listeners.live s.timeouts.live
  listeners_conns : Disjoint s.net.listeners.live s.net.conns.live
  timeouts_conns : Disjoint s.timeouts.live s.net.conns.live
  limit : s.net.conns.live.card ≤ s.net.config.maxConnections

/-- The operation does not run into the shared range or over the limit: a new connection is below
the limit and does not get a timer's token, and a new timer does not get a connection's. -/
def Clear (s : Engine P Out) : Op → Prop
  | Op.event e => ∀ t, s.net.slotOf e = some t →
      s.net.conns.live.card < s.net.config.maxConnections ∧
        (t < 384 → s.timeouts.contains t = false)
  | Op.timeout _ slot _ => ∀ t, slot = some t → 256 ≤ t → s.net.conns.contains t = false
  | Op.fired _ _ => True

/-! ## Runs -/

variable {proto : Protocol P Out} {fuel : ℕ} {cfg : NetEngineConfig} {s u : Engine P Out}

/-- The slabs are where `new` puts them. -/
structure Placed (cfg : NetEngineConfig) (s : Engine P Out) : Prop where
  net : Net.Laid (Net.new cfg) s.net
  timeouts : s.timeouts.off = 129 ∧ s.timeouts.cap = 255

lemma placed_new (cfg : NetEngineConfig) : Placed cfg (new cfg : Engine P Out) :=
  ⟨Net.Laid.refl _, rfl, rfl⟩

lemma Placed.listeners_lt (h : Placed cfg s) {t : ℕ} (ht : t ∈ s.net.listeners.live) :
    t < 128 := by
  have hhi := (Slab.range_of_mem_live ht).2
  rw [h.net.listeners.1, h.net.listeners.2] at hhi
  simpa [Net.new, Slab.newStartingAt] using hhi

lemma Placed.timeouts_range (h : Placed cfg s) {t : ℕ} (ht : t ∈ s.timeouts.live) :
    129 ≤ t ∧ t < 384 := by
  have hrange := Slab.range_of_mem_live ht
  rw [Slab.Range, h.timeouts.1, h.timeouts.2] at hrange
  exact hrange

lemma Placed.conns_ge (h : Placed cfg s) {t : ℕ} (ht : t ∈ s.net.conns.live) : 256 ≤ t := by
  have hlo := (Slab.range_of_mem_live ht).1
  rw [h.net.conns.1] at hlo
  exact hlo

/-- Only below `384` can a token be a timer's. -/
lemma Placed.not_timeouts_iff (h : Placed cfg s) {t : ℕ} :
    (t < 384 → s.timeouts.contains t = false) ↔ t ∉ s.timeouts.live := by
  rw [Slab.contains_eq_false]
  exact ⟨fun hno ht => hno (h.timeouts_range ht).2 ht, fun hno _ => hno⟩

/-- Only from `256` on can a token be a connection's. -/
lemma Placed.not_conns_iff (h : Placed cfg s) {t : ℕ} :
    (256 ≤ t → s.net.conns.contains t = false) ↔ t ∉ s.net.conns.live := by
  rw [Slab.contains_eq_false]
  exact ⟨fun hno ht => hno (h.conns_ge ht) ht, fun hno _ => hno⟩

/-- The listeners are by themselves, so only timers and connections can clash. -/
lemma Placed.partitioned_iff_disjoint (h : Placed cfg s) :
    s.Partitioned ↔ Disjoint s.timeouts.live s.net.conns.live ∧
      s.net.conns.live.card ≤ s.net.config.maxConnections := by
  constructor
  · intro hp
    exact ⟨hp.timeouts_conns, hp.limit⟩
  · rintro ⟨hdis, hlimit⟩
    refine ⟨?_, ?_, hdis, hlimit⟩
    · refine Finset.disjoint_left.mpr fun t hl ht => ?_
      have := h.listeners_lt hl
      have := h.timeouts_range ht
      omega
    · refine Finset.disjoint_left.mpr fun t hl hc => ?_
      have := h.listeners_lt hl
      have := h.conns_ge hc
      omega

/-- What `timeout` does when it comes back. -/
lemma timeout_live {callback : ℕ} {slot : Option Token} {handle : Except String ℕ}
    (h : s.timeout callback slot handle = Outcome.ret u) :
    ∃ t, slot = some t ∧ u.net = s.net ∧ u.timeouts.live = Insert.insert t s.timeouts.live ∧
      u.timeouts.off = s.timeouts.off ∧ u.timeouts.cap = s.timeouts.cap := by
  obtain ⟨q, hins, h⟩ := Outcome.bind_eq_ret.mp h
  rcases Slab.insert_result hins with ⟨-, rfl⟩ | ⟨t, rfl, -, hget, rfl⟩
  · cases h
  · cases handle with
    | error e => cases h
    | ok handle =>
        obtain rfl := Outcome.ret.inj h
        refine ⟨t, rfl, rfl, ?_, rfl, rfl⟩
        rw [Slab.live_put_of_get _ hget, Slab.live_put hget]

/-- What a timer that fires does: nothing to the slabs. -/
lemma fired_same {tok : Token} {again : Bool} (h : s.fired tok again = Outcome.ret u) :
    u.net = s.net ∧ u.timeouts = s.timeouts := by
  simp only [fired] at h
  split at h
  · cases h
  · split_ifs at h
    · obtain rfl := Outcome.ret.inj h
      exact ⟨rfl, rfl⟩
    · split at h
      · cases h
      · obtain rfl := Outcome.ret.inj h
        exact ⟨rfl, rfl⟩

lemma Placed.step {op : Op} (h : Placed cfg s) (hs : s.step proto fuel op = Outcome.ret u) :
    Placed cfg u := by
  cases op with
  | event e =>
      obtain ⟨net, hnet, rfl⟩ := Outcome.map_eq_ret.mp hs
      exact ⟨h.net.trans (Net.step_laid hnet), h.timeouts⟩
  | timeout callback slot handle =>
      obtain ⟨t, -, hnet, -, hoff, hcap⟩ := timeout_live hs
      exact ⟨hnet ▸ h.net, hoff.trans h.timeouts.1, hcap.trans h.timeouts.2⟩
  | fired tok again =>
      obtain ⟨hnet, htimers⟩ := fired_same hs
      exact ⟨hnet ▸ h.net, htimers ▸ h.timeouts⟩

/-- A step keeps the partition exactly if it is clear. -/
lemma Partitioned.step_iff {op : Op} (hplaced : Placed cfg s) (h : s.Partitioned)
    (hs : s.step proto fuel op = Outcome.ret u) : u.Partitioned ↔ s.Clear op := by
  rw [(hplaced.step hs).partitioned_iff_disjoint]
  have hdis := h.timeouts_conns
  have hlimit := h.limit
  cases op with
  | event e =>
      obtain ⟨net, hnet, rfl⟩ := Outcome.map_eq_ret.mp hs
      have hconfig : net.config = s.net.config := (Net.step_laid hnet).config
      simp only [hconfig]
      cases hslot : s.net.slotOf e with
      | none =>
          have hsub := Net.live_of_slotOf_none hnet hslot
          refine ⟨fun _ t ht => ?_, fun _ => ⟨hdis.mono_right hsub, ?_⟩⟩
          · rw [hslot] at ht
            cases ht
          · exact Nat.le_trans (Finset.card_le_card hsub) hlimit
      | some t =>
          obtain ⟨hfree, c, hput, hget⟩ := Net.conns_of_slotOf hnet hslot
          have hlive : net.conns.live = Insert.insert t s.net.conns.live := by
            rw [hput] at hget ⊢
            exact Slab.live_put hget
          have hcard : net.conns.live.card = s.net.conns.live.card + 1 := by
            rw [hlive, Finset.card_insert_of_notMem (Slab.not_mem_live.mpr hfree)]
          rw [hcard, hlive, Finset.disjoint_insert_right]
          simp only [Clear, hslot, Option.some.injEq, forall_eq', hplaced.not_timeouts_iff]
          exact ⟨fun hu => ⟨hu.2, hu.1.1⟩, fun hclear => ⟨⟨hclear.2, hdis⟩, hclear.1⟩⟩
  | timeout callback slot handle =>
      obtain ⟨t, rfl, hnet, hlive, -, -⟩ := timeout_live hs
      rw [hnet, hlive, Finset.disjoint_insert_left]
      simp only [Clear, Option.some.injEq, forall_eq', hplaced.not_conns_iff]
      exact ⟨fun hu => hu.1.1, fun hfree => ⟨⟨hfree, hdis⟩, hlimit⟩⟩
  | fired tok again =>
      obtain ⟨hnet, htimers⟩ := fired_same hs
      rw [hnet, htimers]
      exact ⟨fun _ => trivial, fun _ => ⟨hdis, hlimit⟩⟩

/-- **The token space.**  In a run of an engine, no token is ever live in two slabs and the limit of
connections is never exceeded exactly if every step is clear: the tokens from `256` to `383` belong
to both the timers and the connections, and the slab of connections does not know the limit. -/
theorem partitioned_iff {ops : List Op}
    (h : Reach (step proto fuel) anyStep (new cfg : Engine P Out) ops s) :
    (∀ fs u, fs <+: ops → Reach (step proto fuel) anyStep (new cfg : Engine P Out) fs u →
      u.Partitioned) ↔
      Reach (step proto fuel) Clear (new cfg) ops s := by
  have hnew : (new cfg : Engine P Out).Partitioned := by
    rw [(placed_new cfg).partitioned_iff_disjoint]
    simp [new, Net.new]
  exact h.always_iff_within (placed_new cfg) hnew (fun _ _ _ ht hs => ht.step hs)
    fun _ _ _ hplaced ht hs => ht.step_iff hplaced hs

/-- One timer after another, each at the next token. -/
def timers (n : ℕ) : List Op :=
  (List.range n).map fun i => Op.timeout i (some (129 + i)) (Except.ok i)

/-- As many timers as there is room for can be set, and without connections nothing clashes. -/
lemma reach_timers {n : ℕ} (hn : n ≤ 255) :
    ∃ s : Engine P Out, Reach (step proto fuel) Clear (new cfg) (timers n) s ∧
      s.net = Net.new cfg ∧ Placed cfg s ∧ ∀ t : ℕ, t ∈ s.timeouts.live ↔ 129 ≤ t ∧ t < 129 + n := by
  induction n with
  | zero =>
      refine ⟨new cfg, Reach.nil, rfl, placed_new cfg, fun t => ?_⟩
      simp [new]
  | succ n ih =>
      obtain ⟨s, hs, hnet, hplaced, hlive⟩ := ih (by omega)
      have hfree : s.timeouts.contains (129 + n) = false := by
        rw [Slab.contains_eq_false, hlive]
        omega
      have hroom : s.timeouts.off ≤ 129 + n ∧ 129 + n < s.timeouts.off + s.timeouts.cap ∧
          s.timeouts.contains (129 + n) = false := by
        rw [hplaced.timeouts.1, hplaced.timeouts.2]
        exact ⟨by omega, by omega, hfree⟩
      obtain ⟨u, hu⟩ : ∃ u, s.timeout n (some (129 + n)) (Except.ok n) = Outcome.ret u := by
        refine ⟨{ s with timeouts :=
          (s.timeouts.put (129 + n) ⟨n, none⟩).put (129 + n) ⟨n, some n⟩ }, ?_⟩
        simp only [timeout, Slab.insert, if_pos hroom]
        rfl
      have hstep : s.step proto fuel (Op.timeout n (some (129 + n)) (Except.ok n))
          = Outcome.ret u := hu
      obtain ⟨t, ht, hnet', hlive', -, -⟩ := timeout_live hu
      obtain rfl := Option.some.inj ht
      refine ⟨u, ?_, hnet'.trans hnet, hplaced.step hstep, fun t => ?_⟩
      · rw [timers, List.range_succ, List.map_append]
        refine Reach.snoc hs (fun t _ _ => ?_) hstep
        rw [hnet]
        rfl
      · rw [hlive', Finset.mem_insert, hlive]
        omega

/-- A first connection gets the token `256`. -/
lemma step_connected {s : Engine P Out} (hnet : s.net = Net.new cfg)
    (hcap : 0 < (cfg.maxConnections + 256) % 2 ^ 64) :
    ∃ u, s.step proto fuel (Op.event (Net.Event.connected 256)) = Outcome.ret u ∧
      u.timeouts = s.timeouts ∧ u.net.config = cfg ∧ u.net.conns.live = {256} := by
  obtain ⟨net, hstep⟩ : ∃ net, (Net.new cfg : Net P Out).step proto fuel
      (Net.Event.connected 256) = Outcome.ret net := by
    have hroom : (Net.new cfg : Net P Out).conns.off ≤ 256 ∧
        256 < (Net.new cfg : Net P Out).conns.off + (Net.new cfg : Net P Out).conns.cap ∧
        (Net.new cfg : Net P Out).conns.contains 256 = false :=
      ⟨Nat.le_refl 256, Nat.lt_add_of_pos_right hcap, rfl⟩
    simp only [Net.step, Net.Event.connected, Net.connect, Slab.insert, if_pos hroom,
      Outcome.pure_eq, Outcome.ret_bind, Outcome.map_ret]
    exact ⟨_, rfl⟩
  refine ⟨{ s with net := net }, ?_, rfl, (Net.step_laid hstep).config, ?_⟩
  · simp only [step, hnet, hstep, Outcome.map_ret]
  · obtain ⟨-, c, hput, hget⟩ := Net.conns_of_slotOf hstep rfl
    rw [hput] at hget ⊢
    rw [Slab.live_put hget]
    simp [Net.new]

/-- A configuration that allows no connection. -/
def noConnections : NetEngineConfig := ⟨16, 64, 8, 0, by decide⟩

/-- With `128` timers the last has the token of the first connection; and a connection is made where
none is allowed. -/
theorem token_live_twice :
    (∃ s, Reach (step (BufProtocol 8) 9) anyStep (new NetEngineConfig.defaults)
        (timers 128 ++ [Op.event (Net.Event.connected 256)]) s ∧
      256 ∈ s.timeouts.live ∧ 256 ∈ s.net.conns.live ∧ ¬ s.Partitioned) ∧
    ∃ s, Reach (step (BufProtocol 8) 9) anyStep (new noConnections)
        [Op.event (Net.Event.connected 256)] s ∧
      s.net.config.maxConnections < s.net.conns.live.card ∧ ¬ s.Partitioned := by
  constructor
  · obtain ⟨s, hs, hnet, -, hlive⟩ := @reach_timers Unit AROIobuf (BufProtocol 8) 9
      NetEngineConfig.defaults 128 (by decide)
    obtain ⟨u, hu, htimers, -, hconns⟩ := step_connected hnet (by decide)
    have htimer : 256 ∈ u.timeouts.live := by
      rw [htimers, hlive]
      decide
    have hconn : 256 ∈ u.net.conns.live := by
      rw [hconns]
      exact Finset.mem_singleton_self 256
    refine ⟨u, Reach.snoc (hs.mono fun _ _ _ => trivial) trivial hu, htimer, hconn, ?_⟩
    intro hpart
    exact Finset.disjoint_left.mp hpart.timeouts_conns htimer hconn
  · obtain ⟨u, hu, -, hconfig, hconns⟩ := @step_connected Unit AROIobuf (BufProtocol 8) 9
      noConnections (new noConnections) rfl (by decide)
    have hover : u.net.config.maxConnections < u.net.conns.live.card := by
      rw [hconfig, hconns]
      decide
    exact ⟨u, Reach.snoc Reach.nil trivial hu, hover, fun hpart => Nat.not_lt.mpr hpart.limit hover⟩

/-- A timer and a connection, each at the first token of its slab. -/
theorem partitioned_timer_and_connection :
    ∃ s, Reach (step (BufProtocol 8) 9) anyStep (new NetEngineConfig.defaults)
        (timers 1 ++ [Op.event (Net.Event.connected 256)]) s ∧ s.Partitioned := by
  obtain ⟨s, hs, hnet, -, hlive⟩ := @reach_timers Unit AROIobuf (BufProtocol 8) 9
    NetEngineConfig.defaults 1 (by decide)
  obtain ⟨u, hu, -⟩ := step_connected hnet (by decide)
  have hclear : s.Clear (Op.event (Net.Event.connected 256)) := by
    intro t ht
    obtain rfl : 256 = t := Option.some.inj ht
    have hfree : 256 ∉ s.timeouts.live := by
      rw [hlive]
      decide
    refine ⟨by rw [hnet]; simp [Net.new, NetEngineConfig.defaults], fun _ => ?_⟩
    rwa [Slab.contains_eq_false]
  have hrun := Reach.snoc hs hclear hu
  have hany : Reach (step (BufProtocol 8) 9) anyStep _ _ u := hrun.mono fun _ _ _ => trivial
  exact ⟨u, hany, (partitioned_iff hany).mpr hrun _ u (List.prefix_refl _) hany⟩

end Engine

end Rx
