import RxRust.Reactor.Engine

/-!
# What one event does

The methods of the engine branch on many outcomes, but seen from the connections an event does one
of a few things.  `Net.Move` lists them, and `Net.step_moves` is the inversion of `Net.step`: every
invariant of the engine is proved against this list.

* `Quiet` — no connection, message or token is touched.
* `Opened` — a connection is inserted at a free slot.
* `Move` — these two, a read, a drain, a message dropped and a message sent, each with the events
  that can do it.
-/

namespace Rx

open Core

namespace Net

variable {P Out : Type} {proto : Protocol P Out} {fuel : ℕ}

/-! ## Writing to the state -/

@[simp] lemma pass_passed (s : Net P Out) (t : Token) (i : Interest) :
    (s.pass t i).passed t = some i := Function.update_self ..

lemma pass_passed_ne {s : Net P Out} {t u : Token} (i : Interest) (h : u ≠ t) :
    (s.pass t i).passed u = s.passed u := Function.update_of_ne h ..

/-- A registration with `READABLE` leaves every other token as it was. -/
lemma pass_readable (s : Net P Out) (t u : Token) :
    (s.pass t Interest.READABLE).passed u = s.passed u ∨
      (s.pass t Interest.READABLE).passed u = some Interest.READABLE := by
  by_cases h : u = t
  · subst h
    exact Or.inr (pass_passed s u _)
  · exact Or.inl (pass_passed_ne _ h)

/-- A registration of a token in some range leaves the tokens outside as they were. -/
lemma pass_out {s : Net P Out} {r : Token → Prop} {t u : Token} (i : Interest) (ht : r t)
    (hu : ¬ r u) : (s.pass t i).passed u = s.passed u := by
  refine pass_passed_ne i ?_
  rintro rfl
  exact hu ht

/-- A connection with nothing left to write is only put back. -/
lemma flushed_nil {s : Net P Out} {t : Token} {c : Connection P} (h : c.outbuf = []) :
    s.flushed t c = { s with conns := s.conns.put t c } := by
  simp [flushed, h]

/-- A connection with something left to write is registered again. -/
lemma flushed_pending {s : Net P Out} {t : Token} {c : Connection P} (h : c.outbuf ≠ []) :
    s.flushed t c =
      ({ s with
        conns := s.conns.put t { c with interest := c.interest.insert Interest.WRITABLE } } :
          Net P Out).pass t (c.interest.insert Interest.WRITABLE) := by
  simp [flushed, List.length_pos_iff.mpr h]

/-! ## The moves -/

/-- The configuration and the ranges of the slabs are as before. -/
structure Laid (s u : Net P Out) : Prop where
  config : u.config = s.config
  listeners : u.listeners.off = s.listeners.off ∧ u.listeners.cap = s.listeners.cap
  conns : u.conns.off = s.conns.off ∧ u.conns.cap = s.conns.cap

lemma Laid.refl (s : Net P Out) : Laid s s := ⟨rfl, ⟨rfl, rfl⟩, rfl, rfl⟩

lemma Laid.trans {s u v : Net P Out} (h : Laid s u) (h' : Laid u v) : Laid s v := by
  refine ⟨h'.config.trans h.config, ⟨h'.listeners.1.trans h.listeners.1, ?_⟩, ?_, ?_⟩
  · exact h'.listeners.2.trans h.listeners.2
  · exact h'.conns.1.trans h.conns.1
  · exact h'.conns.2.trans h.conns.2

/-- The event leaves the connections, the messages and the handed tokens alone. -/
structure Quiet (s u : Net P Out) : Prop where
  laid : Laid s u
  conns : u.conns = s.conns
  closed : u.closed = s.closed
  queue : u.queue = s.queue
  handed : u.handed = s.handed
  nextSock : s.nextSock ≤ u.nextSock
  passed : ∀ t, u.passed t = s.passed t ∨ u.passed t = some Interest.READABLE
  passed_out : ∀ t, ¬ s.listeners.Range t → u.passed t = s.passed t

/-- The event makes a connection at the free slot `t`. -/
structure Opened (proto : Protocol P Out) (s u : Net P Out) (t : Token) : Prop where
  laid : Laid s u
  free : s.conns.get t = none
  conn : ∃ tx, u.conns = s.conns.put t (Connection.new proto ⟨s.nextSock, []⟩ tx s.config.newBuf) ∧
    u.conns.get t = some (Connection.new proto ⟨s.nextSock, []⟩ tx s.config.newBuf)
  closed : u.closed = s.closed
  queue : u.queue = s.queue
  handed : ∀ h ∈ u.handed, h ∈ s.handed ∨ h = (s.nextSock, t)
  nextSock : u.nextSock = s.nextSock + 1
  passed : ∃ i, u.passed t = some i ∧ i.readable = true
  passed_ne : ∀ t', t' ≠ t → u.passed t' = s.passed t' ∨ u.passed t' = some Interest.READABLE
  passed_out : ∀ t', t' ≠ t → ¬ s.listeners.Range t' → u.passed t' = s.passed t'

/-- The slot in which the event would put a connection. -/
def slotOf (s : Net P Out) : Event → Option Token
  | Event.connect _ _ (Except.ok ()) slot _ _ => slot
  | Event.readable token _ (AcceptAnswer.ready slot) _ =>
      if s.listeners.contains token then slot else none
  | _ => none

/-- The event is about output: a message or room for one. -/
def Event.output : Event → Bool
  | Event.writable _ _ => true
  | Event.notify _ => true
  | Event.send _ => true
  | _ => false

/-- One event, seen from the connections. -/
inductive Move (proto : Protocol P Out) (fuel : ℕ) (s : Net P Out) : Event → Net P Out → Prop
  | quiet {e : Event} {u : Net P Out} : e.output = false → Quiet s u → Move proto fuel s e u
  | absent {t : Token} {answers : List WriteAnswer} : s.conns.get t = none →
      Move proto fuel s (Event.writable t answers) s
  | opened {e : Event} {u : Net P Out} {t : Token} :
      s.slotOf e = some t → Opened proto s u t → Move proto fuel s e u
  | heard {t : Token} {hup : Bool} {answer : AcceptAnswer} {read : ReadAnswer}
      {c c' : Connection P} {msgs : List (ProtoMsg Out)} :
      s.conns.get t = some c → c.readAnswered proto s.config t fuel read = Outcome.ret (c', msgs) →
      Move proto fuel s (Event.readable t hup answer read)
        ({ s with
            sent := s.sent ++ msgs.map fun m => (c'.connTx, m)
            handed := s.handed ++ msgs.map fun _ => (c'.sock.id, t) }.settle t c' hup)
  | drained {t : Token} {answers : List WriteAnswer} {c c' : Connection P} :
      s.conns.get t = some c → c.drainWriteQueueToSocket answers = Outcome.ret (c', []) →
      Move proto fuel s (Event.writable t answers) (s.flushed t c')
  | notified {msg : StreamBuf} {queue : List StreamBuf} {answers : List WriteAnswer}
      {c c' : Connection P} :
      s.queue = msg :: queue → s.conns.get msg.tok = some c →
      { c with outbuf := c.outbuf ++ [msg] }.drainWriteQueueToSocket answers
        = Outcome.ret (c', []) →
      Move proto fuel s (Event.notify answers) ({ s with queue := queue }.flushed msg.tok c')
  | dropped {msg : StreamBuf} {queue : List StreamBuf} {answers : List WriteAnswer} :
      s.queue = msg :: queue → s.conns.get msg.tok = none →
      Move proto fuel s (Event.notify answers) { s with queue := queue }
  | sent {msg : StreamBuf} : (msg.owner, msg.tok) ∈ s.handed →
      Move proto fuel s (Event.send msg) { s with queue := s.queue ++ [msg] }

lemma Quiet.refl (s : Net P Out) : Quiet s s :=
  ⟨Laid.refl s, rfl, rfl, rfl, rfl, Nat.le_refl _, fun _ => Or.inl rfl, fun _ _ => rfl⟩

/-- An event that touches none of what is listed, and registers nothing. -/
lemma Quiet.of_eq {s u : Net P Out} (hlaid : Laid s u) (hconns : u.conns = s.conns)
    (hclosed : u.closed = s.closed) (hqueue : u.queue = s.queue) (hhanded : u.handed = s.handed)
    (hnext : s.nextSock ≤ u.nextSock) (hpassed : u.passed = s.passed) : Quiet s u := by
  refine ⟨hlaid, hconns, hclosed, hqueue, hhanded, hnext, ?_, ?_⟩
  · intro t
    exact Or.inl (by rw [hpassed])
  · intro t _
    rw [hpassed]

/-- A listener is registered after it. -/
lemma Quiet.pass {s u : Net P Out} {t : Token} (h : Quiet s u) (ht : s.listeners.Range t) :
    Quiet s (u.pass t Interest.READABLE) := by
  refine ⟨h.laid.trans ⟨rfl, ⟨rfl, rfl⟩, rfl, rfl⟩, h.conns, h.closed, h.queue, h.handed,
    h.nextSock, ?_, ?_⟩
  · intro t'
    rcases pass_readable u t t' with hp | hp
    · rw [hp]
      exact h.passed t'
    · exact Or.inr hp
  · intro t' ht'
    exact (pass_out _ ht ht').trans (h.passed_out t' ht')

/-! ## Inverting the methods -/

/-- `connect` makes a connection, or leaves all of them alone. -/
lemma connect_moves {s u : Net P Out} {hostname : String} {port : ℕ} {socket : Except String Unit}
    {slot : Option Token} {register connected : Except String Unit} {r : Except String NetStream}
    (h : s.connect proto hostname port socket slot register connected = Outcome.ret (u, r)) :
    Quiet s u ∨
      ∃ t, s.slotOf (Event.connect hostname port socket slot register connected) = some t ∧
        Opened proto s u t := by
  cases socket with
  | error e =>
      obtain rfl : s = u := congrArg Prod.fst (Outcome.ret.inj h)
      exact Or.inl (Quiet.refl s)
  | ok v =>
      obtain ⟨q, hins, h⟩ := Outcome.bind_eq_ret.mp h
      rcases Slab.insert_cases hins with rfl | ⟨t, rfl, hfree, hget, rfl⟩
      · obtain ⟨rfl, -⟩ := Prod.mk.inj (Outcome.ret.inj h)
        exact Or.inl (Quiet.of_eq ⟨rfl, ⟨rfl, rfl⟩, rfl, rfl⟩ rfl rfl rfl rfl (Nat.le_succ _) rfl)
      · refine Or.inr ⟨t, rfl, ?_⟩
        have hopened : ∀ handed : List (ℕ × Token),
            (∀ k ∈ handed, k ∈ s.handed ∨ k = (s.nextSock, t)) →
            Opened proto s { s.opened t (s.conns.put t (Connection.new proto ⟨s.nextSock, []⟩
              s.nextChan s.config.newBuf)) Interest.READABLE with
                nextChan := s.nextChan + 1, handed := handed } t := by
          intro handed hhanded
          refine ⟨⟨rfl, ⟨rfl, rfl⟩, rfl, rfl⟩, hfree, ⟨_, rfl, hget⟩, rfl, rfl, hhanded, rfl,
            ⟨_, pass_passed _ t _, rfl⟩, ?_, ?_⟩
          · intro t' hne
            exact Or.inl (pass_passed_ne _ hne)
          · intro t' hne _
            exact pass_passed_ne _ hne
        cases register with
        | error e =>
            obtain ⟨rfl, -⟩ := Prod.mk.inj (Outcome.ret.inj h)
            exact hopened s.handed fun k hk => Or.inl hk
        | ok v =>
            cases connected with
            | error e =>
                obtain ⟨rfl, -⟩ := Prod.mk.inj (Outcome.ret.inj h)
                exact hopened s.handed fun k hk => Or.inl hk
            | ok v =>
                obtain ⟨rfl, -⟩ := Prod.mk.inj (Outcome.ret.inj h)
                exact hopened (s.handed ++ [(s.nextSock, t)]) fun k hk => by simpa using hk

/-- `listen` leaves the connections alone. -/
lemma listen_moves {s u : Net P Out} {addr : String} {port : ℕ}
    {socket bind listen : Except String Unit} {slot : Option Token} {register : Except String Unit}
    {r : Except String ℕ}
    (h : s.listen addr port socket bind listen slot register = Outcome.ret (u, r)) : Quiet s u := by
  cases socket with
  | error e =>
      obtain rfl : s = u := congrArg Prod.fst (Outcome.ret.inj h)
      exact Quiet.refl s
  | ok v =>
      cases bind with
      | error e =>
          obtain rfl : s = u := congrArg Prod.fst (Outcome.ret.inj h)
          exact Quiet.refl s
      | ok v =>
          cases listen with
          | error e =>
              obtain rfl : s = u := congrArg Prod.fst (Outcome.ret.inj h)
              exact Quiet.refl s
          | ok v =>
              obtain ⟨q, hins, h⟩ := Outcome.bind_eq_ret.mp h
              rcases Slab.insert_cases hins with rfl | ⟨t, rfl, hfree, hget, rfl⟩
              · obtain ⟨rfl, -⟩ := Prod.mk.inj (Outcome.ret.inj h)
                exact Quiet.of_eq ⟨rfl, ⟨rfl, rfl⟩, rfl, rfl⟩ rfl rfl rfl rfl (Nat.le_refl _) rfl
              · have hrange : s.listeners.Range t := (s.listeners.put t s.nextChan).within t _ hget
                have hquiet : Quiet s ({ s with
                    nextChan := s.nextChan + 1
                    listeners := s.listeners.put t s.nextChan } : Net P Out) :=
                  Quiet.of_eq ⟨rfl, ⟨rfl, rfl⟩, rfl, rfl⟩ rfl rfl rfl rfl (Nat.le_refl _) rfl
                cases register with
                | error e =>
                    obtain ⟨rfl, -⟩ := Prod.mk.inj (Outcome.ret.inj h)
                    exact hquiet.pass hrange
                | ok v =>
                    obtain ⟨rfl, -⟩ := Prod.mk.inj (Outcome.ret.inj h)
                    exact hquiet.pass hrange

/-- Accepting makes a connection, or leaves all of them alone. -/
lemma accept_moves {s u : Net P Out} {token : Token} {tx : ℕ} {hup : Bool} {answer : AcceptAnswer}
    {read : ReadAnswer} (hl : s.listeners.get token = some tx)
    (h : s.accept proto token tx answer = Outcome.ret u) :
    Quiet s u ∨ ∃ t, s.slotOf (Event.readable token hup answer read) = some t ∧
      Opened proto s u t := by
  have hrange : s.listeners.Range token := s.listeners.within token tx hl
  cases answer with
  | failed =>
      obtain rfl := Outcome.ret.inj h
      exact Or.inl ((Quiet.refl s).pass hrange)
  | ready slot =>
      obtain ⟨q, hins, h⟩ := Outcome.bind_eq_ret.mp h
      rcases Slab.insert_cases hins with rfl | ⟨t, rfl, hfree, hget, rfl⟩
      · obtain rfl := Outcome.ret.inj h
        have hquiet : Quiet s ({ s with nextSock := s.nextSock + 1 } : Net P Out) :=
          Quiet.of_eq ⟨rfl, ⟨rfl, rfl⟩, rfl, rfl⟩ rfl rfl rfl rfl (Nat.le_succ _) rfl
        exact Or.inl (hquiet.pass hrange)
      · obtain rfl := Outcome.ret.inj h
        refine Or.inr ⟨t, ?_, ⟨rfl, ⟨rfl, rfl⟩, rfl, rfl⟩, hfree, ⟨_, rfl, hget⟩, rfl, rfl,
          fun k hk => Or.inl hk, rfl, ?_, ?_, ?_⟩
        · have hc : s.listeners.contains token = true := by
            rw [Slab.contains]
            exact Option.isSome_of_eq_some hl
          simp [slotOf, hc]
        · by_cases ht : t = token
          · subst ht
            exact ⟨_, pass_passed _ t _, rfl⟩
          · exact ⟨_, (pass_passed_ne _ ht).trans (pass_passed _ t _), rfl⟩
        · intro t' hne
          rcases pass_readable (s.opened t _ (Interest.READABLE.insert Interest.HUP)) token t'
            with ht' | ht'
          · exact Or.inl (ht'.trans (pass_passed_ne _ hne))
          · exact Or.inr ht'
        · intro t' hne hout
          exact (pass_out _ hrange hout).trans (pass_passed_ne _ hne)

/-- A drain that comes back has used up its answers. -/
lemma drained_eq {s u : Net P Out} {t : Token} {c : Connection P} {answers : List WriteAnswer}
    (h : s.drained t c answers = Outcome.ret u) :
    ∃ c', c.drainWriteQueueToSocket answers = Outcome.ret (c', []) ∧ u = s.flushed t c' := by
  obtain ⟨⟨c', unasked⟩, hdrain, h⟩ := Outcome.bind_eq_ret.mp h
  obtain ⟨rfl, h⟩ := Outcome.guard_eq_ret.mp h
  exact ⟨c', hdrain, (Outcome.ret.inj h).symm⟩

/-- **Inversion of a step.**  An event does nothing but what `Move` lists. -/
theorem step_moves {s u : Net P Out} {e : Event} (h : s.step proto fuel e = Outcome.ret u) :
    Move proto fuel s e u := by
  cases e with
  | connect hostname port socket slot register connected =>
      obtain ⟨⟨v, r⟩, hv, rfl⟩ := Outcome.map_eq_ret.mp h
      rcases connect_moves hv with hq | ⟨t, ht, ho⟩
      · exact Move.quiet rfl hq
      · exact Move.opened ht ho
  | listen addr port socket bind listen slot register =>
      obtain ⟨⟨v, r⟩, hv, rfl⟩ := Outcome.map_eq_ret.mp h
      exact Move.quiet rfl (listen_moves hv)
  | readable token hup answer read =>
      simp only [step, readable] at h
      cases hl : s.listeners.get token with
      | some tx =>
          rw [hl] at h
          rcases accept_moves hl h with hq | ⟨t, ht, ho⟩
          · exact Move.quiet rfl hq
          · exact Move.opened ht ho
      | none =>
          rw [hl] at h
          cases hc : s.conns.get token with
          | none =>
              rw [hc] at h
              obtain rfl := Outcome.ret.inj h
              exact Move.quiet rfl (Quiet.refl s)
          | some c =>
              rw [hc] at h
              obtain ⟨⟨c', msgs⟩, hread, h⟩ := Outcome.bind_eq_ret.mp h
              obtain rfl := Outcome.ret.inj h
              exact Move.heard hc hread
  | writable token answers =>
      simp only [step, writable] at h
      cases hc : s.conns.get token with
      | none =>
          rw [hc] at h
          obtain ⟨-, h⟩ := Outcome.guard_eq_ret.mp h
          obtain rfl := Outcome.ret.inj h
          exact Move.absent hc
      | some c =>
          rw [hc] at h
          obtain ⟨c', hdrain, rfl⟩ := drained_eq h
          exact Move.drained hc hdrain
  | notify answers =>
      simp only [step] at h
      cases hq : s.queue with
      | nil =>
          rw [hq] at h
          cases h
      | cons msg queue =>
          rw [hq] at h
          simp only [notify] at h
          cases hc : s.conns.get msg.tok with
          | none =>
              rw [hc] at h
              obtain ⟨-, h⟩ := Outcome.guard_eq_ret.mp h
              obtain rfl := Outcome.ret.inj h
              exact Move.dropped hq hc
          | some c =>
              rw [hc] at h
              obtain ⟨c', hdrain, rfl⟩ := drained_eq h
              exact Move.notified hq hc hdrain
  | send msg =>
      obtain ⟨hmem, h⟩ := Outcome.guard_eq_ret.mp h
      obtain rfl := Outcome.ret.inj h
      exact Move.sent hmem

/-! ## The ranges of the tokens -/

lemma flushed_laid (s : Net P Out) (t : Token) (c : Connection P) : Laid s (s.flushed t c) := by
  by_cases h : c.outbuf = []
  · rw [flushed_nil h]
    exact ⟨rfl, ⟨rfl, rfl⟩, rfl, rfl⟩
  · rw [flushed_pending h]
    exact ⟨rfl, ⟨rfl, rfl⟩, rfl, rfl⟩

lemma settle_laid (s : Net P Out) (t : Token) (c : Connection P) (hup : Bool) :
    Laid s (s.settle t c hup) := by
  cases hup with
  | true => exact ⟨rfl, ⟨rfl, rfl⟩, rfl, rfl⟩
  | false => exact ⟨rfl, ⟨rfl, rfl⟩, rfl, rfl⟩

/-- What is recorded about a read moves nothing. -/
lemma record_laid (s : Net P Out) (sent : List (ℕ × ProtoMsg Out)) (handed : List (ℕ × Token)) :
    Laid s { s with sent := s.sent ++ sent, handed := s.handed ++ handed } :=
  ⟨rfl, ⟨rfl, rfl⟩, rfl, rfl⟩

/-- No event changes the configuration or moves a slab. -/
lemma step_laid {s u : Net P Out} {e : Event} (h : s.step proto fuel e = Outcome.ret u) :
    Laid s u := by
  cases step_moves h with
  | quiet he hq => exact hq.laid
  | absent hc => exact Laid.refl s
  | opened hslot ho => exact ho.laid
  | heard hc hread => exact (record_laid s _ _).trans (settle_laid _ _ _ _)
  | drained hc hdrain => exact flushed_laid _ _ _
  | @notified msg queue answers c c' hq hc hdrain =>
      have h := flushed_laid { s with queue := queue } msg.tok c'
      exact ⟨h.config, h.listeners, h.conns⟩
  | dropped hq hc => exact ⟨rfl, ⟨rfl, rfl⟩, rfl, rfl⟩
  | sent hmem => exact ⟨rfl, ⟨rfl, rfl⟩, rfl, rfl⟩

/-- The slabs of an engine stay where `new` puts them. -/
lemma laid_reach {cfg : NetEngineConfig} {es : List Event} {s : Net P Out}
    (h : Reach (step proto fuel) anyStep (new cfg) es s) : Laid (new cfg) s := by
  refine h.invariant (P := fun t => Laid (new cfg) t) (Laid.refl _) ?_
  intro t e u ht _ hs
  exact ht.trans (step_laid hs)

/-- The token of a connection lies outside the listeners' range. -/
lemma not_range_of_get {cfg : NetEngineConfig} {s : Net P Out} {t : Token} {c : Connection P}
    (hlaid : Laid (new cfg) s) (hc : s.conns.get t = some c) : ¬ s.listeners.Range t := by
  rintro ⟨-, hhi⟩
  have hlo := (s.conns.within t c hc).1
  rw [hlaid.conns.1] at hlo
  rw [hlaid.listeners.1, hlaid.listeners.2] at hhi
  have : (256 : ℕ) < 0 + 128 := Nat.lt_of_le_of_lt hlo hhi
  omega

/-- The token of a connection is no listener's. -/
lemma get_listeners_of_laid {cfg : NetEngineConfig} {s : Net P Out} {t : Token} {c : Connection P}
    (hlaid : Laid (new cfg) s) (hc : s.conns.get t = some c) : s.listeners.get t = none := by
  cases hl : s.listeners.get t with
  | none => rfl
  | some tx => exact absurd (s.listeners.within t tx hl) (not_range_of_get hlaid hc)

/-- So it is in every state the engine reaches. -/
lemma listeners_get_eq_none {cfg : NetEngineConfig} {es : List Event} {s : Net P Out} {t : Token}
    {c : Connection P} (h : Reach (step proto fuel) anyStep (new cfg) es s)
    (hc : s.conns.get t = some c) : s.listeners.get t = none :=
  get_listeners_of_laid (laid_reach h) hc

end Net

end Rx
