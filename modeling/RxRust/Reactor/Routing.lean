import RxRust.Reactor.Pipe

/-!
# Whose data a channel carries

`connect` gives its caller a token to send with and a channel to receive from.  The token is a slot
that is given to somebody else once the connection is gone; this file shows that the channel is not.

* `Channels` — what one event does to the channels: those there are stay with whom they belong to,
  and a new one has a new number.
* `Charted` — every channel in use has been made.
* `Owned` — a channel belongs to one socket: nobody else sends on it.
* **`stream_own_data`** — the channel that `connect` returns only ever carries what was read from the
  socket it was returned for, all under its own token, and nothing more once that one is gone.
* **`listener_own_data`** — who sends on the channel that `listen` returns was accepted there.
-/

namespace Rx

open Core

namespace Net

variable {P Out : Type} {proto : Protocol P Out} {fuel : ℕ} {cfg : NetEngineConfig}
  {s u v : Net P Out} {e : Event}

/-! ## One event -/

/-- Where the channels of the listeners and of the connections come from. -/
structure Channels (s : Net P Out) (e : Event) (u : Net P Out) : Prop where
  next : s.nextChan ≤ u.nextChan
  listeners : ∀ l tx, u.listeners.get l = some tx → s.listeners.get l = some tx ∨
    (tx = s.nextChan ∧ tx < u.nextChan)
  stays : ∀ l tx, s.listeners.get l = some tx → u.listeners.get l = some tx
  conns : ∀ t c, u.conns.get t = some c →
    (∃ c₀, s.conns.get t = some c₀ ∧ c.connTx = c₀.connTx ∧ c.sock.id = c₀.sock.id) ∨
    (c.connTx = s.nextChan ∧ c.connTx < u.nextChan) ∨
    ∃ l hup read, e = Event.readable l hup (AcceptAnswer.ready (some t)) read ∧
      s.listeners.get l = some c.connTx

/-- The connections as they were. -/
lemma kept_conn {t : Token} {c : Connection P} (hc : s.conns.get t = some c) :
    ∃ c₀, s.conns.get t = some c₀ ∧ c.connTx = c₀.connTx ∧ c.sock.id = c₀.sock.id :=
  ⟨c, hc, rfl, rfl⟩

/-- A connection is made, with the channel `tx`. -/
lemma put_conn {t t' : Token} {c k : Connection P} (hk : (s.conns.put t' k).get t = some c) :
    (∃ c₀, s.conns.get t = some c₀ ∧ c.connTx = c₀.connTx ∧ c.sock.id = c₀.sock.id) ∨
      t = t' ∧ c = k := by
  by_cases ht : t = t' ∧ s.conns.off ≤ t' ∧ t' < s.conns.off + s.conns.cap
  · exact Or.inr ⟨ht.1, by simpa [Slab.get, Slab.put, ht] using hk.symm⟩
  · exact Or.inl (kept_conn (by simpa [Slab.get, Slab.put, ht] using hk))

/-- Nothing is made. -/
lemma Channels.same (hchan : u.nextChan = s.nextChan)
    (hlisteners : u.listeners = s.listeners)
    (hconns : ∀ t c, u.conns.get t = some c →
      ∃ c₀, s.conns.get t = some c₀ ∧ c.connTx = c₀.connTx ∧ c.sock.id = c₀.sock.id) :
    Channels s e u := by
  refine ⟨Nat.le_of_eq hchan.symm, ?_, ?_, fun t c hc => Or.inl (hconns t c hc)⟩
  · intro l tx hl
    rw [hlisteners] at hl
    exact Or.inl hl
  · intro l tx hl
    rw [hlisteners]
    exact hl

/-- A connection that is put back with its channel. -/
lemma back_conn {t t' : Token} {c k k' : Connection P} (hk : s.conns.get t' = some k)
    (htx : k'.connTx = k.connTx) (hid : k'.sock.id = k.sock.id)
    (hc : (s.conns.put t' k').get t = some c) :
    ∃ c₀, s.conns.get t = some c₀ ∧ c.connTx = c₀.connTx ∧ c.sock.id = c₀.sock.id := by
  by_cases ht : t = t'
  · subst ht
    rw [Slab.get_put_of_get _ hk] at hc
    obtain rfl := Option.some.inj hc
    exact ⟨k, hk, htx, hid⟩
  · rw [Slab.get_put_ne _ ht] at hc
    exact kept_conn hc

lemma connect_channels {hostname : String} {port : ℕ} {socket : Except String Unit}
    {slot : Option Token} {register connected : Except String Unit} {r : Except String NetStream}
    (h : s.connect proto hostname port socket slot register connected = Outcome.ret (u, r)) :
    Channels s e u := by
  cases socket with
  | error e =>
      obtain rfl : s = u := congrArg Prod.fst (Outcome.ret.inj h)
      exact Channels.same rfl rfl fun t c hc => kept_conn hc
  | ok v =>
      obtain ⟨q, hins, h⟩ := Outcome.bind_eq_ret.mp h
      rcases Slab.insert_cases hins with rfl | ⟨t, rfl, hfree, hget, rfl⟩
      · obtain ⟨rfl, -⟩ := Prod.mk.inj (Outcome.ret.inj h)
        exact ⟨Nat.le_succ _, fun l tx hl => Or.inl hl, fun l tx hl => hl,
          fun t c hc => Or.inl (kept_conn hc)⟩
      · have hmade : ∀ handed : List (ℕ × Token), Channels s e { s.opened t (s.conns.put t
            (Connection.new proto ⟨s.nextSock, []⟩ s.nextChan s.config.newBuf))
              Interest.READABLE with nextChan := s.nextChan + 1, handed := handed } := by
          intro handed
          refine ⟨Nat.le_succ _, fun l tx hl => Or.inl hl, fun l tx hl => hl, ?_⟩
          intro t' c hc
          rcases put_conn hc with hold | ⟨-, rfl⟩
          · exact Or.inl hold
          · exact Or.inr (Or.inl ⟨rfl, Nat.lt_succ_self _⟩)
        cases register with
        | error e =>
            obtain ⟨rfl, -⟩ := Prod.mk.inj (Outcome.ret.inj h)
            exact hmade s.handed
        | ok v =>
            cases connected with
            | error e =>
                obtain ⟨rfl, -⟩ := Prod.mk.inj (Outcome.ret.inj h)
                exact hmade s.handed
            | ok v =>
                obtain ⟨rfl, -⟩ := Prod.mk.inj (Outcome.ret.inj h)
                exact hmade (s.handed ++ [(s.nextSock, t)])

lemma listen_channels {addr : String} {port : ℕ} {socket bind listen : Except String Unit}
    {slot : Option Token} {register : Except String Unit} {r : Except String ℕ}
    (h : s.listen addr port socket bind listen slot register = Outcome.ret (u, r)) :
    Channels s e u := by
  have hsame : Channels s e s :=
    Channels.same rfl rfl fun t c hc => kept_conn hc
  cases socket with
  | error e =>
      obtain rfl : s = u := congrArg Prod.fst (Outcome.ret.inj h)
      exact hsame
  | ok v =>
      cases bind with
      | error e =>
          obtain rfl : s = u := congrArg Prod.fst (Outcome.ret.inj h)
          exact hsame
      | ok v =>
          cases listen with
          | error e =>
              obtain rfl : s = u := congrArg Prod.fst (Outcome.ret.inj h)
              exact hsame
          | ok v =>
              obtain ⟨q, hins, h⟩ := Outcome.bind_eq_ret.mp h
              rcases Slab.insert_cases hins with rfl | ⟨t, rfl, hfree, hget, rfl⟩
              · obtain ⟨rfl, -⟩ := Prod.mk.inj (Outcome.ret.inj h)
                exact ⟨Nat.le_succ _, fun l tx hl => Or.inl hl, fun l tx hl => hl,
                  fun t c hc => Or.inl (kept_conn hc)⟩
              · have hmade : Channels s e (({ s with
                    nextChan := s.nextChan + 1
                    listeners := s.listeners.put t s.nextChan } : Net P Out).pass t
                      Interest.READABLE) := by
                  refine ⟨Nat.le_succ _, ?_, ?_, fun t c hc => Or.inl (kept_conn hc)⟩
                  · intro l tx hl
                    by_cases hlt : l = t
                    · subst hlt
                      have htx : s.nextChan = tx := Option.some.inj (hget.symm.trans hl)
                      exact Or.inr ⟨htx.symm, htx ▸ Nat.lt_succ_self _⟩
                    · exact Or.inl ((Slab.get_put_ne _ hlt).symm.trans hl)
                  · intro l tx hl
                    have hlt : l ≠ t := by
                      rintro rfl
                      cases hfree.symm.trans hl
                    exact (Slab.get_put_ne _ hlt).trans hl
                cases register with
                | error e =>
                    obtain ⟨rfl, -⟩ := Prod.mk.inj (Outcome.ret.inj h)
                    exact hmade
                | ok v =>
                    obtain ⟨rfl, -⟩ := Prod.mk.inj (Outcome.ret.inj h)
                    exact hmade

lemma accept_channels {token : Token} {tx : ℕ} {hup : Bool} {answer : AcceptAnswer}
    {read : ReadAnswer} (hl : s.listeners.get token = some tx)
    (h : s.accept proto token tx answer = Outcome.ret u) :
    Channels s (Event.readable token hup answer read) u := by
  cases answer with
  | failed =>
      obtain rfl := Outcome.ret.inj h
      exact Channels.same rfl rfl fun t c hc => kept_conn hc
  | ready slot =>
      obtain ⟨q, hins, h⟩ := Outcome.bind_eq_ret.mp h
      rcases Slab.insert_cases hins with rfl | ⟨t, rfl, hfree, hget, rfl⟩
      · obtain rfl := Outcome.ret.inj h
        exact Channels.same rfl rfl fun t c hc => kept_conn hc
      · obtain rfl := Outcome.ret.inj h
        refine ⟨Nat.le_refl _, fun l tx' hl' => Or.inl hl', fun l tx' hl' => hl', ?_⟩
        intro t' c hc
        rcases put_conn hc with hold | ⟨rfl, rfl⟩
        · exact Or.inl hold
        · exact Or.inr (Or.inr ⟨token, hup, read, rfl, hl⟩)

lemma flushed_channels {t : Token} {k k₀ k' : Connection P} {ws : List Written}
    (hk : s.conns.get t = some k) (hws : k₀.Drained k' ws) (htx : k₀.connTx = k.connTx)
    (hid : k₀.sock.id = k.sock.id) : Channels s e (s.flushed t k') := by
  have htx' : k'.connTx = k.connTx := by
    rw [hws.rest]
    exact htx
  have hid' : k'.sock.id = k.sock.id := by
    rw [hws.sock]
    exact hid
  by_cases hnil : k'.outbuf = []
  · rw [flushed_nil hnil]
    exact Channels.same rfl rfl fun t' c hc => back_conn hk htx' hid' hc
  · rw [flushed_pending hnil]
    refine Channels.same rfl rfl fun t' c hc => ?_
    apply back_conn hk _ _ hc
    · exact htx'
    · exact hid'

/-- **What one event does to the channels.** -/
theorem step_channels (h : s.step proto fuel e = Outcome.ret u) : Channels s e u := by
  cases e with
  | connect hostname port socket slot register connected =>
      obtain ⟨⟨v, r⟩, hv, rfl⟩ := Outcome.map_eq_ret.mp h
      exact connect_channels hv
  | listen addr port socket bind listen slot register =>
      obtain ⟨⟨v, r⟩, hv, rfl⟩ := Outcome.map_eq_ret.mp h
      exact listen_channels hv
  | readable token hup answer read =>
      simp only [step, readable] at h
      cases hl : s.listeners.get token with
      | some tx =>
          rw [hl] at h
          exact accept_channels hl h
      | none =>
          rw [hl] at h
          cases hk : s.conns.get token with
          | none =>
              rw [hk] at h
              obtain rfl := Outcome.ret.inj h
              exact Channels.same rfl rfl fun t c hc => kept_conn hc
          | some k =>
              rw [hk] at h
              obtain ⟨⟨k', msgs⟩, hread, h⟩ := Outcome.bind_eq_ret.mp h
              obtain rfl := Outcome.ret.inj h
              have htx : k'.connTx = k.connTx := by rw [Connection.readAnswered_keeps hread]
              have hid : k'.sock.id = k.sock.id := by rw [Connection.readAnswered_keeps hread]
              cases hup with
              | true =>
                  refine Channels.same rfl rfl fun t c hc => ?_
                  by_cases ht : t = token
                  · subst ht
                    simp [settle] at hc
                  · exact kept_conn (by simpa [settle, Slab.get_remove_ne ht] using hc)
              | false =>
                  refine Channels.same rfl rfl fun t c hc => ?_
                  apply back_conn hk _ _ hc
                  · exact htx
                  · exact hid
  | writable token answers =>
      cases step_moves h with
      | quiet he hq => cases he
      | opened hslot ho => cases hslot
      | absent hc => exact Channels.same rfl rfl fun t c hc => kept_conn hc
      | drained hc hdrain =>
          obtain ⟨⟨ws, hws⟩, -⟩ := Connection.drainWriteQueueToSocket_spec hdrain
          exact flushed_channels hc hws rfl rfl
  | notify answers =>
      cases step_moves h with
      | quiet he hq => cases he
      | opened hslot ho => cases hslot
      | @notified msg queue _ c c' hq hc hdrain =>
          obtain ⟨⟨ws, hws⟩, -⟩ := Connection.drainWriteQueueToSocket_spec hdrain
          have hflushed : Channels { s with queue := queue } (Event.notify answers) _ :=
            flushed_channels hc hws rfl rfl
          exact ⟨hflushed.next, hflushed.listeners, hflushed.stays, hflushed.conns⟩
      | dropped hq hc => exact Channels.same rfl rfl fun t c hc => kept_conn hc
  | send msg =>
      cases step_moves h with
      | quiet he hq => cases he
      | opened hslot ho => cases hslot
      | sent hmem => exact Channels.same rfl rfl fun t c hc => kept_conn hc

/-! ## Channels in use -/

/-- Every channel in use has been made. -/
structure Charted (s : Net P Out) : Prop where
  listeners : ∀ l tx, s.listeners.get l = some tx → tx < s.nextChan
  conns : ∀ t c, s.conns.get t = some c → c.connTx < s.nextChan
  sent : ∀ m ∈ s.sent, m.1 < s.nextChan

lemma Charted.step (h : s.Charted) (hs : s.step proto fuel e = Outcome.ret u) : u.Charted := by
  have hch := step_channels hs
  have hnext := hch.next
  refine ⟨?_, ?_, ?_⟩
  · intro l tx hl
    rcases hch.listeners l tx hl with hold | ⟨-, hlt⟩
    · exact Nat.lt_of_lt_of_le (h.listeners l tx hold) hnext
    · exact hlt
  · intro t c hc
    rcases hch.conns t c hc with ⟨c₀, hc₀, htx, -⟩ | ⟨-, hlt⟩ | ⟨l, -, -, -, hl⟩
    · rw [htx]
      exact Nat.lt_of_lt_of_le (h.conns t c₀ hc₀) hnext
    · exact hlt
    · exact Nat.lt_of_lt_of_le (h.listeners l _ hl) hnext
  · intro m hm
    rcases step_sent hs with hsent | ⟨t', hup, answer, read, k, k', msgs, -, -, hk, -, hsent⟩
    · rw [hsent] at hm
      exact Nat.lt_of_lt_of_le (h.sent m hm) hnext
    · rw [hsent] at hm
      rcases List.mem_append.mp hm with hm | hm
      · exact Nat.lt_of_lt_of_le (h.sent m hm) hnext
      · obtain ⟨m', -, rfl⟩ := List.mem_map.mp hm
        exact Nat.lt_of_lt_of_le (h.conns t' k hk) hnext

lemma charted_reach {es : List Event} (h : Reach (step proto fuel) anyStep (new cfg) es s) :
    s.Charted := by
  refine h.invariant ⟨?_, ?_, ?_⟩ fun t e u ht _ hs => ht.step hs
  · intro l tx hl
    cases hl
  · intro t c hc
    cases hc
  · intro m hm
    cases hm

/-! ## The channel of a client -/

/-- The channel `tx` belongs to the socket `id` under the token `t`. -/
structure Owned (tx : ℕ) (t : Token) (id : ℕ) (s : Net P Out) : Prop where
  made : tx < s.nextChan
  listeners : ∀ l, s.listeners.get l ≠ some tx
  conns : ∀ t' c, s.conns.get t' = some c → c.connTx = tx → t' = t ∧ c.sock.id = id
  sent : ∀ m ∈ s.sent, m.1 = tx → m.2.tok = t

/-- Nobody will send on the channel any more. -/
def Gone (tx : ℕ) (s : Net P Out) : Prop := ∀ t c, s.conns.get t = some c → c.connTx ≠ tx

section Owned

variable {tx id : ℕ} {t : Token}

lemma Owned.step (h : Owned tx t id s) (hs : s.step proto fuel e = Outcome.ret u) :
    Owned tx t id u := by
  have hch := step_channels hs
  have hmade := h.made
  refine ⟨Nat.lt_of_lt_of_le hmade hch.next, ?_, ?_, ?_⟩
  · intro l hl
    rcases hch.listeners l tx hl with hold | ⟨hnew, -⟩
    · exact h.listeners l hold
    · omega
  · intro t' c hc htx
    rcases hch.conns t' c hc with ⟨c₀, hc₀, htx₀, hid⟩ | ⟨hnew, -⟩ | ⟨l, -, -, -, hl⟩
    · rw [hid]
      exact h.conns t' c₀ hc₀ (htx₀.symm.trans htx)
    · omega
    · exact absurd (htx ▸ hl) (h.listeners l)
  · intro m hm hmtx
    rcases step_sent hs with hsent | ⟨t', hup, answer, read, k, k', msgs, -, -, hk, hread, hsent⟩
    · rw [hsent] at hm
      exact h.sent m hm hmtx
    · rw [hsent] at hm
      rcases List.mem_append.mp hm with hm | hm
      · exact h.sent m hm hmtx
      · obtain ⟨m', hm', rfl⟩ := List.mem_map.mp hm
        rw [readAnswered_tok hread m' hm']
        exact (h.conns t' k hk hmtx).1

/-- A channel that is gone stays so, and silent. -/
lemma Gone.step (h : Owned tx t id s) (hgone : Gone tx s)
    (hs : s.step proto fuel e = Outcome.ret u) :
    Gone tx u ∧ u.sent.filter (fun m => decide (m.1 = tx))
      = s.sent.filter fun m => decide (m.1 = tx) := by
  have hch := step_channels hs
  have hmade := h.made
  refine ⟨?_, ?_⟩
  · intro t' c hc htx
    rcases hch.conns t' c hc with ⟨c₀, hc₀, htx₀, -⟩ | ⟨hnew, -⟩ | ⟨l, -, -, -, hl⟩
    · exact hgone t' c₀ hc₀ (htx₀.symm.trans htx)
    · omega
    · exact h.listeners l (htx ▸ hl)
  · rcases step_sent hs with hsent | ⟨t', hup, answer, read, k, k', msgs, -, -, hk, -, hsent⟩
    · rw [hsent]
    · have hne := hgone t' k hk
      have hnone : (msgs.map fun m => (k.connTx, m)).filter (fun m => decide (m.1 = tx)) = [] := by
        simp [List.filter_map, Function.comp_def, hne]
      rw [hsent, List.filter_append, hnone, List.append_nil]

/-- What `connect` returns is its caller's own. -/
lemma owned_connect {hostname : String} {port : ℕ} {socket : Except String Unit}
    {slot : Option Token} {register connected : Except String Unit} (hcharted : s.Charted)
    (h : s.connect proto hostname port socket slot register connected
      = Outcome.ret (u, Except.ok ⟨t, tx⟩)) : Owned tx t s.nextSock u := by
  cases socket with
  | error e => simp [connect] at h
  | ok v =>
      obtain ⟨q, hins, h⟩ := Outcome.bind_eq_ret.mp h
      rcases Slab.insert_cases hins with rfl | ⟨t', rfl, hfree, hget, rfl⟩
      · simp at h
      · cases register with
        | error e => simp at h
        | ok v =>
            cases connected with
            | error e => simp at h
            | ok v =>
                obtain ⟨rfl, hok⟩ := Prod.mk.inj (Outcome.ret.inj h)
                obtain ⟨rfl, rfl⟩ := NetStream.mk.inj (Except.ok.inj hok)
                refine ⟨Nat.lt_succ_self _, ?_, ?_, ?_⟩
                · intro l hl
                  exact Nat.lt_irrefl _ (hcharted.listeners l _ hl)
                · intro t'' c hc htx
                  by_cases ht : t'' = t'
                  · subst ht
                    obtain rfl := Option.some.inj (hget.symm.trans hc)
                    exact ⟨rfl, rfl⟩
                  · have hold := hcharted.conns t'' c ((Slab.get_put_ne _ ht).symm.trans hc)
                    omega
                · intro m hm hmtx
                  have hold := hcharted.sent m hm
                  omega

/-- **A client hears its own connection only.**  `connect` returns a token and a channel.  From then
on, whatever happens to the engine and however often the token is given to other connections: every
message on the channel was read under that token, nobody but the socket that was connected ever has
the channel to send on, and once that connection is gone nothing is sent on it any more. -/
theorem stream_own_data {es fs : List Event} {hostname : String} {port : ℕ}
    {socket : Except String Unit} {slot : Option Token} {register connected : Except String Unit}
    (hs : Reach (step proto fuel) anyStep (new cfg) es s)
    (h : s.connect proto hostname port socket slot register connected
      = Outcome.ret (u, Except.ok ⟨t, tx⟩))
    (hv : Reach (step proto fuel) anyStep u fs v) :
    (∀ m ∈ v.sent, m.1 = tx → m.2.tok = t) ∧
      (∀ t' c, v.conns.get t' = some c → c.connTx = tx → t' = t ∧ c.sock.id = s.nextSock) ∧
      (Gone tx v → ∀ gs w, Reach (step proto fuel) anyStep v gs w →
        w.sent.filter (fun m => decide (m.1 = tx))
          = v.sent.filter fun m => decide (m.1 = tx)) := by
  have howned : Owned tx t s.nextSock v :=
    hv.invariant (owned_connect (charted_reach hs) h) fun _ _ _ ht _ hstep => ht.step hstep
  refine ⟨howned.sent, howned.conns, ?_⟩
  intro hgone gs w hw
  have hall : (Owned tx t s.nextSock w ∧ Gone tx w) ∧ w.sent.filter (fun m => decide (m.1 = tx))
      = v.sent.filter fun m => decide (m.1 = tx) := by
    refine hw.invariant (P := fun w : Net P Out => (Owned tx t s.nextSock w ∧ Gone tx w) ∧
      w.sent.filter (fun m => decide (m.1 = tx))
        = v.sent.filter fun m => decide (m.1 = tx)) ⟨⟨howned, hgone⟩, rfl⟩ ?_
    rintro x e y ⟨⟨hx, hxgone⟩, hxsent⟩ _ hstep
    obtain ⟨hygone, hysent⟩ := hxgone.step hx hstep
    exact ⟨⟨hx.step hstep, hygone⟩, hysent.trans hxsent⟩
  exact hall.2

end Owned

/-! ## The channel of a listener -/

/-- One of the events accepted a connection at the listener, and it got the token. -/
def AcceptedAt (l : Token) (fs : List Event) (t : Token) : Prop :=
  ∃ hup read, Event.readable l hup (AcceptAnswer.ready (some t)) read ∈ fs

/-- The listener at `l` is the only one with the channel, and who else has it was accepted there. -/
structure Listens (tx : ℕ) (l : Token) (fs : List Event) (s : Net P Out) : Prop where
  made : tx < s.nextChan
  only : ∀ l', s.listeners.get l' = some tx → l' = l
  conns : ∀ t c, s.conns.get t = some c → c.connTx = tx → AcceptedAt l fs t
  sent : ∀ m ∈ s.sent, m.1 = tx → AcceptedAt l fs m.2.tok

section Listens

variable {tx : ℕ} {l : Token} {fs : List Event}

lemma AcceptedAt.snoc {t : Token} (h : AcceptedAt l fs t) (e : Event) :
    AcceptedAt l (fs ++ [e]) t := by
  obtain ⟨hup, read, hmem⟩ := h
  exact ⟨hup, read, List.mem_append_left _ hmem⟩

lemma Listens.step (h : Listens tx l fs s) (hs : s.step proto fuel e = Outcome.ret u) :
    Listens tx l (fs ++ [e]) u := by
  have hch := step_channels hs
  have hmade := h.made
  refine ⟨Nat.lt_of_lt_of_le hmade hch.next, ?_, ?_, ?_⟩
  · intro l' hl'
    rcases hch.listeners l' tx hl' with hold | ⟨hnew, -⟩
    · exact h.only l' hold
    · omega
  · intro t c hc htx
    rcases hch.conns t c hc with ⟨c₀, hc₀, htx₀, -⟩ | ⟨hnew, -⟩ | ⟨l', hup, read, rfl, hl'⟩
    · exact (h.conns t c₀ hc₀ (htx₀.symm.trans htx)).snoc e
    · omega
    · obtain rfl := h.only l' (htx ▸ hl')
      exact ⟨hup, read, by simp⟩
  · intro m hm hmtx
    rcases step_sent hs with hsent | ⟨t', hup, answer, read, k, k', msgs, -, -, hk, hread, hsent⟩
    · rw [hsent] at hm
      exact (h.sent m hm hmtx).snoc e
    · rw [hsent] at hm
      rcases List.mem_append.mp hm with hm | hm
      · exact (h.sent m hm hmtx).snoc e
      · obtain ⟨m', hm', rfl⟩ := List.mem_map.mp hm
        rw [readAnswered_tok hread m' hm']
        exact (h.conns t' k hk hmtx).snoc e

lemma listens_listen {addr : String} {port : ℕ} {socket bind listen : Except String Unit}
    {slot : Option Token} {register : Except String Unit} (hcharted : s.Charted)
    (h : s.listen addr port socket bind listen slot register = Outcome.ret (u, Except.ok tx)) :
    ∃ l, slot = some l ∧ Listens tx l [] u := by
  cases socket with
  | error e => simp [Net.listen] at h
  | ok v =>
      cases bind with
      | error e => simp [Net.listen] at h
      | ok v =>
          cases listen with
          | error e => simp [Net.listen] at h
          | ok v =>
              obtain ⟨q, hins, h⟩ := Outcome.bind_eq_ret.mp h
              rcases Slab.insert_cases hins with rfl | ⟨l, rfl, hfree, hget, rfl⟩
              · simp at h
              · cases register with
                | error e => simp at h
                | ok v =>
                    obtain ⟨rfl, hok⟩ := Prod.mk.inj (Outcome.ret.inj h)
                    obtain rfl := Except.ok.inj hok
                    refine ⟨l, rfl, Nat.lt_succ_self _, ?_, ?_, ?_⟩
                    · intro l' hl'
                      by_contra hne
                      exact Nat.lt_irrefl _ (hcharted.listeners l' _
                        ((Slab.get_put_ne _ hne).symm.trans hl'))
                    · intro t c hc htx
                      have hold := hcharted.conns t c hc
                      omega
                    · intro m hm hmtx
                      have hold := hcharted.sent m hm
                      omega

lemma listens_reach (h : Listens tx l [] u) (hv : Reach (step proto fuel) anyStep u fs v) :
    Listens tx l fs v := by
  induction hv with
  | nil => exact h
  | snoc _ _ hstep ih => exact ih.step hstep

/-- **A listener hears the connections that it accepted.**  `listen` returns a channel; whatever
happens to the engine from then on, a message on that channel carries the token of a connection that
was accepted at this listener, and at no other. -/
theorem listener_own_data {es : List Event} {addr : String} {port : ℕ}
    {socket bind listen : Except String Unit} {slot : Option Token} {register : Except String Unit}
    (hs : Reach (step proto fuel) anyStep (new cfg) es s)
    (h : s.listen addr port socket bind listen slot register = Outcome.ret (u, Except.ok tx))
    (hv : Reach (step proto fuel) anyStep u fs v) :
    ∃ l, slot = some l ∧ ∀ m ∈ v.sent, m.1 = tx → AcceptedAt l fs m.2.tok := by
  obtain ⟨l, hslot, hlistens⟩ := listens_listen (charted_reach hs) h
  exact ⟨l, hslot, (listens_reach hlistens hv).sent⟩

end Listens

/-! ### Two connections, one after the other, under one token -/

/-- The first connection reads a word and is hung up; the next one gets its token. -/
def reusedSlot : List Event :=
  [Event.readable 256 true AcceptAnswer.failed (ReadAnswer.ready [1, 2]), Event.connected 256,
    Event.readable 256 false AcceptAnswer.failed (ReadAnswer.ready [3, 4])]

/-- Both connections were heard, but on the channel of the first there is only its own word. -/
theorem stream_own_data_reused : ∃ u v : Net Unit AROIobuf,
    (new NetEngineConfig.defaults : Net Unit AROIobuf).connect (BufProtocol 2) "localhost" 10000
        (Except.ok ()) (some 256) (Except.ok ()) (Except.ok ())
      = Outcome.ret (u, Except.ok ⟨256, 0⟩) ∧
    Reach (step (BufProtocol 2) 1537) anyStep u reusedSlot v ∧
    v.payloads = [(0, [1, 2], 256), (1, [3, 4], 256)] ∧
    ∀ m ∈ v.sent, m.1 = 0 → m.2.tok = 256 := by
  obtain ⟨u, hu, v, hexec, hpay⟩ : ∃ u, (new NetEngineConfig.defaults : Net Unit AROIobuf).connect
      (BufProtocol 2) "localhost" 10000 (Except.ok ()) (some 256) (Except.ok ()) (Except.ok ())
        = Outcome.ret (u, Except.ok ⟨256, 0⟩) ∧
      ∃ v, execute (step (BufProtocol 2) 1537) (fun _ _ => true) u reusedSlot = some v ∧
        v.payloads = [(0, [1, 2], 256), (1, [3, 4], 256)] := ⟨_, rfl, _, rfl, rfl⟩
  have hrun : Reach (step (BufProtocol 2) 1537) anyStep u reusedSlot v :=
    reach_of_execute (fun _ _ _ => trivial) hexec
  exact ⟨u, v, hu, hrun, hpay, (stream_own_data Reach.nil hu hrun).1⟩

/-- A connection is accepted at the listener and read. -/
theorem listener_own_data_accepted : ∃ u v : Net Unit AROIobuf,
    (new NetEngineConfig.defaults : Net Unit AROIobuf).listen "localhost" 10000 (Except.ok ())
        (Except.ok ()) (Except.ok ()) (some 3) (Except.ok ()) = Outcome.ret (u, Except.ok 0) ∧
    Reach (step (BufProtocol 2) 1537) anyStep u
      [Event.readable 3 false (AcceptAnswer.ready (some 300)) ReadAnswer.wouldBlock,
        Event.readable 300 false AcceptAnswer.failed (ReadAnswer.ready [1, 2])] v ∧
    v.payloads = [(0, [1, 2], 300)] ∧
    ∃ l, some (3 : Token) = some l ∧ ∀ m ∈ v.sent, m.1 = 0 → AcceptedAt l
      [Event.readable 3 false (AcceptAnswer.ready (some 300)) ReadAnswer.wouldBlock,
        Event.readable 300 false AcceptAnswer.failed (ReadAnswer.ready [1, 2])] m.2.tok := by
  obtain ⟨u, hu, v, hexec, hpay⟩ : ∃ u, (new NetEngineConfig.defaults : Net Unit AROIobuf).listen
      "localhost" 10000 (Except.ok ()) (Except.ok ()) (Except.ok ()) (some 3) (Except.ok ())
        = Outcome.ret (u, Except.ok 0) ∧
      ∃ v, execute (step (BufProtocol 2) 1537) (fun _ _ => true) u
        [Event.readable 3 false (AcceptAnswer.ready (some 300)) ReadAnswer.wouldBlock,
          Event.readable 300 false AcceptAnswer.failed (ReadAnswer.ready [1, 2])] = some v ∧
        v.payloads = [(0, [1, 2], 300)] := ⟨_, rfl, _, rfl, rfl⟩
  have hrun : Reach (step (BufProtocol 2) 1537) anyStep u _ v :=
    reach_of_execute (fun _ _ _ => trivial) hexec
  have hstart : Reach (step (BufProtocol 2) 1537) anyStep (new NetEngineConfig.defaults) [] _ :=
    Reach.nil
  exact ⟨u, v, hu, hrun, hpay, listener_own_data hstart hu hrun⟩

end Net

end Rx
