import RxRust.Reactor.Moves

/-!
# Delivery to the right socket

A message carries a token, and a token is a slot of the slab.  A slot that is freed by a hang-up can
be given to a new connection while messages for the old one are still on their way; nothing in a
token tells the two apart.

* `Net.Flow` — where bytes and messages can come from in one event, whatever the event.
* `Net.Numbered` — the numbers of the sockets tell them apart, in every run.
* `Net.InTime` — no slot is given out while a message for it is in the queue, and no message is sent
  to a slot that holds another connection than the one it is meant for.
* `Net.delivered_inTime` — in a run of such events every byte goes to the socket it is meant for.
-/

namespace Rx

open Core

namespace Net

variable {P Out : Type} {proto : Protocol P Out} {fuel : ℕ}

/-! ## Where bytes come from -/

/-- Something for the socket `o` waits at the connection `c`, or in the queue for its slot. -/
def Waiting (s : Net P Out) (t : Token) (c : Connection P) (o : ℕ) : Prop :=
  (∃ m ∈ c.outbuf, m.owner = o) ∨ ∃ m ∈ s.queue, m.tok = t ∧ m.owner = o

/-- The connection `c` at `t` has become `k`. -/
structure Grown (s : Net P Out) (t : Token) (c k : Connection P) : Prop where
  id : k.sock.id = c.sock.id
  written : ∀ w ∈ k.sock.written, w ∈ c.sock.written ∨ s.Waiting t c w.owner
  outbuf : ∀ m ∈ k.outbuf, s.Waiting t c m.owner

/-- The connection `k` at `t` is new. -/
structure Fresh (s : Net P Out) (e : Event) (u : Net P Out) (t : Token) (k : Connection P) :
    Prop where
  slot : s.slotOf e = some t
  free : s.conns.get t = none
  sock : k.sock = ⟨s.nextSock, []⟩
  outbuf : k.outbuf = []
  nextSock : s.nextSock < u.nextSock

/-- What one event can do to bytes, messages and sockets. -/
structure Flow (s : Net P Out) (e : Event) (u : Net P Out) : Prop where
  live : ∀ t k, u.conns.get t = some k →
    Fresh s e u t k ∨ ∃ c, s.conns.get t = some c ∧ s.Grown t c k
  closed : ∀ k ∈ u.closed, k ∈ s.closed ∨
    ∃ t c, s.conns.get t = some c ∧ c.sock = k ∧ u.conns.get t = none
  queue : ∀ m ∈ u.queue, m ∈ s.queue ∨ e = Event.send m
  nextSock : s.nextSock ≤ u.nextSock

lemma Grown.refl (s : Net P Out) (t : Token) (c : Connection P) : s.Grown t c c :=
  ⟨rfl, fun _ hw => Or.inl hw, fun m hm => Or.inl ⟨m, hm, rfl⟩⟩

/-- A connection that is drained passes on what waited there. -/
lemma Grown.drained {s : Net P Out} {t : Token} {c k k' : Connection P} {ws : List Written}
    {outbuf : List StreamBuf} (hout : ∀ m ∈ outbuf, s.Waiting t c m.owner)
    (h : ({ c with outbuf := outbuf } : Connection P).Drained k ws)
    (hsock : k'.sock = k.sock) (hbuf : k'.outbuf = k.outbuf) : s.Grown t c k' := by
  refine ⟨?_, ?_, ?_⟩
  · rw [hsock, h.sock]
  · intro w hw
    rw [hsock, h.sock] at hw
    rcases List.mem_append.mp hw with hw | hw
    · exact Or.inl hw
    · obtain ⟨m, hm, hwm⟩ := h.owners w hw
      exact Or.inr (hwm ▸ hout m hm)
  · intro m hm
    rw [hbuf] at hm
    obtain ⟨m', hm', hmm⟩ := h.queued m hm
    exact hmm ▸ hout m' hm'

/-- No connection changes. -/
lemma Flow.idle {s u : Net P Out} {e : Event} (hconns : u.conns = s.conns)
    (hclosed : u.closed = s.closed) (hqueue : ∀ m ∈ u.queue, m ∈ s.queue ∨ e = Event.send m)
    (hnext : s.nextSock ≤ u.nextSock) : Flow s e u := by
  refine ⟨?_, fun k hk => Or.inl (hclosed ▸ hk), hqueue, hnext⟩
  intro t k hk
  rw [hconns] at hk
  exact Or.inr ⟨k, hk, Grown.refl s t k⟩

/-- The connection at `t` is written back as `k`. -/
lemma Flow.put {s u : Net P Out} {e : Event} {t : Token} {c k : Connection P}
    (hc : s.conns.get t = some c) (hgrown : s.Grown t c k) (hconns : u.conns = s.conns.put t k)
    (hclosed : u.closed = s.closed) (hqueue : ∀ m ∈ u.queue, m ∈ s.queue)
    (hnext : u.nextSock = s.nextSock) : Flow s e u := by
  refine ⟨?_, fun k hk => Or.inl (hclosed ▸ hk), fun m hm => Or.inl (hqueue m hm),
    Nat.le_of_eq hnext.symm⟩
  intro t' k' hk'
  rw [hconns] at hk'
  by_cases ht : t' = t
  · subst ht
    obtain rfl : k = k' := Option.some.inj ((Slab.get_put_of_get k hc).symm.trans hk')
    exact Or.inr ⟨c, hc, hgrown⟩
  · rw [Slab.get_put_ne _ ht] at hk'
    exact Or.inr ⟨k', hk', Grown.refl s t' k'⟩

/-- The state after a connection has been drained. -/
lemma Flow.flushed {s : Net P Out} {e : Event} {t : Token} {c k : Connection P}
    {queue : List StreamBuf} (hc : s.conns.get t = some c)
    (hgrown : ∀ k', k'.sock = k.sock → k'.outbuf = k.outbuf → s.Grown t c k')
    (hqueue : ∀ m ∈ queue, m ∈ s.queue) :
    Flow s e (({ s with queue := queue } : Net P Out).flushed t k) := by
  by_cases hnil : k.outbuf = []
  · rw [flushed_nil hnil]
    exact Flow.put hc (hgrown k rfl rfl) rfl rfl hqueue rfl
  · rw [flushed_pending hnil]
    exact Flow.put (k := { k with interest := k.interest.insert Interest.WRITABLE }) hc
      (hgrown _ rfl rfl) rfl rfl hqueue rfl

/-- **Every event.** -/
theorem step_flow {s u : Net P Out} {e : Event} (h : s.step proto fuel e = Outcome.ret u) :
    Flow s e u := by
  cases step_moves h with
  | quiet he hq =>
      refine Flow.idle hq.conns hq.closed ?_ hq.nextSock
      intro m hm
      exact Or.inl (hq.queue ▸ hm)
  | absent hc => exact Flow.idle rfl rfl (fun m hm => Or.inl hm) (Nat.le_refl _)
  | @opened e u t hslot ho =>
      refine ⟨?_, ?_, ?_, ho.nextSock ▸ Nat.le_succ _⟩
      · intro t' k hk
        obtain ⟨tx, hconns, hget⟩ := ho.conn
        by_cases ht : t' = t
        · subst ht
          obtain rfl : _ = k := Option.some.inj (hget.symm.trans hk)
          exact Or.inl ⟨hslot, ho.free, rfl, rfl, ho.nextSock ▸ Nat.lt_succ_self _⟩
        · rw [hconns, Slab.get_put_ne _ ht] at hk
          exact Or.inr ⟨k, hk, Grown.refl s t' k⟩
      · intro k hk
        exact Or.inl (ho.closed ▸ hk)
      · intro m hm
        exact Or.inl (ho.queue ▸ hm)
  | @heard t hup answer read c c' msgs hc hread =>
      have hkeep := Connection.readAnswered_keeps hread
      have hsock : c'.sock = c.sock := by rw [hkeep]
      have hout : c'.outbuf = c.outbuf := by rw [hkeep]
      cases hup with
      | true =>
          refine ⟨?_, ?_, fun m hm => Or.inl hm, Nat.le_refl _⟩
          · intro t' k hk
            by_cases ht : t' = t
            · subst ht
              cases Slab.get_remove.symm.trans hk
            · exact Or.inr ⟨k, (Slab.get_remove_ne ht).symm.trans hk, Grown.refl s t' k⟩
          · intro k hk
            rcases List.mem_append.mp hk with hk | hk
            · exact Or.inl hk
            · obtain rfl := List.mem_singleton.mp hk
              exact Or.inr ⟨t, c, hc, hsock.symm, Slab.get_remove⟩
      | false =>
          refine Flow.put hc ⟨?_, ?_, ?_⟩ rfl rfl (fun m hm => hm) rfl
          · exact congrArg TcpSocket.id hsock
          · intro w hw
            exact Or.inl (hsock ▸ hw)
          · intro m hm
            exact Or.inl ⟨m, hout ▸ hm, rfl⟩
  | @drained t answers c c' hc hdrain =>
      obtain ⟨⟨ws, hws⟩, -⟩ := Connection.drainWriteQueueToSocket_spec hdrain
      exact Flow.flushed hc
        (fun k' => Grown.drained (fun m hm => Or.inl ⟨m, hm, rfl⟩) hws) fun m hm => hm
  | @notified msg queue answers c c' hq hc hdrain =>
      obtain ⟨⟨ws, hws⟩, -⟩ := Connection.drainWriteQueueToSocket_spec hdrain
      have hout : ∀ m ∈ c.outbuf ++ [msg], s.Waiting msg.tok c m.owner := by
        intro m hm
        rcases List.mem_append.mp hm with hm | hm
        · exact Or.inl ⟨m, hm, rfl⟩
        · obtain rfl := List.mem_singleton.mp hm
          exact Or.inr ⟨m, by rw [hq]; exact List.mem_cons_self, rfl, rfl⟩
      exact Flow.flushed hc (fun k' => Grown.drained hout hws)
        fun m hm => by rw [hq]; exact List.mem_cons_of_mem _ hm
  | @dropped msg queue answers hq hc =>
      refine Flow.idle rfl rfl ?_ (Nat.le_refl _)
      intro m hm
      rw [hq]
      exact Or.inl (List.mem_cons_of_mem _ hm)
  | @sent msg hmem =>
      refine Flow.idle rfl rfl ?_ (Nat.le_refl _)
      intro m hm
      rcases List.mem_append.mp hm with hm | hm
      · exact Or.inl hm
      · obtain rfl := List.mem_singleton.mp hm
        exact Or.inr rfl

/-! ## Sockets are told apart by their numbers -/

/-- Live and closed sockets have different numbers, all of them given out already. -/
structure Numbered (s : Net P Out) : Prop where
  live : ∀ t c, s.conns.get t = some c → c.sock.id < s.nextSock
  closed : ∀ k ∈ s.closed, k.id < s.nextSock
  apart : ∀ t t' c c', s.conns.get t = some c → s.conns.get t' = some c' →
    c.sock.id = c'.sock.id → t = t'
  gone : ∀ t c, s.conns.get t = some c → ∀ k ∈ s.closed, k.id ≠ c.sock.id

/-- A live connection after an event has the next number or the number it had before. -/
lemma Flow.id_cases {s u : Net P Out} {e : Event} {t : Token} {k : Connection P} (h : Flow s e u)
    (hk : u.conns.get t = some k) :
    (s.slotOf e = some t ∧ k.sock.id = s.nextSock ∧ s.nextSock < u.nextSock) ∨
      ∃ c, s.conns.get t = some c ∧ k.sock.id = c.sock.id := by
  rcases h.live t k hk with hf | ⟨c, hc, hg⟩
  · exact Or.inl ⟨hf.slot, by rw [hf.sock], hf.nextSock⟩
  · exact Or.inr ⟨c, hc, hg.id⟩

lemma Numbered.step {s u : Net P Out} {e : Event} (hs : s.Numbered) (h : Flow s e u) :
    u.Numbered := by
  refine ⟨?_, ?_, ?_, ?_⟩
  · intro t k hk
    rcases h.id_cases hk with ⟨-, hid, hlt⟩ | ⟨c, hc, hid⟩
    · exact hid ▸ hlt
    · exact hid ▸ Nat.lt_of_lt_of_le (hs.live t c hc) h.nextSock
  · intro k hk
    rcases h.closed k hk with hk | ⟨t, c, hc, rfl, -⟩
    · exact Nat.lt_of_lt_of_le (hs.closed k hk) h.nextSock
    · exact Nat.lt_of_lt_of_le (hs.live t c hc) h.nextSock
  · intro t t' k k' hk hk' heq
    rcases h.id_cases hk with ⟨hslot, hid, -⟩ | ⟨c, hc, hid⟩
    · rcases h.id_cases hk' with ⟨hslot', -, -⟩ | ⟨c', hc', hid'⟩
      · exact Option.some.inj (hslot.symm.trans hslot')
      · have := hs.live t' c' hc'
        omega
    · rcases h.id_cases hk' with ⟨-, hid', -⟩ | ⟨c', hc', hid'⟩
      · have := hs.live t c hc
        omega
      · exact hs.apart t t' c c' hc hc' (by omega)
  · intro t k hk k' hk'
    rcases h.id_cases hk with ⟨-, hid, -⟩ | ⟨c, hc, hid⟩
    · rcases h.closed k' hk' with hk' | ⟨t', c', hc', rfl, -⟩
      · have := hs.closed k' hk'
        omega
      · have := hs.live t' c' hc'
        omega
    · rcases h.closed k' hk' with hk' | ⟨t', c', hc', rfl, hgone⟩
      · rw [hid]
        exact hs.gone t c hc k' hk'
      · intro heq
        obtain rfl : t = t' := hs.apart t t' c c' hc hc' (by omega)
        rw [hgone] at hk
        cases hk

/-! ## Delivery -/

/-- Every byte that a socket took, live or closed, was meant for it. -/
def Delivered (s : Net P Out) : Prop :=
  (∀ t c, s.conns.get t = some c → ∀ w ∈ c.sock.written, w.owner = c.sock.id) ∧
    ∀ k ∈ s.closed, ∀ w ∈ k.written, w.owner = k.id

/-- A slot is given out only when no message for it is in the queue, and a message is sent only to a
slot that is free or still holds the connection it is meant for. -/
def InTime (s : Net P Out) : Event → Prop
  | Event.send msg => (s.conns.get msg.tok).all (fun c => c.sock.id == msg.owner) = true
  | e => (s.slotOf e).all (fun t => s.queue.all fun m => m.tok != t) = true

instance (s : Net P Out) : DecidablePred s.InTime
  | Event.send _ => instDecidableEqBool _ _
  | Event.connect _ _ _ _ _ _ => instDecidableEqBool _ _
  | Event.listen _ _ _ _ _ _ _ => instDecidableEqBool _ _
  | Event.readable _ _ _ _ => instDecidableEqBool _ _
  | Event.writable _ _ => instDecidableEqBool _ _
  | Event.notify _ => instDecidableEqBool _ _

/-- What keeps bytes on the right way. -/
structure Addressed (s : Net P Out) : Prop where
  delivered : s.Delivered
  outbuf : ∀ t c, s.conns.get t = some c → ∀ m ∈ c.outbuf, m.owner = c.sock.id
  queue : ∀ m ∈ s.queue, ∀ c, s.conns.get m.tok = some c → m.owner = c.sock.id

/-- What waits at a connection is meant for it. -/
lemma Addressed.waiting {s : Net P Out} (hs : s.Addressed) {t : Token} {c : Connection P} {o : ℕ}
    (hc : s.conns.get t = some c) (h : s.Waiting t c o) : o = c.sock.id := by
  rcases h with ⟨m, hm, rfl⟩ | ⟨m, hm, rfl, rfl⟩
  · exact hs.outbuf t c hc m hm
  · exact hs.queue m hm c hc

/-- A slot that is given out in time has no message waiting for it. -/
lemma InTime.slot {s : Net P Out} {e : Event} {t : Token} (h : s.InTime e)
    (hslot : s.slotOf e = some t) : ∀ m ∈ s.queue, m.tok ≠ t := by
  have hall : (s.slotOf e).all (fun t => s.queue.all fun m => m.tok != t) = true := by
    cases e with
    | send msg => rfl
    | connect _ _ _ _ _ _ => exact h
    | listen _ _ _ _ _ _ _ => exact h
    | readable _ _ _ _ => exact h
    | writable _ _ => exact h
    | notify _ => exact h
  simpa [hslot] using hall

lemma Addressed.step {s u : Net P Out} {e : Event} (hs : s.Addressed) (h : Flow s e u)
    (hin : s.InTime e) : u.Addressed := by
  refine ⟨⟨?_, ?_⟩, ?_, ?_⟩
  · intro t k hk w hw
    rcases h.live t k hk with hf | ⟨c, hc, hg⟩
    · rw [hf.sock] at hw
      cases hw
    · rw [hg.id]
      rcases hg.written w hw with hw | hw
      · exact hs.delivered.1 t c hc w hw
      · exact hs.waiting hc hw
  · intro k hk w hw
    rcases h.closed k hk with hk | ⟨t, c, hc, rfl, -⟩
    · exact hs.delivered.2 k hk w hw
    · exact hs.delivered.1 t c hc w hw
  · intro t k hk m hm
    rcases h.live t k hk with hf | ⟨c, hc, hg⟩
    · rw [hf.outbuf] at hm
      cases hm
    · rw [hg.id]
      exact hs.waiting hc (hg.outbuf m hm)
  · intro m hm k hk
    rcases h.queue m hm with hm | rfl
    · rcases h.live m.tok k hk with hf | ⟨c, hc, hg⟩
      · exact absurd rfl (hin.slot hf.slot m hm)
      · rw [hg.id]
        exact hs.queue m hm c hc
    · rcases h.live m.tok k hk with hf | ⟨c, hc, hg⟩
      · cases hf.slot
      · rw [InTime, hc, Option.all_some, beq_iff_eq] at hin
        rw [hg.id, hin]

/-- **No misdelivery, as long as slots are given out in time.**  In a run whose events all meet
`InTime`, a socket has taken only bytes that were meant for it; and the numbers by which this is
said do tell the sockets apart. -/
theorem delivered_inTime {cfg : NetEngineConfig} {es : List Event} {s : Net P Out}
    (h : Reach (step proto fuel) InTime (new cfg) es s) : s.Delivered ∧ s.Numbered := by
  have hnew : (new cfg : Net P Out).Addressed ∧ (new cfg : Net P Out).Numbered := by
    refine ⟨⟨⟨?_, ?_⟩, ?_, ?_⟩, ?_, ?_, ?_, ?_⟩ <;> simp [new, Slab.newStartingAt, Slab.get]
  have hall : s.Addressed ∧ s.Numbered :=
    h.invariant (P := fun t => t.Addressed ∧ t.Numbered) hnew fun t e u ht hok hs =>
      ⟨ht.1.step (step_flow hs) hok, ht.2.step (step_flow hs)⟩
  exact ⟨hall.1.delivered, hall.2⟩

/-- A client connects, gets the token 256 and sends a byte; the peer hangs up, and another
connection is made, in the slot `slot`, before the loop takes the byte off its queue. -/
def lateByte (slot : Token) : List Event :=
  [Event.connected 256, Event.send ⟨⟨0, [9], by decide⟩, 256, 0⟩,
    Event.readable 256 true AcceptAnswer.failed ReadAnswer.wouldBlock, Event.connected slot]

/-- In another slot than the old one the new connection is made in time, and the byte is dropped. -/
theorem delivered_other_slot : ∃ s,
    Reach (step (BufProtocol 8) 2) InTime (new NetEngineConfig.defaults)
        (lateByte 257 ++ [Event.notify []]) s ∧ s.Delivered ∧ s.Numbered := by
  obtain ⟨s, hexec⟩ : ∃ s, execute (step (BufProtocol 8) 2) (fun s e => decide (s.InTime e))
      (new NetEngineConfig.defaults) (lateByte 257 ++ [Event.notify []]) = some s := ⟨_, rfl⟩
  have hrun : Reach (step (BufProtocol 8) 2) InTime _ _ s :=
    reach_of_execute (fun s e => of_decide_eq_true) hexec
  exact ⟨s, hrun, delivered_inTime hrun⟩

/-- In the old slot the byte goes to the new connection's socket. -/
theorem misdelivered_same_slot : ∃ s,
    Reach (step (BufProtocol 8) 2) anyStep (new NetEngineConfig.defaults)
        (lateByte 256 ++ [Event.notify [WriteAnswer.ready 1]]) s ∧
      (s.conns.get 256).map (fun c => c.sock) = some ⟨1, [⟨0, [9]⟩]⟩ ∧ ¬ s.Delivered := by
  obtain ⟨s, hexec, hsock⟩ : ∃ s, execute (step (BufProtocol 8) 2) (fun _ _ => true)
      (new NetEngineConfig.defaults) (lateByte 256 ++ [Event.notify [WriteAnswer.ready 1]]) = some s ∧
      (s.conns.get 256).map (fun c => c.sock) = some ⟨1, [⟨0, [9]⟩]⟩ := ⟨_, rfl, rfl⟩
  refine ⟨s, reach_of_execute (fun _ _ _ => trivial) hexec, hsock, ?_⟩
  intro hd
  obtain ⟨c, hc, hcs⟩ := Option.map_eq_some_iff.mp hsock
  have := hd.1 256 c hc ⟨0, [9]⟩ (by rw [hcs]; exact List.mem_cons_self)
  rw [hcs] at this
  cases this

end Net

end Rx
