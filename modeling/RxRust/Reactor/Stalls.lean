import RxRust.Reactor.Backpressure

/-!
# Waiting for a receiver

A `send` on a full channel waits in the one thread that serves all the connections.

* `Loop.Owes` — how many messages the handler has yet to send, and on which channel.
* `owes_step` — every message it sends is taken or waits, and it comes back with none left.
* **`loop_waits`** — the handler comes back after so many more reads of its channel as there is no
  room for, and before that the engine serves nobody.
-/

namespace Rx

open Core

namespace Backpressure

variable {P Out : Type} {proto : Protocol P Out} {s u : State P Out} {cfg : NetEngineConfig}
  {tx : ℕ}

/-- The protocol finds so many more items in the view. -/
inductive Left (proto : Protocol P Out) : P → AROIobuf → ℕ → Prop
  | done {p p' : P} {abuf : AROIobuf} : proto.append p abuf = Outcome.ret (p', none) →
      Left proto p abuf 0
  | more {p p' : P} {abuf remaining : AROIobuf} {item : Out} {consumed n : ℕ} :
      proto.append p abuf = Outcome.ret (p', some (item, remaining, consumed)) →
      Left proto p' remaining n → Left proto p abuf (n + 1)

/-- The handler has yet to send `n` messages on the channel. -/
def Loop.Owes (proto : Protocol P Out) (tx n : ℕ) : Loop P Out → Prop
  | idle => False
  | decoding r => r.c.connTx = tx ∧ Left proto r.c.proto r.abuf n
  | sending r _ remaining _ => r.c.connTx = tx ∧ ∃ m, n = m + 1 ∧ Left proto r.c.proto remaining m

/-- The engine has served nobody: no connection, no listener and no other channel. -/
structure Unserved (tx : ℕ) (s u : State P Out) : Prop where
  listeners : u.net.listeners = s.net.listeners
  conns : u.net.conns = s.net.conns
  passed : u.net.passed = s.net.passed
  closed : u.net.closed = s.net.closed
  channels : ∀ tx' ≠ tx, u.net.channel tx' = s.net.channel tx'

lemma Unserved.refl (tx : ℕ) (s : State P Out) : Unserved tx s s :=
  ⟨rfl, rfl, rfl, rfl, fun _ _ => rfl⟩

lemma Unserved.trans {tx : ℕ} {s t u : State P Out} (h₁ : Unserved tx s t)
    (h₂ : Unserved tx t u) : Unserved tx s u :=
  ⟨h₂.listeners.trans h₁.listeners, h₂.conns.trans h₁.conns, h₂.passed.trans h₁.passed,
    h₂.closed.trans h₁.closed, fun tx' htx => (h₂.channels tx' htx).trans (h₁.channels tx' htx)⟩

variable {n : ℕ}

/-- **One event while the handler waits**: it comes back only with nothing left to send, and every
message it sends is either taken or waits in the channel. -/
lemma owes_step (howes : s.loop.Owes proto tx n) (halive : s.gone tx = false) {e : Event}
    (hne : e ≠ Event.drop tx) (hs : step proto s e = Outcome.ret u) :
    n = 0 ∨ (u.gone tx = false ∧ Unserved tx s u ∧ ∃ m, u.loop.Owes proto tx m ∧
      (u.buffer tx).length + (e.takes tx).toNat + m = (s.buffer tx).length + n) := by
  cases step_moves hs with
  | posted hmem => exact Or.inr ⟨halive, ⟨rfl, rfl, rfl, rfl, fun _ _ => rfl⟩, n, howes, rfl⟩
  | whole hidle hreads hnet =>
      rw [hidle] at howes
      exact howes.elim
  | begun hidle hl hc hlen hslice =>
      rw [hidle] at howes
      exact howes.elim
  | finished hloop happend =>
      rw [hloop] at howes
      obtain ⟨-, hleft⟩ := howes
      cases hleft with
      | done _ => exact Or.inl rfl
      | more hmore _ =>
          rw [happend] at hmore
          cases hmore
  | found hloop happend =>
      rw [hloop] at howes
      obtain ⟨rfl, hleft⟩ := howes
      cases hleft with
      | done hdone =>
          rw [happend] at hdone
          cases hdone
      | @more _ _ _ _ _ _ m hmore hrest =>
          rw [happend] at hmore
          cases hmore
          exact Or.inr ⟨halive, ⟨rfl, rfl, rfl, rfl, fun _ _ => rfl⟩, _, ⟨rfl, m, rfl, hrest⟩, rfl⟩
  | @lost r item remaining consumed hloop hgone =>
      rw [hloop] at howes
      obtain ⟨rfl, -⟩ := howes
      rw [halive] at hgone
      cases hgone
  | @kept r item remaining consumed hloop hgone hroom =>
      rw [hloop] at howes
      obtain ⟨rfl, m, rfl, hleft⟩ := howes
      refine Or.inr ⟨halive, ⟨rfl, rfl, rfl, rfl, fun _ => channel_tell_ne _ _ _⟩, m,
        ⟨rfl, hleft⟩, ?_⟩
      simp [Event.takes, Nat.add_assoc, Nat.add_comm]
  | @taken tx' msg rest hgone hbuffer =>
      refine Or.inr ⟨halive, ⟨rfl, rfl, rfl, rfl, fun _ _ => rfl⟩, n, howes, ?_⟩
      by_cases htx : tx' = tx
      · subst htx
        simp [Event.takes, hbuffer]
      · simp [Event.takes, htx, Ne.symm htx]
  | @handed r item remaining consumed hloop hgone hbuffer hsize =>
      rw [hloop] at howes
      obtain ⟨rfl, m, rfl, hleft⟩ := howes
      refine Or.inr ⟨halive, ⟨rfl, rfl, rfl, rfl, fun _ => channel_tell_ne _ _ _⟩, m,
        ⟨rfl, hleft⟩, ?_⟩
      simp [Event.takes, Nat.add_assoc, Nat.add_comm]
  | @dropped tx' hgone =>
      have htx : tx ≠ tx' := by
        rintro rfl
        exact hne rfl
      exact Or.inr ⟨by simpa [htx] using halive, ⟨rfl, rfl, rfl, rfl, fun _ _ => rfl⟩, n, howes,
        by simp [Event.takes, htx]⟩

/-- Throughout a run in which the channel is not dropped, what was sent on it was taken or waits. -/
lemma owes_reach {fs : List Event} {t : State P Out} (howes : s.loop.Owes proto tx n)
    (halive : s.gone tx = false) (hfilled : Filled s)
    (hfew : fs.countP (Event.takes tx) < n - (s.net.config.queueSize - (s.buffer tx).length))
    (h : Reach (step proto) (fun _ e => e ≠ Event.drop tx) s fs t) :
    t.gone tx = false ∧ Unserved tx s t ∧ Filled t ∧ t.net.config = s.net.config ∧
      ∃ m, t.loop.Owes proto tx m ∧ (t.buffer tx).length + fs.countP (Event.takes tx) + m
        = (s.buffer tx).length + n := by
  induction h with
  | nil => exact ⟨halive, Unserved.refl tx s, hfilled, rfl, n, howes, by simp⟩
  | @snoc fs t u e _ hne hs ih =>
      rw [List.countP_append, List.countP_singleton] at hfew
      obtain ⟨halive', hsame, hfilled', hconfig, m, howes', hcount⟩ := ih (by omega)
      have hbounded := (hfilled' tx).bounded
      rw [hconfig] at hbounded
      rcases owes_step howes' halive' hne hs with rfl | ⟨halive'', hsame', m', howes'', hcount'⟩
      · -- everything sent would be taken or wait, and for that there is no room
        omega
      · refine ⟨halive'', hsame.trans hsame', hfilled'.step hs, (config_step hs).trans hconfig, m',
          howes'', ?_⟩
        rw [List.countP_append, List.countP_singleton]
        cases htakes : e.takes tx with
        | true =>
            simp only [htakes, Bool.toNat_true] at hcount'
            simp only [if_true]
            omega
        | false =>
            simp only [htakes, Bool.toNat_false] at hcount'
            simp only [Bool.false_eq_true, if_false]
            omega

/-- The handler comes back after as many reads of its channel as there is no room for. -/
lemma comes_back {r : Reading P} (hloop : s.loop = Loop.decoding r) (htx : r.c.connTx = tx)
    (hleft : Left proto r.c.proto r.abuf n) (halive : s.gone tx = false)
    (hbounded : (s.buffer tx).length ≤ s.net.config.queueSize) :
    ∃ fs t, Reach (step proto) (Helps tx) s fs t ∧ t.loop = Loop.idle ∧
      fs.countP (Event.takes tx) = n - (s.net.config.queueSize - (s.buffer tx).length) := by
  induction n generalizing s r with
  | zero =>
      cases hleft with
      | done happend =>
          refine ⟨[Event.turn], _, Reach.single (Or.inl rfl)
            (step_of_moves (Moves.finished hloop happend)), rfl, ?_⟩
          simp [Event.takes]
  | succ n ih =>
      cases hleft with
      | @more _ p _ remaining item consumed _ happend hrest =>
          let t : State P Out := { s with
            loop := Loop.sending { r with c := { r.c with proto := p } } item remaining consumed }
          have hfound : step proto s Event.turn = Outcome.ret t :=
            step_of_moves (Moves.found hloop happend)
          obtain ⟨fs, u, hsend, huloop, hugone, -, hubounded, hcount⟩ :=
            send_one proto (s := t) rfl htx halive hbounded
          have hualive : u.gone tx = false := (congrFun hugone tx).trans halive
          obtain ⟨gs, v, hback, hidle, hrestcount⟩ := ih huloop htx hrest hualive hubounded
          have hturn : Reach (step proto) (Helps tx) s [Event.turn] t :=
            Reach.single (Or.inl rfl) hfound
          refine ⟨[Event.turn] ++ fs ++ gs, v, (hturn.append hsend).append hback, hidle, ?_⟩
          have hn := hcount n
          simp only [List.countP_append, List.countP_singleton, hrestcount]
          simpa [Event.takes] using hn

/-- **A receiver that does not read stops the engine.**  In every state that can be reached, let the
handler have `n` messages yet to send on a channel that has a receiver and room for `k` of them.  It
comes back if that channel is read `n - k` times, and nothing else need happen; and as long as it is
not, whatever else happens, the handler does not come back and the engine serves nobody. -/
theorem loop_waits {es : List Event} (h : Reach (step proto) anyStep (start cfg) es s)
    (howes : s.loop.Owes proto tx n) (halive : s.gone tx = false) :
    (∃ fs t, Reach (step proto) (Helps tx) s fs t ∧ t.loop = Loop.idle ∧
      fs.countP (Event.takes tx) = n - (cfg.queueSize - (s.buffer tx).length)) ∧
    ∀ fs t, Reach (step proto) (fun _ e => e ≠ Event.drop tx) s fs t →
      fs.countP (Event.takes tx) < n - (cfg.queueSize - (s.buffer tx).length) →
      t.loop ≠ Loop.idle ∧ Unserved tx s t := by
  obtain ⟨hfilled, hconfig⟩ := filled_reach h
  have hbounded := (hfilled tx).bounded
  rw [← hconfig]
  refine ⟨?_, ?_⟩
  · cases hloop : s.loop with
    | idle =>
        rw [hloop] at howes
        exact howes.elim
    | decoding r =>
        rw [hloop] at howes
        exact comes_back hloop howes.1 howes.2 halive hbounded
    | sending r item remaining consumed =>
        rw [hloop] at howes
        obtain ⟨htx, m, rfl, hleft⟩ := howes
        obtain ⟨fs, u, hsend, huloop, hugone, -, hubounded, hcount⟩ :=
          send_one proto hloop htx halive hbounded
        have hualive : u.gone tx = false := (congrFun hugone tx).trans halive
        obtain ⟨gs, v, hback, hidle, hrest⟩ := comes_back huloop htx hleft hualive hubounded
        refine ⟨fs ++ gs, v, hsend.append hback, hidle, ?_⟩
        rw [List.countP_append, hrest]
        exact hcount m
  · intro fs t hrun hfew
    obtain ⟨-, hsame, -, -, m, howes', -⟩ := owes_reach howes halive hfilled hfew hrun
    refine ⟨?_, hsame⟩
    intro hidle
    rw [hidle] at howes'
    exact howes'

/-- One read is needed, and before it nothing moves. -/
theorem loop_waits_crowded : ∃ s : State Unit AROIobuf,
    Reach (step (BufProtocol 2)) anyStep (start narrow) crowded s ∧
      (∃ fs t, Reach (step (BufProtocol 2)) (Helps 0) s fs t ∧ t.loop = Loop.idle ∧
        fs.countP (Event.takes 0) = 1) ∧
      ∀ fs t, Reach (step (BufProtocol 2)) (fun _ e => e ≠ Event.drop 0) s fs t →
        fs.countP (Event.takes 0) < 1 → t.loop ≠ Loop.idle ∧ Unserved 0 s t := by
  obtain ⟨s, hexec, r, item, remaining, consumed, hloop, htx, happend, halive, hlen⟩ :
      ∃ s : State Unit AROIobuf,
        execute (step (BufProtocol 2)) (fun _ _ => true) (start narrow) crowded = some s ∧
        ∃ r item remaining consumed, s.loop = Loop.sending r item remaining consumed ∧
          r.c.connTx = 0 ∧ (BufProtocol 2).append r.c.proto remaining = Outcome.ret ((), none) ∧
          s.gone 0 = false ∧ (s.buffer 0).length = 1 :=
    ⟨_, rfl, _, _, _, _, rfl, rfl, rfl, rfl, rfl⟩
  have hrun : Reach (step (BufProtocol 2)) anyStep (start narrow) crowded s :=
    reach_of_execute (fun _ _ _ => trivial) hexec
  have howes : s.loop.Owes (BufProtocol 2) 0 1 := by
    rw [hloop]
    exact ⟨htx, 0, rfl, Left.done happend⟩
  have hwaits := loop_waits hrun howes halive
  rw [hlen] at hwaits
  exact ⟨s, hrun, hwaits⟩

end Backpressure

end Rx
