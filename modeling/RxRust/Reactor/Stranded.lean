import RxRust.Reactor.Moves

/-!
# No stranded output

Polling is edge-triggered: a connection whose queue is not empty gets on only when it is told that
its socket is writable, and it is told so only if its last registration asked for it.  `WRITABLE` is
put into the field `interest` when something is left in the queue, and never taken out again, so the
read path, which registers the field too, does not lose it.

* `Net.Armed` — a live connection with a queue was last registered with `WRITABLE`.
* `Net.armed_reach` — so it is in every state the engine reaches.
-/

namespace Rx

open Core

namespace Net

variable {P Out : Type} {proto : Protocol P Out} {fuel : ℕ}

/-- Every live connection with something in its queue was last registered with an interest that
contains `WRITABLE`. -/
def Armed (s : Net P Out) : Prop :=
  ∀ t c, s.conns.get t = some c → c.outbuf ≠ [] →
    ∃ i, s.passed t = some i ∧ i.writable = true

/-- The invariant behind it: the field and the registration both contain `WRITABLE`. -/
def Asking (s : Net P Out) : Prop :=
  ∀ t c, s.conns.get t = some c → c.outbuf ≠ [] →
    c.interest.writable = true ∧ ∃ i, s.passed t = some i ∧ i.writable = true

/-- A connection and its registration that did not change. -/
lemma Asking.kept {s u : Net P Out} {t : Token} {c : Connection P} (hs : s.Asking)
    (hc : s.conns.get t = some c) (hu : u.passed t = s.passed t) (hout : c.outbuf ≠ []) :
    c.interest.writable = true ∧ ∃ i, u.passed t = some i ∧ i.writable = true := by
  rw [hu]
  exact hs t c hc hout

/-- A drained connection asks for a writable event if something is left. -/
lemma Asking.flushed {s : Net P Out} {t : Token} {c : Connection P} (hs : s.Asking)
    (hc : s.conns.get t = some c) (c' : Connection P) : (s.flushed t c').Asking := by
  intro t' k hk hout
  by_cases hnil : c'.outbuf = []
  · rw [flushed_nil hnil] at hk ⊢
    by_cases ht : t' = t
    · subst ht
      obtain rfl : c' = k := Option.some.inj ((Slab.get_put_of_get c' hc).symm.trans hk)
      exact absurd hnil hout
    · exact hs t' k ((Slab.get_put_ne c' ht).symm.trans hk) hout
  · rw [flushed_pending hnil] at hk ⊢
    by_cases ht : t' = t
    · subst ht
      have hput := (Slab.get_put_of_get _ hc).symm.trans hk
      obtain rfl := Option.some.inj hput
      have hw : (c'.interest.insert Interest.WRITABLE).writable = true := Bool.or_true _
      exact ⟨hw, _, pass_passed _ t' _, hw⟩
    · rw [pass_passed_ne _ ht]
      exact hs t' k ((Slab.get_put_ne _ ht).symm.trans hk) hout

/-- A connection that has been read is registered with its field, to which only `READABLE` is
added. -/
lemma Asking.settle {s : Net P Out} {t : Token} {c c' : Connection P} (hs : s.Asking)
    (hc : s.conns.get t = some c) (hout : c'.outbuf = c.outbuf)
    (hinterest : c'.interest = c.interest) (hup : Bool) : (s.settle t c' hup).Asking := by
  intro t' k hk hk'
  cases hup with
  | true =>
      by_cases ht : t' = t
      · subst ht
        cases Slab.get_remove.symm.trans hk
      · exact hs t' k ((Slab.get_remove_ne ht).symm.trans hk) hk'
  | false =>
      by_cases ht : t' = t
      · subst ht
        obtain rfl := Option.some.inj ((Slab.get_put_of_get _ hc).symm.trans hk)
        have hw : (c'.interest.insert Interest.READABLE).writable = true := by
          rw [Interest.insert, hinterest, (hs t' c hc (hout ▸ hk')).1, Bool.true_or]
        exact ⟨hw, _, pass_passed _ t' _, hw⟩
      · obtain ⟨hi, j, hj, hw⟩ := hs t' k ((Slab.get_put_ne _ ht).symm.trans hk) hk'
        exact ⟨hi, j, (pass_passed_ne _ ht).trans hj, hw⟩

/-- **One event** keeps every queue asked for. -/
lemma Asking.step {cfg : NetEngineConfig} {s u : Net P Out} {e : Event} (hs : s.Asking)
    (hlaid : Laid (new cfg) s) (h : s.step proto fuel e = Outcome.ret u) : u.Asking := by
  cases step_moves h with
  | quiet he hq =>
      intro t c hc hout
      rw [hq.conns] at hc
      exact hs.kept hc (hq.passed_out t (not_range_of_get hlaid hc)) hout
  | absent hc => exact hs
  | @opened e u t hslot ho =>
      intro t' c hc hout
      obtain ⟨tx, hconns, hget⟩ := ho.conn
      by_cases ht : t' = t
      · subst ht
        obtain rfl := Option.some.inj (hget.symm.trans hc)
        exact absurd rfl hout
      · rw [hconns, Slab.get_put_ne _ ht] at hc
        exact hs.kept hc (ho.passed_out t' ht (not_range_of_get hlaid hc)) hout
  | @heard t hup answer read c c' msgs hc hread =>
      have hkeep := Connection.readAnswered_keeps hread
      have hout : c'.outbuf = c.outbuf := by rw [hkeep]
      have hinterest : c'.interest = c.interest := by rw [hkeep]
      have hheard : ({ s with
          sent := s.sent ++ msgs.map fun m => (c'.connTx, m)
          handed := s.handed ++ msgs.map fun _ => (c'.sock.id, t) } : Net P Out).Asking := hs
      exact hheard.settle hc hout hinterest hup
  | @drained t answers c c' hc hdrain => exact hs.flushed hc c'
  | @notified msg queue answers c c' hq hc hdrain =>
      have hq' : ({ s with queue := queue } : Net P Out).Asking := hs
      exact hq'.flushed hc c'
  | dropped hq hc => exact hs
  | sent hmem => exact hs

/-- **No stranded output.**  In every state that an engine reaches, by any events with any results
of the sockets, a live connection whose queue is not empty was last registered with `WRITABLE`. -/
theorem armed_reach {cfg : NetEngineConfig} {es : List Event} {s : Net P Out}
    (h : Reach (step proto fuel) anyStep (new cfg) es s) : s.Armed := by
  have hall : Laid (new cfg) s ∧ s.Asking := by
    refine h.invariant (P := fun t => Laid (new cfg) t ∧ t.Asking) ⟨Laid.refl _, ?_⟩ ?_
    · intro t c hc
      cases hc
    · intro t e u ht _ hs
      exact ⟨ht.1.trans (step_laid hs), ht.2.step ht.1 hs⟩
  intro t c hc hout
  exact (hall.2 t c hc hout).2

/-- A byte that the socket refuses waits in the queue of a connection that is registered for more
than a hang-up. -/
theorem armed_refused : ∃ s,
    Reach (step (BufProtocol 8) 2) anyStep (new NetEngineConfig.defaults)
        [Event.connected 256, Event.send ⟨⟨0, [1], by decide⟩, 256, 0⟩,
          Event.notify [WriteAnswer.wouldBlock],
          Event.readable 256 false AcceptAnswer.failed ReadAnswer.wouldBlock] s ∧
      (s.conns.get 256).map (fun c => c.outbuf.length) = some 1 ∧
      s.passed 256 = some ⟨true, true, true⟩ ∧ s.Armed := by
  obtain ⟨s, hexec, hout, hpassed⟩ : ∃ s, execute (step (BufProtocol 8) 2) (fun _ _ => true)
      (new NetEngineConfig.defaults) [Event.connected 256,
        Event.send ⟨⟨0, [1], by decide⟩, 256, 0⟩, Event.notify [WriteAnswer.wouldBlock],
        Event.readable 256 false AcceptAnswer.failed ReadAnswer.wouldBlock] = some s ∧
      (s.conns.get 256).map (fun c => c.outbuf.length) = some 1 ∧
      s.passed 256 = some ⟨true, true, true⟩ := ⟨_, rfl, rfl, rfl⟩
  have hrun : Reach (step (BufProtocol 8) 2) anyStep _ _ s :=
    reach_of_execute (fun _ _ _ => trivial) hexec
  exact ⟨s, hrun, hout, hpassed, armed_reach hrun⟩

end Net

end Rx
