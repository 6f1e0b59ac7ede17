import RxRust.Reactor.Moves

/-!
# Listening for input

A connection is registered with `READABLE` when it is made, but the field `interest`, from which
every later registration is computed, starts as `HUP`.  Only a `readable` event adds `READABLE` to
the field; `writable` and `notify` register the field as it is, with `WRITABLE`, when the socket
refuses a write.

* `Net.Listening` — every live connection was last registered with `READABLE`.
* `Net.Heard` — a refused write finds `READABLE` in the field.
* `Net.listening_iff` — a run listens throughout exactly when each of its events meets `Heard`.
-/

namespace Rx

open Core

namespace Net

variable {P Out : Type} {proto : Protocol P Out} {fuel : ℕ}

/-- Every live connection was last registered with an interest that contains `READABLE`. -/
def Listening (s : Net P Out) : Prop :=
  ∀ t c, s.conns.get t = some c → ∃ i, s.passed t = some i ∧ i.readable = true

/-- If the event is a write that the socket refuses, the connection's `interest` contains
`READABLE`: it has had a `readable` event before. -/
def Heard (s : Net P Out) : Event → Prop
  | Event.writable t answers => answers.any WriteAnswer.blocks = true →
      (s.conns.get t).all (fun c => c.interest.readable) = true
  | Event.notify answers => answers.any WriteAnswer.blocks = true →
      (s.queue.head?.bind fun msg => s.conns.get msg.tok).all (fun c => c.interest.readable) = true
  | _ => True

instance (s : Net P Out) : DecidablePred s.Heard
  | Event.writable _ _ => inferInstanceAs (Decidable (_ → _))
  | Event.notify _ => inferInstanceAs (Decidable (_ → _))
  | Event.connect _ _ _ _ _ _ => instDecidableTrue
  | Event.listen _ _ _ _ _ _ _ => instDecidableTrue
  | Event.readable _ _ _ _ => instDecidableTrue
  | Event.send _ => instDecidableTrue

lemma listening_new (cfg : NetEngineConfig) : (new cfg : Net P Out).Listening := by
  intro t c h
  cases h

/-- A connection whose interest did not change, or is `READABLE` now, still listens. -/
lemma Listening.kept {s u : Net P Out} {t : Token} {c : Connection P} (hs : s.Listening)
    (hc : s.conns.get t = some c)
    (hu : u.passed t = s.passed t ∨ u.passed t = some Interest.READABLE) :
    ∃ i, u.passed t = some i ∧ i.readable = true := by
  rcases hu with hu | hu
  · rw [hu]
    exact hs t c hc
  · exact ⟨_, hu, rfl⟩

/-- Writing one connection back: the others listen as before. -/
lemma listening_flushed_iff {s : Net P Out} {t : Token} {c c' : Connection P} (hs : s.Listening)
    (hc : s.conns.get t = some c) :
    (s.flushed t c').Listening ↔ (c'.outbuf ≠ [] → c'.interest.readable = true) := by
  by_cases hnil : c'.outbuf = []
  · rw [flushed_nil hnil]
    refine ⟨fun _ h => absurd hnil h, fun _ t' k hk => ?_⟩
    by_cases ht : t' = t
    · subst ht
      exact hs t' c hc
    · exact hs t' k ((Slab.get_put_ne c' ht).symm.trans hk)
  · rw [flushed_pending hnil]
    constructor
    · intro hl _
      obtain ⟨i, hi, hr⟩ := hl t _ (Slab.get_put_of_get _ hc)
      rw [pass_passed, Option.some.injEq] at hi
      subst hi
      simpa [Interest.insert, Interest.WRITABLE] using hr
    · intro hr t' k hk
      by_cases ht : t' = t
      · subst ht
        refine ⟨_, pass_passed _ t' _, ?_⟩
        simp [Interest.insert, hr hnil]
      · rw [pass_passed_ne _ ht]
        exact hs t' k ((Slab.get_put_ne _ ht).symm.trans hk)

/-- A handled read registers with `READABLE`, or removes the connection. -/
lemma Listening.settle {s : Net P Out} (hs : s.Listening) (t : Token) (c : Connection P)
    (hup : Bool) : (s.settle t c hup).Listening := by
  intro t' k hk
  cases hup with
  | true =>
      by_cases ht : t' = t
      · subst ht
        have hnone : (s.settle t' c true).conns.get t' = none := Slab.get_remove
        rw [hnone] at hk
        cases hk
      · exact hs t' k ((Slab.get_remove_ne ht).symm.trans hk)
  | false =>
      by_cases ht : t' = t
      · subst ht
        refine ⟨_, pass_passed _ t' _, ?_⟩
        simp [Interest.insert, Interest.READABLE]
      · obtain ⟨i, hi, hr⟩ := hs t' k ((Slab.get_put_ne _ ht).symm.trans hk)
        exact ⟨i, (pass_passed_ne _ ht).trans hi, hr⟩

/-- An event that is not about output meets `Heard`. -/
lemma heard_of_input {s : Net P Out} {e : Event} (h : e.output = false) : s.Heard e := by
  cases e with
  | writable t answers => cases h
  | notify answers => cases h
  | connect _ _ _ _ _ _ => trivial
  | listen _ _ _ _ _ _ _ => trivial
  | readable _ _ _ _ => trivial
  | send _ => trivial

/-- Only an event that is not about output makes a connection. -/
lemma output_of_slotOf {s : Net P Out} {e : Event} {t : Token} (h : s.slotOf e = some t) :
    e.output = false := by
  cases e with
  | writable t answers => cases h
  | notify answers => cases h
  | send msg => cases h
  | connect _ _ _ _ _ _ => rfl
  | listen _ _ _ _ _ _ _ => rfl
  | readable _ _ _ _ => rfl

/-- **One event.**  From a state that listens, the next one listens exactly when the event meets
`Heard`. -/
lemma listening_step {s u : Net P Out} {e : Event} (hs : s.Listening)
    (h : s.step proto fuel e = Outcome.ret u) : u.Listening ↔ s.Heard e := by
  cases step_moves h with
  | quiet he hq =>
      refine ⟨fun _ => heard_of_input he, fun _ t c hc => ?_⟩
      rw [hq.conns] at hc
      exact hs.kept hc (hq.passed t)
  | absent hc => exact ⟨fun _ _ => by rw [hc]; rfl, fun _ => hs⟩
  | @opened e u t hslot ho =>
      refine ⟨fun _ => heard_of_input (output_of_slotOf hslot), fun _ t' c hc => ?_⟩
      by_cases ht : t' = t
      · subst ht
        exact ho.passed
      · obtain ⟨tx, hconns, -⟩ := ho.conn
        rw [hconns, Slab.get_put_ne _ ht] at hc
        exact hs.kept hc (ho.passed_ne t' ht)
  | heard hc hread =>
      refine ⟨fun _ => trivial, fun _ => Listening.settle ?_ _ _ _⟩
      exact hs
  | @drained t answers c c' hc hdrain =>
      obtain ⟨⟨ws, hws⟩, hleft⟩ := Connection.drainWriteQueueToSocket_spec hdrain
      rw [listening_flushed_iff hs hc, hleft rfl, hws.interest]
      simp only [Heard, hc, Option.all_some]
  | @notified msg queue answers c c' hq hc hdrain =>
      obtain ⟨⟨ws, hws⟩, hleft⟩ := Connection.drainWriteQueueToSocket_spec hdrain
      have hl : ({ s with queue := queue } : Net P Out).Listening := hs
      rw [listening_flushed_iff hl hc, hleft rfl, hws.interest]
      simp only [Heard, hq, List.head?_cons, Option.bind_some, hc, Option.all_some]
  | @dropped msg queue answers hq hc =>
      refine ⟨fun _ _ => ?_, fun _ => hs⟩
      simp only [hq, List.head?_cons, Option.bind_some, hc, Option.all_none]
  | sent hmem => exact ⟨fun _ => trivial, fun _ => hs⟩

/-- **A live connection listens as long as no write is refused before its first read.**  A run of
the engine is listening in every state it passes exactly when each of its events meets `Heard`. -/
theorem listening_iff {cfg : NetEngineConfig} {es : List Event} {s : Net P Out}
    (h : Reach (step proto fuel) anyStep (new cfg) es s) :
    (∀ fs u, fs <+: es → Reach (step proto fuel) anyStep (new cfg) fs u → u.Listening) ↔
      Reach (step proto fuel) Heard (new cfg) es s :=
  Reach.always_iff (listening_new cfg) (fun _ _ _ => listening_step) h

/-- A client connects, gets the token 256 and sends one byte; `reads` happen before the loop takes
the byte off its queue, and the socket refuses it. -/
def refusedByte (reads : List Event) : List Event :=
  Event.connected 256 :: Event.send ⟨⟨0, [7], by decide⟩, 256, 0⟩ :: reads
    ++ [Event.notify [WriteAnswer.wouldBlock]]

/-- A refused write leaves the connection listening if it comes after a read. -/
theorem listening_after_read : ∃ s,
    Reach (step (BufProtocol 8) 2) anyStep (new NetEngineConfig.defaults)
        (refusedByte [Event.readable 256 false AcceptAnswer.failed ReadAnswer.wouldBlock]) s ∧
      ∀ fs u, fs <+: refusedByte
          [Event.readable 256 false AcceptAnswer.failed ReadAnswer.wouldBlock] →
        Reach (step (BufProtocol 8) 2) anyStep (new NetEngineConfig.defaults) fs u →
        u.Listening := by
  obtain ⟨s, hexec⟩ : ∃ s, execute (step (BufProtocol 8) 2) (fun s e => decide (s.Heard e))
      (new NetEngineConfig.defaults)
      (refusedByte [Event.readable 256 false AcceptAnswer.failed ReadAnswer.wouldBlock]) = some s :=
    ⟨_, rfl⟩
  have hheard : Reach (step (BufProtocol 8) 2) Heard _ _ s :=
    reach_of_execute (fun s e => of_decide_eq_true) hexec
  have hrun : Reach (step (BufProtocol 8) 2) anyStep _ _ s := hheard.mono fun _ _ _ => trivial
  exact ⟨s, hrun, (listening_iff hrun).mpr hheard⟩

/-- A refused write before the first read leaves the connection deaf: it is registered with `HUP`
and `WRITABLE` only. -/
theorem deaf_after_refusal : ∃ s,
    Reach (step (BufProtocol 8) 2) anyStep (new NetEngineConfig.defaults) (refusedByte []) s ∧
      (s.conns.get 256).isSome = true ∧
      s.passed 256 = some ⟨false, true, true⟩ ∧ ¬ s.Listening := by
  obtain ⟨s, hexec, hlive, hpassed⟩ : ∃ s, execute (step (BufProtocol 8) 2) (fun _ _ => true)
      (new NetEngineConfig.defaults) (refusedByte []) = some s ∧ (s.conns.get 256).isSome = true ∧
      s.passed 256 = some ⟨false, true, true⟩ := ⟨_, rfl, rfl, rfl⟩
  refine ⟨s, reach_of_execute (fun _ _ _ => trivial) hexec, hlive, hpassed, ?_⟩
  intro hl
  obtain ⟨c, hc⟩ := Option.isSome_iff_exists.mp hlive
  obtain ⟨i, hi, hr⟩ := hl 256 c hc
  rw [hpassed, Option.some.injEq] at hi
  subst hi
  cases hr

end Net

end Rx
