import RxRust.Stream.PipelineRun
import RxRust.Stream.TakeAlgebra

/-!
# What `Take` consumes

`Take(n)` compares its counter when a value comes in, so it finds out that it has had enough only
from the value after the last one it hands on.  A run over a source with more than `n` items pulls
one item too many and drops it; and over a channel that holds exactly `n` messages and stays open it
waits for a message it does not want.

* `ConsumesOnly` — what a run that consumes only what is taken does, for any publisher.
* `wanted_take` — which items `Take(n)` answers `true` for.
* `blocks_of_open`, `pulls_one_more` — what goes wrong.
* **`consumesOnly_iff`** — for which sources nothing does.
-/

namespace Rx

open Core

section Runs

variable {P : Type} {next : P → Outcome (P × Bool)}

/-- One more call that answers `true`. -/
lemma runsOn_snoc {k : ℕ} {p q r : P} (h : runsOn next k p q)
    (hr : next q = Outcome.ret (r, true)) :
    runsOn next (k + 1) p r := by
  induction k generalizing p with
  | zero =>
      obtain rfl : p = q := h
      exact ⟨r, hr, rfl⟩
  | succ k ih =>
      obtain ⟨p', hp', hrest⟩ := h
      exact ⟨p', hp', ih hrest⟩

/-- Where the loop goes on, it goes on as from there. -/
lemma run_of_runsOn {k : ℕ} {p q : P} (h : runsOn next k p q) (fuel : ℕ) :
    run next (k + fuel) p = run next fuel q := by
  induction k generalizing p with
  | zero =>
      obtain rfl : p = q := h
      rw [Nat.zero_add]
  | succ k ih =>
      obtain ⟨p', hp', hrest⟩ := h
      rw [Nat.succ_add, run, hp', Outcome.ret_bind, ← ih hrest]
      rfl

/-- A call that does not come back: the loop does not come back either. -/
lemma run_stuck_of_runsOn {k : ℕ} {p q : P} (h : runsOn next k p q)
    (hq : next q = Outcome.stuck) (fuel : ℕ) : run next fuel p = Outcome.stuck := by
  induction k generalizing p fuel with
  | zero =>
      obtain rfl : p = q := h
      cases fuel with
      | zero => rfl
      | succ fuel => rw [run, hq, Outcome.stuck_bind]
  | succ k ih =>
      obtain ⟨p', hp', hrest⟩ := h
      cases fuel with
      | zero => rfl
      | succ fuel =>
          rw [run, hp', Outcome.ret_bind, ← ih hrest fuel]
          rfl

end Runs

/-- A run from `p` with the limit `n`, where `items` are the items still to come and `seen` is what
has been delivered: it never pulls more than `n` items, and when there are `n` of them it returns
with the others still there, the `n`-th having been delivered and then the completion. -/
structure ConsumesOnly {P I : Type} (next : P → Outcome (P × Bool)) (items : P → List I)
    (seen : P → Option (List (Received I))) (n : ℕ) (p : P) : Prop where
  pulled : ∀ q, (∃ k, runsOn next k p q) ∨ (∃ fuel, run next fuel p = Outcome.ret q) →
    (items p).length ≤ (items q).length + n
  completes : 1 ≤ n → n ≤ (items p).length → ∃ N q,
    (∀ fuel, N ≤ fuel → run next fuel p = Outcome.ret q) ∧ items q = (items p).drop n ∧
      seen q = some (((items p).take n).map (fun x => Received.next x true)
        ++ [Received.complete false])

/-- A run that pulls an item after `n` calls that pulled one each. -/
lemma not_consumesOnly_of_next {P I : Type} {next : P → Outcome (P × Bool)} {items : P → List I}
    {seen : P → Option (List (Received I))} {n : ℕ} {p q r : P} {b : Bool} (h : runsOn next n p q)
    (hr : next q = Outcome.ret (r, b)) (hitems : (items r).length + n < (items p).length) :
    ¬ ConsumesOnly next items seen n p := by
  intro hc
  have hreached : (∃ k, runsOn next k p r) ∨ ∃ fuel, run next fuel p = Outcome.ret r := by
    cases b with
    | true => exact Or.inl ⟨n + 1, runsOn_snoc h hr⟩
    | false =>
        refine Or.inr ⟨n + 1, ?_⟩
        rw [run_of_runsOn h, run, hr]
        rfl
  have hpulled := hc.pulled r hreached
  omega

/-! ## `Take` alone -/

/-- A `Take` and nothing else. -/
abbrev justTake (I : Type) (n : UInt64) : Chain ((UInt64 × Bool) × Unit) (fun T => Take T) I I :=
  Chain.cons (Proc.take n) Chain.nil

section Take

variable {I T : Type} {n : UInt64} {o : Observer T I}

lemma callsFor_take (n : UInt64) (xs : List I) (x : I) :
    (justTake I n).callsFor xs x
      = ((Proc.take (I := I) n).push
          ((Proc.take (I := I) n).transducer.run (0, false) (xs.map Signal.next)).1 x).2 := by
  rw [Chain.callsFor, Chain.step_one, Chain.transducer_cons_run]
  rfl

/-- Up to the limit the items go through. -/
lemma calls_take {xs : List I} (h : xs.length ≤ n.toNat) :
    (justTake I n).calls xs = xs.map Signal.next := by
  have hrun : ((Proc.take (I := I) n).transducer.run (0, false) (xs.map Signal.next)).2
      = xs.map Signal.next := Proc.take_run_map_next fun _ => h
  rw [Chain.calls, Chain.transducer_cons_run]
  show ((Chain.nil : Chain Unit _ I I).transducer.run ()
    ((Proc.take (I := I) n).transducer.run (0, false) (xs.map Signal.next)).2).2 = _
  rw [hrun]
  exact congrArg Prod.snd (Transducer.run_ident () _)

/-- An item below the limit is wanted. -/
lemma wanted_take (ho : o.AlwaysTrue) (t : T) {xs : List I} (x : I) (h : xs.length < n.toNat) :
    Wanted (justTake I n) o t xs x := by
  rw [Wanted, Observer.wants_eq_true_iff ho, callsFor_take,
    Proc.take_push_of_lt x (by simpa using h)]
  simp

lemma allWanted_take (ho : o.AlwaysTrue) (t : T) {xs : List I} (h : xs.length ≤ n.toNat) :
    AllWanted (justTake I n) o t xs := by
  rintro a x b rfl
  refine wanted_take ho t x ?_
  simp only [List.length_append, List.length_cons] at h
  omega

/-- The answers of an observer that never asks for a stop. -/
lemma answers_map_next (ho : o.AlwaysTrue) (t : T) (xs : List I) :
    o.answers t (xs.map Signal.next) = xs.map fun x => Received.next x true := by
  induction xs generalizing t with
  | nil => rfl
  | cons x xs ih =>
      rw [List.map_cons, List.map_cons, Observer.answers, ho t x, ih]

/-! ## Coupled to a channel -/

/-- The run of a `Coupler` over the channel. -/
abbrev takeCoupled (n : UInt64) (o : Observer T I) :
    Coupler I (Take (Watched T I)) → Outcome (Coupler I (Take (Watched T I)) × Bool) :=
  Coupler.next (chainSub (justTake I n) o)

/-- What has been delivered to the terminal subscriber behind a `Take`. -/
def deliveredBy (n : UInt64) (s : Option (Take (Watched T I))) : Option (List (Received I)) :=
  (s.bind (justTake I n).terminal).map Watched.seen

lemma coupled_eq (rx : Receiver I) (n : UInt64) (o : Observer T I) (t : T) :
    coupled rx (justTake I n) o t
      = ⟨rx, some ((justTake I n).settled o (o.onSubscribe t 0) [])⟩ := by
  simp only [coupled, Coupler.subscribe, Coupler.new, subscribed]
  rw [Chain.onSubscribe_build]
  rfl

/-- One message. -/
lemma next_message (t : T) (xs ys : List I) (x : I) (connected : Bool) :
    takeCoupled n o ⟨⟨x :: ys, connected⟩, some ((justTake I n).settled o t xs)⟩
      = Outcome.ret (⟨⟨ys, connected⟩, some ((justTake I n).settled o t (xs ++ [x]))⟩,
          decide (Wanted (justTake I n) o t xs x)) := by
  simp [takeCoupled, Coupler.next, Receiver.recv, onNext_settled]

/-- The first messages, as many as are taken. -/
lemma runsOn_messages (ho : o.AlwaysTrue) (t : T) (rx : Receiver I) {k : ℕ} (hk : k ≤ n.toNat)
    (hlen : k ≤ rx.queue.length) :
    runsOn (takeCoupled n o) k ⟨rx, some ((justTake I n).settled o t [])⟩
      ⟨⟨rx.queue.drop k, rx.connected⟩, some ((justTake I n).settled o t (rx.queue.take k))⟩ := by
  induction k with
  | zero => exact rfl
  | succ k ih =>
      have hlt : k < rx.queue.length := hlen
      refine runsOn_snoc (ih (by omega) (by omega)) ?_
      have hwanted : Wanted (justTake I n) o t (rx.queue.take k) (rx.queue.get ⟨k, hlt⟩) :=
        wanted_take ho t _ (by rw [List.length_take]; omega)
      rw [List.drop_eq_getElem_cons hlt, next_message, List.take_succ_eq_append_getElem hlt]
      simpa using hwanted

/-- With more messages than are taken, one more is pulled. -/
lemma pulls_one_more (ho : o.AlwaysTrue) (t : T) {rx : Receiver I} (h : n.toNat < rx.queue.length) :
    ¬ ConsumesOnly (takeCoupled n o) (fun q => q.dataRx.queue) (fun q => deliveredBy n q.subscriber)
      n.toNat (coupled rx (justTake I n) o t) := by
  rw [coupled_eq]
  have hreach := runsOn_messages ho (o.onSubscribe t 0) rx (Nat.le_refl n.toNat) (by omega)
  rw [List.drop_eq_getElem_cons h] at hreach
  refine not_consumesOnly_of_next hreach (next_message _ _ _ _ _) ?_
  show (rx.queue.drop (n.toNat + 1)).length + n.toNat < rx.queue.length
  rw [List.length_drop]
  omega

/-- With as many messages as are taken and a sender left, the run does not come back. -/
lemma blocks_of_open (ho : o.AlwaysTrue) (t : T) {rx : Receiver I}
    (h : rx.queue.length = n.toNat) (hopen : rx.connected = true) (fuel : ℕ) :
    run (takeCoupled n o) fuel (coupled rx (justTake I n) o t) = Outcome.stuck := by
  rw [coupled_eq]
  have hreach := runsOn_messages ho (o.onSubscribe t 0) rx (Nat.le_refl n.toNat) (by omega)
  rw [← h, List.drop_length, hopen] at hreach
  exact run_stuck_of_runsOn hreach rfl fuel

/-- Over a source that holds as many items as are taken and then ends, the run takes them and
completes. -/
lemma take_all (ho : o.AlwaysTrue) (t : T) {xs : List I} (h : xs.length ≤ n.toNat) :
    ∃ w, RunEnds xs (justTake I n) o t w [] ∧
      w.seen = xs.map (fun x => Received.next x true) ++ [Received.complete false] := by
  rcases run_pipeline xs (justTake I n) o t with ⟨-, hend⟩ | ⟨a, x, b, hxs, -, hx, -⟩
  · refine ⟨_, hend, ?_⟩
    rw [calls_take h, answers_map_next ho]
  · exact absurd (allWanted_take ho _ h a x b hxs) hx

lemma consumesOnly_coupled_iff (ho : o.AlwaysTrue) (t : T) (rx : Receiver I) :
    ConsumesOnly (takeCoupled n o) (fun q => q.dataRx.queue) (fun q => deliveredBy n q.subscriber)
        n.toNat (coupled rx (justTake I n) o t) ↔
      rx.queue.length < n.toNat ∨
        (rx.queue.length = n.toNat ∧ (rx.connected = false ∨ n.toNat = 0)) := by
  constructor
  · intro h
    rcases Nat.lt_trichotomy rx.queue.length n.toNat with hlt | heq | hgt
    · exact Or.inl hlt
    · refine Or.inr ⟨heq, ?_⟩
      by_contra hnot
      rw [not_or, Bool.not_eq_false] at hnot
      obtain ⟨N, q, hrun, -⟩ := h.completes (by omega) (by rw [← heq]; exact Nat.le_refl _)
      have hstuck := blocks_of_open (o := o) ho t heq hnot.1 N
      cases (hrun N (Nat.le_refl N)).symm.trans hstuck
    · exact absurd h (pulls_one_more ho t hgt)
  · intro hcond
    have hle : rx.queue.length ≤ n.toNat := by
      rcases hcond with hlt | ⟨heq, -⟩
      · exact Nat.le_of_lt hlt
      · exact Nat.le_of_eq heq
    refine ⟨?_, ?_⟩
    · intro q _
      show rx.queue.length ≤ _ + n.toNat
      omega
    · intro hpos hlen
      have heq : rx.queue.length = n.toNat := Nat.le_antisymm hle hlen
      obtain ⟨queue, connected⟩ := rx
      have hclosed : connected = false := by
        rcases hcond with hlt | ⟨-, hclosed | hzero⟩
        · exact absurd heq (Nat.ne_of_lt hlt)
        · exact hclosed
        · omega
      subst hclosed
      obtain ⟨w, hend, hseen⟩ := take_all (n := n) ho t hle
      obtain ⟨N, q, hrun, hqueue, hterm⟩ := hend.coupled
      refine ⟨N, q, hrun, ?_, ?_⟩
      · show q.dataRx.queue = queue.drop n.toNat
        rw [hqueue, ← heq, List.drop_length]
      · show deliveredBy n q.subscriber = _
        rw [deliveredBy, hterm, Option.map_some, hseen]
        show _ = some ((queue.take n.toNat).map _ ++ _)
        rw [← heq, List.take_length]

/-! ## Over an iterator -/

/-- The run of an `IterPublisher`. -/
abbrev takeIterated (n : UInt64) (o : Observer T I) :
    IterPublisher I (Take (Watched T I)) → Outcome (IterPublisher I (Take (Watched T I)) × Bool) :=
  IterPublisher.next (chainSub (justTake I n) o)

/-- What holds over an iterator holds over the channel with the same items that is closed after
them. -/
lemma ConsumesOnly.coupled {xs : List I} {t : T}
    (h : ConsumesOnly (takeIterated n o) (fun p => p.iter) (fun p => deliveredBy n p.subscriber)
      n.toNat (pipeline xs (justTake I n) o t)) :
    ConsumesOnly (takeCoupled n o) (fun q => q.dataRx.queue) (fun q => deliveredBy n q.subscriber)
      n.toNat (Rx.coupled (Receiver.ofList xs) (justTake I n) o t) := by
  rw [coupled_ofList]
  refine ⟨?_, ?_⟩
  · rintro q (⟨k, hk⟩ | ⟨fuel, hfuel⟩)
    · obtain ⟨p, hp, rfl⟩ := Coupler.runsOn_ofIter hk
      exact h.pulled p (Or.inl ⟨k, hp⟩)
    · rw [Coupler.run_ofIter] at hfuel
      obtain ⟨p, hp, rfl⟩ := Outcome.map_eq_ret.mp hfuel
      exact h.pulled p (Or.inr ⟨fuel, hp⟩)
  · intro hpos hlen
    obtain ⟨N, p, hrun, hiter, hseen⟩ := h.completes hpos hlen
    refine ⟨N, Coupler.ofIter p, ?_, hiter, hseen⟩
    intro fuel hfuel
    rw [Coupler.run_ofIter, hrun fuel hfuel]
    rfl

lemma consumesOnly_iterated_iff (ho : o.AlwaysTrue) (t : T) (xs : List I) :
    ConsumesOnly (takeIterated n o) (fun p => p.iter) (fun p => deliveredBy n p.subscriber)
      n.toNat (pipeline xs (justTake I n) o t) ↔ xs.length ≤ n.toNat := by
  constructor
  · intro h
    rcases (consumesOnly_coupled_iff ho t (Receiver.ofList xs)).mp h.coupled with hlt | ⟨heq, -⟩
    · exact Nat.le_of_lt hlt
    · exact Nat.le_of_eq heq
  · intro hle
    refine ⟨?_, ?_⟩
    · intro q _
      show xs.length ≤ _ + n.toNat
      omega
    · intro _ hlen
      have heq : xs.length = n.toNat := Nat.le_antisymm hle hlen
      obtain ⟨w, hend, hseen⟩ := take_all (n := n) ho t hle
      obtain ⟨N, p, hrun, hiter, hterm⟩ := hend
      refine ⟨N, p, hrun, ?_, ?_⟩
      · show p.iter = xs.drop n.toNat
        rw [hiter, ← heq, List.drop_length]
      · show deliveredBy n p.subscriber = some ((xs.take n.toNat).map _ ++ _)
        rw [deliveredBy, hterm, Option.map_some, hseen, ← heq, List.take_length]

end Take

/-- **What `Take(n)` consumes.**  For every limit and every subscriber that always answers `true`: a
run over an iterator consumes only what is taken exactly if there are no more than `n` items, and a
run over a channel exactly if fewer than `n` messages are in it, or `n` and no sender is left (or
`n` is zero). -/
theorem consumesOnly_iff {I T : Type} (n : UInt64) (o : Observer T I) (ho : o.AlwaysTrue) (t : T) :
    (∀ xs : List I, ConsumesOnly (takeIterated n o) (fun p => p.iter)
      (fun p => deliveredBy n p.subscriber) n.toNat (pipeline xs (justTake I n) o t) ↔
        xs.length ≤ n.toNat) ∧
    ∀ rx : Receiver I, ConsumesOnly (takeCoupled n o) (fun q => q.dataRx.queue)
      (fun q => deliveredBy n q.subscriber) n.toNat (coupled rx (justTake I n) o t) ↔
        rx.queue.length < n.toNat ∨
          (rx.queue.length = n.toNat ∧ (rx.connected = false ∨ n.toNat = 0)) :=
  ⟨consumesOnly_iterated_iff ho t, consumesOnly_coupled_iff ho t⟩

/-- Two items and a limit of two. -/
theorem consumesOnly_two :
    (Collect ℕ).AlwaysTrue ∧ ConsumesOnly (takeIterated 2 (Collect ℕ)) (fun p => p.iter)
      (fun p => deliveredBy 2 p.subscriber) 2 (pipeline [5, 6] (justTake ℕ 2) (Collect ℕ) []) := by
  have h := (consumesOnly_iff 2 (Collect ℕ) (collect_alwaysTrue ℕ) []).1 [5, 6]
  exact ⟨collect_alwaysTrue ℕ, h.mpr (Nat.le_refl 2)⟩

/-- Two items and a limit of one: both are gone.  And one message on a channel that stays open: the
run waits for another. -/
theorem take_overdraws :
    (∃ p, run (takeIterated 1 (Collect ℕ)) 2 (pipeline [5, 6] (justTake ℕ 1) (Collect ℕ) [])
        = Outcome.ret p ∧ p.iter = []) ∧
      ∀ fuel, run (takeCoupled 1 (Collect ℕ)) fuel
        (coupled ⟨[5], true⟩ (justTake ℕ 1) (Collect ℕ) []) = Outcome.stuck := by
  refine ⟨⟨_, rfl, rfl⟩, ?_⟩
  intro fuel
  exact blocks_of_open (collect_alwaysTrue ℕ) [] rfl rfl fuel

end Rx
