import Mathlib.Algebra.Group.Nat.Defs
import RxRust.Stream.Denotation

/-!
# The algebra of `Take`

Two chains are the same for whoever looks at them from outside if, whatever calls are made at the
top and however the terminal subscriber answers, the same calls reach it and the same answers come
back.  As the calls that a stage makes do not depend on the answers (`Chain.feed_assemble`), it is
enough to compare what the chains write for each call, and that is a bisimulation of their
transducers.

* `Subscriber.replies` — a list of calls, with the answer to each `on_next`.
* `Chain.Indistinguishable` — the two chains deliver the same and answer the same.
* `indistinguishable_of_outputs` — they do if their transducers write the same for every call.
* **`take_algebra`** — `Take` after `Take`, and `Take` beside the stages that hand on one value for
  one.
-/

namespace Rx

open Core

/-! ## Answers to every call -/

namespace Subscriber

variable {m : Type → Type} [Monad m] {S I O : Type}

/-- Make the calls of a list in order, and keep the answer to every `on_next`. -/
def replies (sub : Subscriber m S I) : S → List (Signal I) → m (S × List Bool)
  | s, [] => pure (s, [])
  | s, Signal.next t :: cs => do
      let r ← sub.onNext s t
      let q ← replies sub r.1 cs
      pure (q.1, r.2 :: q.2)
  | s, Signal.complete f :: cs => do
      let s ← sub.onComplete s f
      replies sub s cs
  | s, Signal.error e :: cs => do
      let s ← sub.onError s e
      replies sub s cs

/-- For every call made above, the calls that it leads to; an `on_next` above is answered by the or
of their answers. -/
def serve (sub : Subscriber m S O) : S → List (Signal I) → List (List (Signal O)) →
    m (S × List Bool)
  | s, c :: cs, ds :: dss => do
      let r ← sub.feed s ds
      let q ← serve sub r.1 cs dss
      pure (q.1, if c.isNext then r.2 :: q.2 else q.2)
  | s, _, _ => pure (s, [])

/-- One call, and then the rest. -/
lemma replies_cons [LawfulMonad m] (sub : Subscriber m S I) (s : S) (c : Signal I)
    (cs : List (Signal I)) :
    sub.replies s (c :: cs) = sub.feed s [c] >>= fun r =>
      (fun q => (q.1, if c.isNext then r.2 :: q.2 else q.2)) <$> sub.replies r.1 cs := by
  cases c with
  | next t => simp [replies, Signal.isNext]
  | complete f => simp [replies, Signal.isNext]
  | error e => simp [replies, Signal.isNext]

end Subscriber

namespace Chain

section Replies

variable {m : Type → Type} [Monad m] [Panics m] [LawfulMonad m]
variable {σ : Type} {F : Type → Type} {I O T : Type}

/-- The answers of the boxed chain are those to what its transducer writes. -/
lemma replies_assemble (sub : Subscriber m T O) (c : Chain σ F I O) (s : σ) (t : T)
    (cs : List (Signal I)) :
    (c.toSubscriber sub).replies (c.assemble t s) cs
      = (fun r => (c.assemble r.1 (c.transducer.run s cs).1, r.2))
          <$> sub.serve t cs (c.transducer.outputs s cs) := by
  induction cs generalizing s t with
  | nil => simp [Subscriber.replies, Subscriber.serve]
  | cons e cs ih =>
      rw [Subscriber.replies_cons, feed_assemble, Transducer.run_singleton, Transducer.outputs,
        Transducer.run_cons]
      simp [Subscriber.serve, ih]

/-- The calls are made at the top of the chain, once it has been built and subscribed to: what
becomes of the terminal subscriber, and the answers to the `on_next` calls. -/
def pushed (sub : Subscriber m T O) (c : Chain σ F I O) (t : T) (cs : List (Signal I)) :
    m (Option T × List Bool) :=
  (fun r => (c.terminal r.1, r.2)) <$>
    (c.toSubscriber sub).replies ((c.toSubscriber sub).onSubscribe (c.build sub t) 0) cs

lemma pushed_eq (sub : Subscriber m T O) (c : Chain σ F I O) (t : T) (cs : List (Signal I)) :
    c.pushed sub t cs = (fun r => (some r.1, r.2))
      <$> sub.serve (sub.onSubscribe t 0) cs (c.transducer.outputs c.init cs) := by
  rw [pushed, c.onSubscribe_build, replies_assemble]
  simp [terminal_assemble]

end Replies

variable {σ τ : Type} {F G : Type → Type} {I O : Type}

/-- Whatever state machine stands at the end and however it answers, the two chains deliver the same
calls to it, which leave it in the same state, and answer the `on_next` calls the same. -/
def Indistinguishable (c : Chain σ F I O) (d : Chain τ G I O) (cs : List (Signal I)) : Prop :=
  ∀ (T : Type) (o : Observer T O) (t : T), ∃ (w : Watched T O) (answers : List Bool),
    c.pushed (o.subscriber : Subscriber Outcome (Watched T O) O) ⟨t, []⟩ cs
        = Outcome.ret (some w, answers) ∧
      d.pushed (o.subscriber : Subscriber Outcome (Watched T O) O) ⟨t, []⟩ cs
        = Outcome.ret (some w, answers)

/-- A state machine always answers. -/
lemma serve_observer {T : Type} (o : Observer T O) (w : Watched T O) (cs : List (Signal I))
    (dss : List (List (Signal O))) :
    ∃ r, (o.subscriber : Subscriber Outcome (Watched T O) O).serve w cs dss = Outcome.ret r := by
  induction cs generalizing w dss with
  | nil => exact ⟨_, rfl⟩
  | cons c cs ih =>
      cases dss with
      | nil => exact ⟨_, rfl⟩
      | cons ds dss =>
          obtain ⟨q, hq⟩ := ih ⟨o.after w.state ds, w.seen ++ o.answers w.state ds⟩ dss
          rw [Subscriber.serve, Observer.feed_subscriber]
          exact ⟨_, by rw [Outcome.pure_eq, Outcome.ret_bind, hq]; rfl⟩

/-- **What is written for every call is all that counts.** -/
theorem indistinguishable_of_outputs {c : Chain σ F I O} {d : Chain τ G I O} {cs : List (Signal I)}
    (h : c.transducer.outputs c.init cs = d.transducer.outputs d.init cs) :
    Indistinguishable c d cs := by
  intro T o t
  obtain ⟨r, hr⟩ := serve_observer o ((o.subscriber : Subscriber Outcome _ O).onSubscribe ⟨t, []⟩ 0) cs
    (d.transducer.outputs d.init cs)
  refine ⟨r.1, r.2, ?_, ?_⟩
  · rw [pushed_eq, h, hr]
    rfl
  · rw [pushed_eq, hr]
    rfl

/-! ## One call -/

lemma step_cons {N : Type → Type} {Q : Type} (p : Proc σ N I O) (rest : Chain τ F O Q) (s : σ × τ)
    (e : Signal I) :
    (cons p rest).transducer.step s e
      = (((p.transducer.step s.1 e).1, (rest.transducer.run s.2 (p.transducer.step s.1 e).2).1),
        (rest.transducer.run s.2 (p.transducer.step s.1 e).2).2) := rfl

/-- A stage alone. -/
lemma step_one {N : Type → Type} (p : Proc σ N I O) (s : σ × Unit) (e : Signal I) :
    (cons p nil).transducer.step s e
      = (((p.transducer.step s.1 e).1, s.2), (p.transducer.step s.1 e).2) := by
  rw [step_cons, show (nil : Chain Unit _ O O).transducer = Transducer.ident _ from rfl,
    Transducer.run_ident]

/-- Two stages, the first of which makes one call. -/
lemma step_two {N M : Type → Type} {Q : Type} (p : Proc σ N I O) (q : Proc τ M O Q)
    (s : σ × τ × Unit) {e : Signal I} {s' : σ} {d : Signal O}
    (h : p.transducer.step s.1 e = (s', [d])) :
    (cons p (cons q nil)).transducer.step s e
      = ((s', (q.transducer.step s.2.1 d).1, s.2.2), (q.transducer.step s.2.1 d).2) := by
  rw [step_cons, h, Transducer.run_singleton, step_one]

/-- Two chains write the same for every call if a relation between their states, which may depend on
how many values have come in, survives every value and makes them write the same for it. -/
theorem outputs_eq_of_next {c : Chain σ F I O} {d : Chain τ G I O} {R : ℕ → σ → τ → Prop}
    {cs : List (Signal I)} (h₀ : R 0 c.init d.init)
    (hnext : ∀ k t s u, k < (Signal.values cs).length → R k s u →
      (c.transducer.step s (Signal.next t)).2 = (d.transducer.step u (Signal.next t)).2 ∧
        R (k + 1) (c.transducer.step s (Signal.next t)).1 (d.transducer.step u (Signal.next t)).1) :
    c.transducer.outputs c.init cs = d.transducer.outputs d.init cs := by
  refine Transducer.outputs_eq (R := fun pre s u => R (Signal.values pre).length s u) h₀ ?_
  intro pre e s u hpre hR
  rw [Signal.values_append, List.length_append]
  cases e with
  | next t =>
      refine hnext _ t s u ?_ hR
      obtain ⟨rest, rfl⟩ := hpre
      simp
  | complete f =>
      rw [transducer_complete, transducer_complete]
      exact ⟨rfl, hR⟩
  | error e =>
      rw [transducer_error, transducer_error]
      exact ⟨rfl, hR⟩

end Chain

lemma Proc.take_step {I : Type} (max : UInt64) {k : ℕ} (hk : k + 1 < 2 ^ 64) (b : Bool) (t : I) :
    (Proc.take (I := I) max).transducer.step (UInt64.ofNat k, b) (Signal.next t)
      = if max.toNat ≤ k then ((UInt64.ofNat (k + 1), true), [Signal.complete false])
        else ((UInt64.ofNat (k + 1), b), [Signal.next t]) := by
  rw [Proc.transducer_next, Proc.take_push max hk]

/-! ## `Take` after `Take` -/

section TakeTake

variable {I : Type} {m n : UInt64}

/-- The counters of `Take(m)` and `Take(n)` and of `Take(min m n)` after `k` values: the second sees
the first `m` of them. -/
structure TwoCounters (m : UInt64) (k : ℕ) (s : (UInt64 × Bool) × (UInt64 × Bool) × Unit)
    (u : (UInt64 × Bool) × Unit) : Prop where
  first : s.1.1 = UInt64.ofNat k
  second : s.2.1.1 = UInt64.ofNat (min k m.toNat)
  single : u.1.1 = UInt64.ofNat k

lemma toNat_min (m n : UInt64) : (min m n).toNat = min m.toNat n.toNat := by
  show (if m ≤ n then m else n).toNat = _
  split_ifs with h
  · exact (Nat.min_eq_left (UInt64.le_iff_toNat_le.mp h)).symm
  · exact (Nat.min_eq_right (Nat.le_of_not_le fun hle => h (UInt64.le_iff_toNat_le.mpr hle))).symm

lemma TwoCounters.next {k : ℕ} {s : (UInt64 × Bool) × (UInt64 × Bool) × Unit}
    {u : (UInt64 × Bool) × Unit} (h : TwoCounters m k s u) (hk : k + 1 < 2 ^ 64) (t : I) :
    let c := Chain.cons (Proc.take m) (Chain.cons (Proc.take n) Chain.nil)
    let d := Chain.cons (Proc.take (I := I) (min m n)) Chain.nil
    (c.transducer.step s (Signal.next t)).2 = (d.transducer.step u (Signal.next t)).2 ∧
      TwoCounters m (k + 1) (c.transducer.step s (Signal.next t)).1
        (d.transducer.step u (Signal.next t)).1 := by
  intro c d
  obtain ⟨⟨count, b⟩, ⟨count', b'⟩, v⟩ := s
  obtain ⟨⟨count'', b''⟩, v'⟩ := u
  obtain ⟨rfl, rfl, rfl⟩ : count = UInt64.ofNat k ∧ count' = UInt64.ofNat (min k m.toNat) ∧
      count'' = UInt64.ofNat k := ⟨h.first, h.second, h.single⟩
  have hsingle := Proc.take_step (min m n) hk b'' t
  have hfirst := Proc.take_step m hk b t
  rw [toNat_min] at hsingle
  by_cases hm : m.toNat ≤ k
  · -- the first stage completes, and the second hands that on
    rw [if_pos hm] at hfirst
    rw [if_pos (Nat.le_trans (Nat.min_le_left _ _) hm)] at hsingle
    rw [Chain.step_two _ _ _ hfirst, Chain.step_one, hsingle]
    refine ⟨rfl, rfl, ?_, rfl⟩
    show UInt64.ofNat (min k m.toNat) = UInt64.ofNat (min (k + 1) m.toNat)
    rw [Nat.min_eq_right hm, Nat.min_eq_right (by omega)]
  · rw [if_neg hm] at hfirst
    rw [Chain.step_two _ _ _ hfirst, Chain.step_one, hsingle]
    have hseen : min k m.toNat = k := Nat.min_eq_left (by omega)
    have hsecond := Proc.take_step n hk b' t
    simp only [hseen]
    rw [hsecond]
    by_cases hn : n.toNat ≤ k
    · rw [if_pos hn, if_pos (Nat.le_trans (Nat.min_le_right _ _) hn)]
      refine ⟨rfl, rfl, ?_, rfl⟩
      exact congrArg UInt64.ofNat (Nat.min_eq_left (by omega)).symm
    · rw [if_neg hn, if_neg (by omega)]
      refine ⟨rfl, rfl, ?_, rfl⟩
      exact congrArg UInt64.ofNat (Nat.min_eq_left (by omega)).symm

/-- `Take(m)` and then `Take(n)` write what `Take(min m n)` writes. -/
lemma outputs_take_take {cs : List (Signal I)} (hcs : (Signal.values cs).length < 2 ^ 64) :
    let c := Chain.cons (Proc.take m) (Chain.cons (Proc.take n) Chain.nil)
    let d := Chain.cons (Proc.take (I := I) (min m n)) Chain.nil
    c.transducer.outputs c.init cs = d.transducer.outputs d.init cs := by
  intro c d
  refine Chain.outputs_eq_of_next (R := TwoCounters m) ?_ ?_
  · exact ⟨rfl, congrArg UInt64.ofNat (Nat.zero_min _).symm, rfl⟩
  · intro k t s u hk hR
    exact hR.next (by omega) t

end TakeTake

/-! ## `Take` beside another stage -/

section TakeSwap

variable {σ : Type} {N : Type → Type} {I O : Type} {p : Proc σ N I O} {n : UInt64}

/-- One value, when the counters agree, and the states of the stage do as long as the limit is not
reached: the same call is made, and so it is after it. -/
lemma take_swap (hp : p.OneToOne) {s : (UInt64 × Bool) × σ × Unit} {u : σ × (UInt64 × Bool) × Unit}
    (hcount : u.2.1.1 = s.1.1) (hstate : ¬ s.1.1 + 1 > n → u.1 = s.2.1) (t : I) :
    let c := Chain.cons (Proc.take n) (Chain.cons p Chain.nil)
    let d := Chain.cons p (Chain.cons (Proc.take n) Chain.nil)
    (c.transducer.step s (Signal.next t)).2 = (d.transducer.step u (Signal.next t)).2 ∧
      (c.transducer.step s (Signal.next t)).1.1.1 = s.1.1 + 1 ∧
      (d.transducer.step u (Signal.next t)).1.2.1.1 = s.1.1 + 1 ∧
      (¬ s.1.1 + 1 > n → (d.transducer.step u (Signal.next t)).1.1
        = (c.transducer.step s (Signal.next t)).1.2.1) := by
  intro c d
  obtain ⟨⟨count, b⟩, x, v⟩ := s
  obtain ⟨x', ⟨count', b'⟩, v'⟩ := u
  obtain rfl : count' = count := hcount
  obtain ⟨y, hy⟩ := hp.push_eq x' t
  have hd : p.transducer.step x' (Signal.next t) = ((p.push x' t).1, [Signal.next y]) := by
    rw [Proc.transducer_next, ← hy]
  rw [Chain.step_two p (Proc.take n) (x', (count', b'), v') hd]
  by_cases hpast : count' + 1 > n
  · have hc : (Proc.take (I := I) n).transducer.step (count', b) (Signal.next t)
        = ((count' + 1, true), [Signal.complete false]) := if_pos hpast
    have hc' : (Proc.take (I := O) n).transducer.step (count', b') (Signal.next y)
        = ((count' + 1, true), [Signal.complete false]) := if_pos hpast
    rw [Chain.step_two _ _ _ hc, hc', Proc.transducer_complete]
    exact ⟨rfl, rfl, rfl, fun h => absurd hpast h⟩
  · obtain rfl : x' = x := hstate hpast
    have hc : (Proc.take (I := I) n).transducer.step (count', b) (Signal.next t)
        = ((count' + 1, b), [Signal.next t]) := if_neg hpast
    have hc' : (Proc.take (I := O) n).transducer.step (count', b') (Signal.next y)
        = ((count' + 1, b'), [Signal.next y]) := if_neg hpast
    rw [Chain.step_two _ _ _ hc, hc', hd]
    exact ⟨rfl, rfl, rfl, fun _ => rfl⟩

/-- A stage without a state: the counters agree for ever, also when they wrap. -/
lemma outputs_take_stateless [Subsingleton σ] (p : Proc σ N I O) (hp : p.OneToOne)
    (cs : List (Signal I)) :
    let c := Chain.cons (Proc.take n) (Chain.cons p Chain.nil)
    let d := Chain.cons p (Chain.cons (Proc.take n) Chain.nil)
    c.transducer.outputs c.init cs = d.transducer.outputs d.init cs := by
  intro c d
  refine Chain.outputs_eq_of_next (R := fun _ s u => u.2.1.1 = s.1.1) rfl ?_
  intro k t s u _ hR
  obtain ⟨hout, hs, hu, -⟩ := take_swap hp hR (fun _ => Subsingleton.elim _ _) t
  exact ⟨hout, hu.trans hs.symm⟩

/-- The counter of `Take` and the state of the other stage, on either side, after `k` values. -/
structure OneCounter (n : UInt64) (k : ℕ) (s : (UInt64 × Bool) × σ × Unit)
    (u : σ × (UInt64 × Bool) × Unit) : Prop where
  count : s.1.1 = UInt64.ofNat k
  count' : u.2.1.1 = UInt64.ofNat k
  state : k ≤ n.toNat → u.1 = s.2.1

/-- A stage with a state: the states agree up to the limit, and after it nothing is handed on. -/
lemma outputs_take_stage (p : Proc σ N I O) (hp : p.OneToOne) {cs : List (Signal I)}
    (hcs : (Signal.values cs).length < 2 ^ 64) :
    let c := Chain.cons (Proc.take n) (Chain.cons p Chain.nil)
    let d := Chain.cons p (Chain.cons (Proc.take n) Chain.nil)
    c.transducer.outputs c.init cs = d.transducer.outputs d.init cs := by
  intro c d
  refine Chain.outputs_eq_of_next (R := OneCounter n) ⟨rfl, rfl, fun _ => rfl⟩ ?_
  intro k t s u hk hR
  have hadd : s.1.1 + 1 = UInt64.ofNat (k + 1) := by
    rw [hR.count]
    simp
  have hlt : k + 1 < 2 ^ 64 := by omega
  have hcmp : s.1.1 + 1 > n ↔ n.toNat < k + 1 := by
    rw [hadd, gt_iff_lt, UInt64.lt_iff_toNat_lt, UInt64.toNat_ofNat_of_lt' hlt]
  have hstate : ¬ s.1.1 + 1 > n → u.1 = s.2.1 := by
    rw [hcmp]
    intro hpast
    exact hR.state (by omega)
  obtain ⟨hout, hs, hu, hnext⟩ := take_swap hp (hR.count'.trans hR.count.symm) hstate t
  refine ⟨hout, hs.trans hadd, hu.trans hadd, ?_⟩
  intro hle
  refine hnext ?_
  rw [hcmp]
  omega

end TakeSwap

/-- **The algebra of `Take`.**  For any calls made at the top, also after a `false`, and any
subscriber at the end: `Take(m)` and then `Take(n)` cannot be told from `Take(min m n)`, and
`Take(n)` may stand before or after an `Enumerate` or a `Reduce`, as long as fewer than `2 ^ 64`
values come in; before or after a `Map` or a `MapVal1` it may stand in any case. -/
theorem take_algebra (I O V : Type) (m n : UInt64) (cs : List (Signal I)) :
    ((Signal.values cs).length < 2 ^ 64 → Chain.Indistinguishable
      (Chain.cons (Proc.take m) (Chain.cons (Proc.take n) Chain.nil))
      (Chain.cons (Proc.take (min m n)) Chain.nil) cs) ∧
    (∀ f : I → O, Chain.Indistinguishable
      (Chain.cons (Proc.take n) (Chain.cons (Proc.map f) Chain.nil))
      (Chain.cons (Proc.map f) (Chain.cons (Proc.take n) Chain.nil)) cs) ∧
    (∀ (v : V) (f : I → V → O), Chain.Indistinguishable
      (Chain.cons (Proc.take n) (Chain.cons (Proc.mapVal1 v f) Chain.nil))
      (Chain.cons (Proc.mapVal1 v f) (Chain.cons (Proc.take n) Chain.nil)) cs) ∧
    ((Signal.values cs).length < 2 ^ 64 → Chain.Indistinguishable
      (Chain.cons (Proc.take n) (Chain.cons Proc.enumerate Chain.nil))
      (Chain.cons Proc.enumerate (Chain.cons (Proc.take n) Chain.nil)) cs) ∧
    ∀ (initial : V) (f : V → I → V × O), (Signal.values cs).length < 2 ^ 64 →
      Chain.Indistinguishable
        (Chain.cons (Proc.take n) (Chain.cons (Proc.reduce initial f) Chain.nil))
        (Chain.cons (Proc.reduce initial f) (Chain.cons (Proc.take n) Chain.nil)) cs := by
  refine ⟨?_, ?_, ?_, ?_, ?_⟩
  · intro hcs
    exact Chain.indistinguishable_of_outputs (outputs_take_take hcs)
  · intro f
    exact Chain.indistinguishable_of_outputs (outputs_take_stateless (Proc.map f) trivial cs)
  · intro v f
    exact Chain.indistinguishable_of_outputs (outputs_take_stateless (Proc.mapVal1 v f) trivial cs)
  · intro hcs
    exact Chain.indistinguishable_of_outputs (outputs_take_stage (Proc.enumerate (I := I)) trivial hcs)
  · intro initial f hcs
    exact Chain.indistinguishable_of_outputs (outputs_take_stage (Proc.reduce initial f) trivial hcs)

/-- Three values and a completion, of which two are taken and then one, or one at once; and the same
values numbered before or after one is taken. -/
theorem take_algebra_three :
    let cs := [Signal.next 7, Signal.next 8, Signal.next 9, Signal.complete false]
    (Signal.values cs).length < 2 ^ 64 ∧
      Chain.Indistinguishable (Chain.cons (Proc.take 2) (Chain.cons (Proc.take 1) Chain.nil))
        (Chain.cons (Proc.take (I := ℕ) 1) Chain.nil) cs ∧
      Chain.Indistinguishable (Chain.cons (Proc.take 1) (Chain.cons Proc.enumerate Chain.nil))
        (Chain.cons Proc.enumerate (Chain.cons (Proc.take 1) Chain.nil)) cs := by
  intro cs
  have hcs : (Signal.values cs).length < 2 ^ 64 := by decide
  obtain ⟨htake, -, -, henumerate, -⟩ := take_algebra ℕ ℕ ℕ 2 1 cs
  exact ⟨hcs, htake hcs, henumerate hcs⟩

end Rx
