import RxRust.Stream.Consumption

/-!
# How many items a run pulls

A `Take` ends a pipeline, but only when it is given one item too many.  `Chain.stops` computes from
the limits of a chain after how many items of its source it gives nothing more, and a run pulls that
many items and one, no matter what they are; without a `Take` it pulls all there are.  This makes
the difference over the endless sources of `publisherimpl.rs`, `Repeat` and `RndGen`: there a run
ends exactly if there is a `Take`.

* `RndGen` — publishes what a generator gives.  `Arbitrary` is not part of the library; it is a
  function from the state of the generator to a value and the next state.
* `Chain.stops` — the number of items, if there is one.
* `denote_stalls_iff` — the list function grows with every item before it, and with none after.
* **`pulls_exactly`** — what a run pulls and delivers, over an iterator and over an endless source.
-/

namespace Rx

open Core

/-! ## Generators -/

/-- `RndGen`; `G` is the state of its generator. -/
structure RndGen (G S : Type) where
  subscriber : Option S
  gen : G

namespace RndGen

variable {m : Type → Type} [Monad m] {G S O : Type}

def new (gen : G) : RndGen G S := ⟨none, gen⟩

def subscribe (sub : Subscriber m S O) (self : RndGen G S) (s : S) : RndGen G S :=
  { self with subscriber := subscribed sub s }

def tryNext (arbitrary : G → O × G) (sub : Subscriber m S O) (self : RndGen G S) :
    m (RndGen G S × Bool) :=
  match self.subscriber with
  | some s => do
      let x := arbitrary self.gen
      let self := { self with gen := x.2 }
      let r ← sub.onNext s x.1
      pure ({ self with subscriber := some r.1 }, r.2)
  | none => pure (self, false)

/-- `RndGen` has no `next` of its own; the trait's calls `try_next`. -/
def next (arbitrary : G → O × G) (sub : Subscriber m S O) (self : RndGen G S) :
    m (RndGen G S × Bool) :=
  self.tryNext arbitrary sub

end RndGen

/-- `TestIncGen`, as a generator of `u64`: `next_u64` counts. -/
def TestIncGen.nextU64 (current : UInt64) : UInt64 × UInt64 := (current, current + 1)

/-- The first items of an endless source. -/
def firsts {I : Type} (items : ℕ → I) (n : ℕ) : List I := (List.range n).map items

lemma firsts_succ {I : Type} (items : ℕ → I) (n : ℕ) :
    firsts items (n + 1) = firsts items n ++ [items n] := by
  simp [firsts, List.range_succ]

/-- The item at a place is the one with that number. -/
lemma eq_of_firsts {I : Type} {items : ℕ → I} {n : ℕ} {a b : List I} {x : I}
    (h : firsts items n = a ++ x :: b) : x = items a.length := by
  have hget := congrArg (fun l => l[a.length]?) h
  have hlt : a.length < n := by
    have hlen := congrArg List.length h
    simp [firsts] at hlen
    omega
  simpa [firsts, List.getElem?_range hlt] using hget.symm

@[simp] lemma length_firsts {I : Type} (items : ℕ → I) (n : ℕ) : (firsts items n).length = n := by
  simp [firsts]

/-! ## Where a chain stops -/

/-- After how many items a processor gives nothing more, when what is behind it stops after `n`. -/
def Proc.stopsWith {σ : Type} {N : Type → Type} {I O : Type} : Proc σ N I O → Option ℕ → Option ℕ
  | Proc.take max, none => some max.toNat
  | Proc.take max, some n => some (min max.toNat n)
  | Proc.unzip, n => n.map fun n => (n + 1) / 2
  | _, n => n

lemma Proc.OneToOne.stopsWith_eq {σ : Type} {N : Type → Type} {I O : Type} {p : Proc σ N I O}
    (h : p.OneToOne) (n : Option ℕ) : p.stopsWith n = n := by
  cases p with
  | unzip => exact h.elim
  | take max => exact h.elim
  | _ => rfl

/-- Every pair is two values. -/
lemma Proc.length_pairs {A : Type} (xs : List (A × A)) :
    (xs.flatMap fun t => [t.1, t.2]).length = 2 * xs.length := by
  induction xs with
  | nil => rfl
  | cons t xs ih =>
      rw [List.flatMap_cons, List.length_append, ih]
      simp
      omega

namespace Chain

variable {σ : Type} {F : Type → Type} {I O : Type}

/-- After how many items the chain gives nothing more; `none` if it always does. -/
def stops : {σ : Type} → {F : Type → Type} → {I O : Type} → Chain σ F I O → Option ℕ
  | _, _, _, _, nil => none
  | _, _, _, _, cons p rest => p.stopsWith rest.stops

/-- The chain has stopped when it has been given `n` items. -/
def StoppedAt (c : Chain σ F I O) (n : ℕ) : Prop := ∃ k, c.stops = some k ∧ k ≤ n

/-- Two more items give nothing exactly if neither of them does. -/
lemma denote_stalls_two (c : Chain σ F I O) (xs : List I) (x y : I) :
    c.denote (xs ++ [x, y]) = c.denote xs ↔
      c.denote (xs ++ [x]) = c.denote xs ∧ c.denote (xs ++ [x] ++ [y]) = c.denote (xs ++ [x]) := by
  have hfirst : c.denote xs <+: c.denote (xs ++ [x]) := c.denote_mono (List.prefix_append _ _)
  have hsecond : c.denote (xs ++ [x]) <+: c.denote (xs ++ [x] ++ [y]) :=
    c.denote_mono (List.prefix_append _ _)
  have htwo : xs ++ [x, y] = xs ++ [x] ++ [y] := by simp
  rw [htwo]
  constructor
  · intro h
    rw [h] at hsecond
    have hx : c.denote (xs ++ [x]) = c.denote xs := hsecond.eq_of_length_le hfirst.length_le
    exact ⟨hx, h.trans hx.symm⟩
  · rintro ⟨hx, hy⟩
    exact hy.trans hx

/-- **Where the list function stops.**  One more item gives nothing more exactly if the chain has
stopped. -/
theorem denote_stalls_iff (c : Chain σ F I O) (xs : List I) (x : I) :
    c.denote (xs ++ [x]) = c.denote xs ↔ c.StoppedAt xs.length := by
  induction c with
  | nil => simp [denote, StoppedAt, stops]
  | cons p rest ih =>
      simp only [denote, StoppedAt, stops]
      by_cases hp : p.OneToOne
      · obtain ⟨y, zs, hy, -⟩ := hp.denote_cons xs x []
        rw [hy, ih, hp.length_denote, hp.stopsWith_eq]
        rfl
      · cases p with
        | unzip =>
            simp only [Proc.denote, Proc.stopsWith, List.flatMap_append, List.flatMap_cons,
              List.flatMap_nil, List.append_nil]
            rw [denote_stalls_two, ih, ih, List.length_append, Proc.length_pairs]
            constructor
            · rintro ⟨⟨k, hk, hle⟩, -⟩
              exact ⟨(k + 1) / 2, by simp [hk], by omega⟩
            · rintro ⟨k, hk, hle⟩
              obtain ⟨k', hk', rfl⟩ := Option.map_eq_some_iff.mp hk
              exact ⟨⟨k', hk', by omega⟩, ⟨k', hk', by omega⟩⟩
        | take max =>
            by_cases hmax : max.toNat ≤ xs.length
            · have htake : (xs ++ [x]).take max.toNat = xs.take max.toNat := by
                rw [List.take_append_of_le_length hmax]
              simp only [Proc.denote, htake, true_iff]
              cases rest.stops with
              | none => exact ⟨_, rfl, hmax⟩
              | some k => exact ⟨_, rfl, Nat.le_trans (Nat.min_le_left _ _) hmax⟩
            · have hall : (xs ++ [x]).take max.toNat = xs ++ [x] := by
                apply List.take_of_length_le
                simp
                omega
              have hxs : xs.take max.toNat = xs := List.take_of_length_le (by omega)
              simp only [Proc.denote, hall, hxs]
              rw [ih, StoppedAt]
              cases rest.stops with
              | none => simp [Proc.stopsWith, hmax]
              | some k =>
                  simp only [Proc.stopsWith, Option.some.injEq, exists_eq_left']
                  omega
        | _ => exact absurd trivial hp

/-- A chain that never stops has no counter that can wrap. -/
lemma fits_of_stops_eq_none {c : Chain σ F I O} (h : c.stops = none) (xs : List I) : c.Fits xs := by
  induction c with
  | nil => trivial
  | cons p rest ih =>
      cases p with
      | take max =>
          simp only [stops] at h
          cases hrest : rest.stops <;> simp [hrest, Proc.stopsWith] at h
      | unzip => exact ⟨trivial, ih (by simpa [stops, Proc.stopsWith] using h) _⟩
      | _ => exact ⟨trivial, ih h _⟩

end Chain

/-! ## What is wanted -/

section Wanted

variable {σ : Type} {F : Type → Type} {I O T : Type} {c : Chain σ F I O} {o : Observer T O} {t : T}

/-- A terminal subscriber that never asks for a stop wants every item until the chain stops. -/
lemma wanted_iff_not_stopped (ho : o.AlwaysTrue) {xs : List I} {x : I} (hfit : c.Fits (xs ++ [x])) :
    Wanted c o t xs x ↔ ¬ c.StoppedAt xs.length := by
  have hfit₀ : c.Fits xs := hfit.anti (List.prefix_append _ _)
  have hvals : c.denote (xs ++ [x]) = c.denote xs ++ Signal.values (c.callsFor xs x) := by
    rw [← c.values_calls _ hfit, ← c.values_calls _ hfit₀, c.calls_snoc, Signal.values_append]
  rw [Wanted, Observer.wants_eq_true_iff ho, not_congr (c.denote_stalls_iff xs x).symm, hvals]
  simp

lemma allWanted_iff (ho : o.AlwaysTrue) {xs : List I} (hfit : c.Fits xs) :
    AllWanted c o t xs ↔ ∀ k, c.stops = some k → xs.length ≤ k := by
  constructor
  · intro h k hk
    rcases List.eq_nil_or_concat xs with rfl | ⟨ys, y, rfl⟩
    · exact Nat.zero_le _
    · have hwanted := (wanted_iff_not_stopped ho (by simpa using hfit)).mp (h ys y [] (by simp))
      by_contra hlt
      refine hwanted ⟨k, hk, ?_⟩
      simp at hlt
      omega
  · rintro h a x b rfl
    refine (wanted_iff_not_stopped ho (hfit.anti ⟨b, by simp⟩)).mpr ?_
    rintro ⟨k, hk, hle⟩
    have hlen := h k hk
    simp at hlen
    omega

end Wanted

/-! ## Over an iterator -/

section Iterated

variable {σ : Type} {F : Type → Type} {I O T : Type} {c : Chain σ F I O} {o : Observer T O}

/-- What is left of a source: nothing, or what comes after the item at which the chain stopped. -/
def leftOver (c : Chain σ F I O) (xs : List I) : List I :=
  match c.stops with
  | none => []
  | some n => xs.drop (n + 1)

/-- A run over an iterator. -/
lemma pulls_iterated (ho : o.AlwaysTrue) (t : T) {xs : List I} (hfit : c.Fits xs) :
    ∃ w, RunEnds xs c o t w (leftOver c xs) ∧ Received.values w.seen = c.denote xs := by
  obtain ⟨w, rest, hend, -, hvals⟩ := run_denotes xs c o t hfit
  suffices hrest : rest = leftOver c xs from ⟨w, hrest ▸ hend, hvals ho⟩
  rcases run_pipeline xs c o t with ⟨hall, hend'⟩ | ⟨a, x, b, rfl, hall, hx, hend'⟩
  · obtain rfl := (hend.unique hend').2
    rw [leftOver]
    cases hstops : c.stops with
    | none => rfl
    | some n =>
        have hlen := (allWanted_iff ho hfit).mp hall n hstops
        exact (List.drop_eq_nil_of_le (by omega)).symm
  · obtain rfl := (hend.unique hend').2
    have hfit₁ : c.Fits (a ++ [x]) := hfit.anti ⟨rest, by simp⟩
    have hstopped : c.StoppedAt a.length := by
      by_contra hnot
      exact hx ((wanted_iff_not_stopped ho hfit₁).mpr hnot)
    obtain ⟨n, hn, hle⟩ := hstopped
    have hge := (allWanted_iff ho (hfit₁.anti (List.prefix_append _ _))).mp hall n hn
    obtain rfl : n = a.length := by omega
    simp only [leftOver, hn]
    simp

end Iterated

/-! ## Over a source that does not end -/

/-- The loop is not over while it goes on. -/
lemma run_stuck_of_le {P : Type} {next : P → Outcome (P × Bool)} {k fuel : ℕ} {p q : P}
    (h : runsOn next k p q) (hle : fuel ≤ k) : run next fuel p = Outcome.stuck := by
  induction k generalizing p fuel with
  | zero =>
      obtain rfl : fuel = 0 := by omega
      rfl
  | succ k ih =>
      cases fuel with
      | zero => rfl
      | succ fuel =>
          obtain ⟨r, hr, hrest⟩ := h
          rw [run, hr, Outcome.ret_bind, ← ih hrest (by omega : fuel ≤ k)]
          rfl

section Unending

variable {σ : Type} {F : Type → Type} {I O T P : Type} {c : Chain σ F I O} {o : Observer T O} {t : T}
variable {next : P → Outcome (P × Bool)} {place : ℕ → F (Watched T O) → P}

/-- The `n`-th call of `next` publishes `x`; `place n s` is the publisher after `n` items, with the
subscriber `s`. -/
def Publishes (next : P → Outcome (P × Bool)) (place : ℕ → F (Watched T O) → P)
    (sub : Subscriber Outcome (F (Watched T O)) I) (n : ℕ) (x : I) : Prop :=
  ∀ s, next (place n s) = (fun r => (place (n + 1) r.1, r.2)) <$> sub.onNext s x

lemma next_published {xs : List I} {x : I}
    (h : Publishes next place (chainSub c o) xs.length x) :
    next (place xs.length (c.settled o t xs))
      = Outcome.ret (place (xs ++ [x]).length (c.settled o t (xs ++ [x])),
          decide (Wanted c o t xs x)) := by
  rw [h, onNext_settled]
  simp

/-- As long as the chain has not stopped, the loop goes on. -/
lemma runsOn_published (ho : o.AlwaysTrue) {xs : List I} (hfit : c.Fits xs)
    (h : ∀ a x b, xs = a ++ x :: b → Publishes next place (chainSub c o) a.length x)
    (hstops : ∀ k, c.stops = some k → xs.length ≤ k) :
    runsOn next xs.length (place 0 (c.settled o t [])) (place xs.length (c.settled o t xs)) := by
  induction xs using List.reverseRecOn with
  | nil => exact rfl
  | append_singleton xs x ih =>
      simp only [List.length_append, List.length_singleton] at hstops ⊢
      have hwanted : Wanted c o t xs x := by
        refine (wanted_iff_not_stopped ho hfit).mpr ?_
        rintro ⟨k, hk, hle⟩
        have hlt := hstops k hk
        omega
      refine runsOn_snoc (ih (hfit.anti (List.prefix_append _ _)) ?_ ?_) ?_
      · rintro a y b rfl
        exact h a y (b ++ [x]) (by simp)
      · intro k hk
        have hlt := hstops k hk
        omega
      · rw [next_published (h xs x [] rfl)]
        simp [hwanted]

/-- At the item at which the chain stops, the loop ends. -/
lemma run_stops (ho : o.AlwaysTrue) {xs : List I} {x : I} (hfit : c.Fits (xs ++ [x]))
    (h : ∀ a y b, xs ++ [x] = a ++ y :: b → Publishes next place (chainSub c o) a.length y)
    (hstops : c.stops = some xs.length) :
    (∀ fuel, fuel ≤ xs.length → run next fuel (place 0 (c.settled o t [])) = Outcome.stuck) ∧
    ∃ s w, (∀ fuel, xs.length < fuel →
        run next fuel (place 0 (c.settled o t [])) = Outcome.ret (place (xs.length + 1) s)) ∧
      c.terminal s = some w ∧ Received.values w.seen = c.denote xs := by
  have hon := runsOn_published (t := t) ho (hfit.anti (List.prefix_append _ _))
    (fun a y b hab => h a y (b ++ [x]) (by simp [hab])) (by simp [hstops])
  refine ⟨fun fuel hle => run_stuck_of_le hon hle, c.settled o t (xs ++ [x]), _, ?_,
    c.terminal_assemble _ _, ?_⟩
  · intro fuel hlt
    obtain ⟨k, rfl⟩ : ∃ k, fuel = xs.length + (k + 1) := ⟨fuel - xs.length - 1, by omega⟩
    have hunwanted : ¬ Wanted c o t xs x := by
      rw [wanted_iff_not_stopped ho hfit, not_not]
      exact ⟨_, hstops, Nat.le_refl _⟩
    rw [run_of_runsOn hon, run, next_published (h xs x [] rfl)]
    simp [hunwanted]
  · have hstall : c.denote (xs ++ [x]) = c.denote xs := by
      rw [c.denote_stalls_iff]
      exact ⟨_, hstops, Nat.le_refl _⟩
    rw [Observer.values_answers, c.values_calls _ hfit, hstall]

end Unending

section Endless

variable {σ : Type} {F : Type → Type} {I O T P : Type} {c : Chain σ F I O} {o : Observer T O} {t : T}

/-- What a run over an endless source does: for ever, if the chain never stops; and otherwise it
pulls the items up to the one at which the chain stops, that one included, and delivers the list
function of those before. -/
def EndlessRun (next : P → Outcome (P × Bool)) (place : ℕ → F (Watched T O) → P) (items : ℕ → I)
    (c : Chain σ F I O) (p : P) : Prop :=
  match c.stops with
  | none => ∀ fuel, run next fuel p = Outcome.stuck
  | some n => c.Fits (firsts items (n + 1)) →
      (∀ fuel, fuel ≤ n → run next fuel p = Outcome.stuck) ∧
      ∃ s w, (∀ fuel, n < fuel → run next fuel p = Outcome.ret (place (n + 1) s)) ∧
        c.terminal s = some w ∧ Received.values w.seen = c.denote (firsts items n)

lemma endless_run {next : P → Outcome (P × Bool)} {place : ℕ → F (Watched T O) → P} {items : ℕ → I}
    (ho : o.AlwaysTrue) (h : ∀ n, Publishes next place (chainSub c o) n (items n)) :
    EndlessRun next place items c (place 0 (c.settled o t [])) := by
  have hfirst : ∀ n a x b, firsts items n = a ++ x :: b →
      Publishes next place (chainSub c o) a.length x := by
    intro n a x b hab
    rw [eq_of_firsts hab]
    exact h a.length
  rw [EndlessRun]
  cases hstops : c.stops with
  | none =>
      intro fuel
      have hon := runsOn_published (t := t) ho (c.fits_of_stops_eq_none hstops (firsts items fuel))
        (hfirst fuel) (by simp [hstops])
      exact run_stuck_of_le hon (by simp)
  | some n =>
      intro hfit
      have hpublishes : ∀ a y b, firsts items n ++ [items n] = a ++ y :: b →
          Publishes next place (chainSub c o) a.length y := by
        rw [← firsts_succ]
        exact hfirst (n + 1)
      rw [firsts_succ] at hfit
      simpa using run_stops (t := t) ho hfit hpublishes (by simp [hstops])

/-- `Repeat` subscribed to by the chain, with the observer at its end. -/
def repeated (v : I) (c : Chain σ F I O) (o : Observer T O) (t : T) : Repeat I (F (Watched T O)) :=
  let sub : Subscriber Outcome (Watched T O) O := o.subscriber
  (Repeat.new v).subscribe (c.toSubscriber sub) (c.build sub ⟨t, []⟩)

/-- The same with a `RndGen`. -/
def generated {G : Type} (gen : G) (c : Chain σ F I O) (o : Observer T O) (t : T) :
    RndGen G (F (Watched T O)) :=
  let sub : Subscriber Outcome (Watched T O) O := o.subscriber
  (RndGen.new gen).subscribe (c.toSubscriber sub) (c.build sub ⟨t, []⟩)

lemma pulls_repeated (ho : o.AlwaysTrue) (t : T) (v : I) :
    EndlessRun (Repeat.next (chainSub c o)) (fun _ s => ⟨v, some s⟩) (fun _ => v) c
      (repeated v c o t) := by
  have hpublishes : ∀ n : ℕ, Publishes (Repeat.next (chainSub c o)) (fun _ s => ⟨v, some s⟩)
      (chainSub c o) n v := by
    intro n s
    simp [Repeat.next, map_eq_pure_bind]
  have hrun := endless_run (t := o.onSubscribe t 0) ho hpublishes
  simp only [repeated, Repeat.subscribe, Repeat.new, subscribed]
  rw [c.onSubscribe_build]
  exact hrun

/-- The states of a generator. -/
def states {G : Type} (arbitrary : G → I × G) (gen : G) : ℕ → G
  | 0 => gen
  | n + 1 => (arbitrary (states arbitrary gen n)).2

lemma pulls_generated (ho : o.AlwaysTrue) (t : T) {G : Type} (arbitrary : G → I × G) (gen : G) :
    EndlessRun (RndGen.next arbitrary (chainSub c o)) (fun n s => ⟨some s, states arbitrary gen n⟩)
      (fun n => (arbitrary (states arbitrary gen n)).1) c (generated gen c o t) := by
  have hpublishes : ∀ n : ℕ, Publishes (RndGen.next arbitrary (chainSub c o))
      (fun n s => ⟨some s, states arbitrary gen n⟩) (chainSub c o) n
      (arbitrary (states arbitrary gen n)).1 := by
    intro n s
    simp [RndGen.next, RndGen.tryNext, map_eq_pure_bind, states]
  have hrun := endless_run (t := o.onSubscribe t 0) ho hpublishes
  simp only [generated, RndGen.subscribe, RndGen.new, subscribed]
  rw [c.onSubscribe_build]
  exact hrun

end Endless

/-! ## Over a channel that stays open -/

section Open

variable {σ : Type} {F : Type → Type} {I O T : Type} {c : Chain σ F I O} {o : Observer T O}

/-- A run over a channel with a sender left: it waits for ever, unless the messages reach the place
where the chain stops, and then it leaves the others in the channel. -/
def OpenRun (queue : List I) (c : Chain σ F I O) (o : Observer T O) (t : T) : Prop :=
  (¬ (∃ n, c.stops = some n ∧ n < queue.length) → ∀ fuel,
    run (Coupler.next (chainSub c o)) fuel (coupled ⟨queue, true⟩ c o t) = Outcome.stuck) ∧
  ∀ n, c.stops = some n → n < queue.length → ∃ N q w,
    (∀ fuel, N ≤ fuel → run (Coupler.next (chainSub c o)) fuel (coupled ⟨queue, true⟩ c o t)
      = Outcome.ret q) ∧
    q.dataRx = ⟨queue.drop (n + 1), true⟩ ∧ q.subscriber.bind c.terminal = some w ∧
    Received.values w.seen = c.denote queue

/-- What comes after the chain has stopped gives nothing. -/
lemma denote_take_of_stops {n : ℕ} (h : c.stops = some n) {xs : List I} (hn : n < xs.length) :
    c.denote (xs.take n) = c.denote xs := by
  have hstall := (c.denote_stalls_iff (xs.take n) (xs.get ⟨n, hn⟩)).mpr
    ⟨n, h, by rw [List.length_take]; omega⟩
  have hall := c.denote_stall _ _ (xs.drop (n + 1)) hstall
  rw [List.get_eq_getElem, ← List.drop_eq_getElem_cons hn, List.take_append_drop] at hall
  exact hall.symm

lemma pulls_open (ho : o.AlwaysTrue) (t : T) {queue : List I} (hfit : c.Fits queue) :
    OpenRun queue c o t := by
  have hpublishes : ∀ a x b d, queue = a ++ x :: b ++ d → Publishes (Coupler.next (chainSub c o))
      (fun n s => ⟨⟨queue.drop n, true⟩, some s⟩) (chainSub c o) a.length x := by
    rintro a x b d rfl s
    simp [Coupler.next, Receiver.recv, map_eq_pure_bind]
  have hstart : coupled ⟨queue, true⟩ c o t
      = ⟨⟨queue.drop 0, true⟩, some (c.settled o (o.onSubscribe t 0) [])⟩ := by
    simp only [coupled, Coupler.subscribe, Coupler.new, subscribed]
    rw [c.onSubscribe_build]
    rfl
  rw [OpenRun, hstart]
  constructor
  · intro hnot
    have hon := runsOn_published (t := o.onSubscribe t 0) ho hfit
      (fun a x b hab => hpublishes a x b [] (by simpa using hab)) (by
        intro k hk
        by_contra hlt
        exact hnot ⟨k, hk, by omega⟩)
    refine run_stuck_of_runsOn hon ?_
    simp [Coupler.next, Receiver.recv]
  · intro n hstops hn
    have hsplit : queue.take n ++ [queue.get ⟨n, hn⟩] = queue.take (n + 1) := by
      rw [List.get_eq_getElem, List.take_succ_eq_append_getElem hn]
    have hlen : (queue.take n).length = n := by
      rw [List.length_take]
      omega
    have hpub : ∀ a x b, queue.take n ++ [queue.get ⟨n, hn⟩] = a ++ x :: b →
        Publishes (Coupler.next (chainSub c o)) (fun n s => ⟨⟨queue.drop n, true⟩, some s⟩)
          (chainSub c o) a.length x := by
      intro a x b hab
      refine hpublishes a x b (queue.drop (n + 1)) ?_
      rw [← hab, hsplit, List.take_append_drop]
    obtain ⟨-, s, w, hrun, hterm, hvals⟩ := run_stops (t := o.onSubscribe t 0) ho
      (hfit.anti (by rw [hsplit]; exact List.take_prefix _ _)) hpub (by rw [hlen, hstops])
    rw [hlen] at hrun
    exact ⟨n + 1, _, w, hrun, rfl, hterm, hvals.trans (denote_take_of_stops hstops hn)⟩

end Open

/-! ## All of them -/

/-- **What a run pulls.**  For every chain and every terminal subscriber that never asks for a stop:
the run pulls the items up to and including the one after the chain has stopped, leaves the rest,
and delivers the chain's list function of them.  Over an iterator that is shorter it takes them all;
over a channel that stays open it waits for ever, and over `Repeat` and `RndGen` it goes on for
ever, when the chain does not stop before.  In a run that ends or waits, no `Take` may get `2 ^ 64`
items, as its counter would start over. -/
theorem pulls_exactly {σ : Type} {F : Type → Type} {I O T : Type} (c : Chain σ F I O)
    (o : Observer T O) (ho : o.AlwaysTrue) (t : T) :
    (∀ xs, c.Fits xs → ∃ w, RunEnds xs c o t w (leftOver c xs) ∧
      Received.values w.seen = c.denote xs) ∧
    (∀ queue, c.Fits queue → OpenRun queue c o t) ∧
    (∀ v, EndlessRun (Repeat.next (chainSub c o)) (fun _ s => ⟨v, some s⟩) (fun _ => v) c
      (repeated v c o t)) ∧
    ∀ {G : Type} (arbitrary : G → I × G) (gen : G),
      EndlessRun (RndGen.next arbitrary (chainSub c o))
        (fun n s => ⟨some s, states arbitrary gen n⟩)
        (fun n => (arbitrary (states arbitrary gen n)).1) c (generated gen c o t) :=
  ⟨fun _ hfit => pulls_iterated ho t hfit, fun _ hfit => pulls_open ho t hfit,
    fun v => pulls_repeated ho t v, fun arbitrary gen => pulls_generated ho t arbitrary gen⟩

/-- Pairs from a counting generator, unzipped, and three numbers taken: the third pair is pulled and
nothing comes of it. -/
theorem pulls_exactly_generated :
    let c := Chain.cons (Proc.map fun x : UInt64 => (x, x)) (Chain.cons Proc.unzip
      (Chain.cons (Proc.take 3) Chain.nil))
    (Collect UInt64).AlwaysTrue ∧ ∃ s w, (∀ fuel, 2 < fuel →
        run (RndGen.next TestIncGen.nextU64 (chainSub c (Collect UInt64))) fuel
          (generated 0 c (Collect UInt64) []) = Outcome.ret ⟨some s, 3⟩) ∧
      c.terminal s = some w ∧ Received.values w.seen = [0, 0, 1] := by
  intro c
  have hrun := (pulls_exactly c (Collect UInt64) (collect_alwaysTrue _) []).2.2.2
    TestIncGen.nextU64 0
  obtain ⟨-, s, w, hends, hterm, hvals⟩ := hrun (by
    refine ⟨trivial, trivial, ?_, trivial⟩
    show List.length _ < 2 ^ 64
    decide)
  exact ⟨collect_alwaysTrue _, s, w, hends, hterm, hvals⟩

end Rx
