import RxRust.Stream.Denotation

/-!
# What a run of a pipeline does

`Publisher::run` over a chain, computed.  The run hands the items to the chain one by one and stops
after the first one that is not wanted any more, or completes after the last; everything else about
a run follows from this (`run_pipeline`, `runsOn_pipeline`).

* `Chain.calls`, `Chain.callsFor` — the calls the terminal subscriber gets for a list of items, and
  for one item after a list of others.
* `Wanted` — the chain answers `true` for that item: the terminal subscriber answered `true` to one
  of its values.
* `RunEnds`, `CoupledEnds` — the run comes back and leaves the terminal subscriber with that record.
* **`run_denotes`** — the values that reach the terminal subscriber are a prefix of the chain's list
  function of the input, and all of it when no stop is asked for.
-/

namespace Rx

open Core

section

variable {σ : Type} {F : Type → Type} {I O T : Type}

namespace Chain

/-- The calls the chain makes on the terminal subscriber for a list of items. -/
def calls (c : Chain σ F I O) (xs : List I) : List (Signal O) :=
  (c.transducer.run c.init (xs.map Signal.next)).2

/-- The calls it makes for one item after the items of a list. -/
def callsFor (c : Chain σ F I O) (xs : List I) (x : I) : List (Signal O) :=
  (c.transducer.step (c.transducer.run c.init (xs.map Signal.next)).1 (Signal.next x)).2

lemma calls_snoc (c : Chain σ F I O) (xs : List I) (x : I) :
    c.calls (xs ++ [x]) = c.calls xs ++ c.callsFor xs x := by
  simp [calls, callsFor, Transducer.run_append]

lemma values_calls (c : Chain σ F I O) (xs : List I) (hfit : c.Fits xs) :
    Signal.values (c.calls xs) = c.denote xs := by
  have h := c.values_run (xs.map Signal.next) (by simpa using hfit)
  simpa [calls] using h

/-- The boxed chain after the items of a list, over a terminal subscriber that started as `t`. -/
def settled (c : Chain σ F I O) (o : Observer T O) (t : T) (xs : List I) : F (Watched T O) :=
  c.assemble ⟨o.after t (c.calls xs), o.answers t (c.calls xs)⟩
    (c.transducer.run c.init (xs.map Signal.next)).1

/-- The same after the completion that follows the last item. -/
def completed (c : Chain σ F I O) (o : Observer T O) (t : T) (xs : List I) : F (Watched T O) :=
  c.assemble ⟨o.onComplete (o.after t (c.calls xs)) false,
      o.answers t (c.calls xs) ++ [Received.complete false]⟩
    (c.transducer.run c.init (xs.map Signal.next)).1

end Chain

/-- The chain answers `true` for the item `x` after the items `xs`. -/
def Wanted (c : Chain σ F I O) (o : Observer T O) (t : T) (xs : List I) (x : I) : Prop :=
  Observer.wants (o.answers (o.after t (c.calls xs)) (c.callsFor xs x)) = true

instance (c : Chain σ F I O) (o : Observer T O) (t : T) (xs : List I) (x : I) :
    Decidable (Wanted c o t xs x) := inferInstanceAs (Decidable (_ = true))

/-- Every item of the list is wanted when its turn comes. -/
def AllWanted (c : Chain σ F I O) (o : Observer T O) (t : T) (xs : List I) : Prop :=
  ∀ a x b, xs = a ++ x :: b → Wanted c o t a x

lemma AllWanted.snoc {c : Chain σ F I O} {o : Observer T O} {t : T} {xs : List I} {x : I}
    (h : AllWanted c o t xs) (hx : Wanted c o t xs x) : AllWanted c o t (xs ++ [x]) := by
  intro a y b hab
  rcases List.eq_nil_or_concat b with rfl | ⟨b', z, rfl⟩
  · obtain ⟨rfl, hxy⟩ := List.append_inj' hab rfl
    obtain rfl : x = y := by simpa using hxy
    exact hx
  · have hab' : xs ++ [x] = (a ++ y :: b') ++ [z] := by simpa using hab
    exact h a y b' (List.append_inj' hab' rfl).1

/-! ## One call of `next` -/

section Next

variable (c : Chain σ F I O) (o : Observer T O) (t : T)

/-- The methods of the boxed chain over the observer. -/
abbrev chainSub : Subscriber Outcome (F (Watched T O)) I := c.toSubscriber o.subscriber

/-- One item. -/
lemma onNext_settled (xs : List I) (x : I) :
    (chainSub c o).onNext (c.settled o t xs) x
      = Outcome.ret (c.settled o t (xs ++ [x]), decide (Wanted c o t xs x)) := by
  rw [chainSub, Chain.settled, c.onNext_assemble, o.feed_subscriber]
  simp only [Outcome.pure_eq, Outcome.map_ret, Chain.settled, c.calls_snoc, o.after_append,
    o.answers_append]
  have hdec : decide (Wanted c o t xs x)
      = Observer.wants (o.answers (o.after t (c.calls xs)) (c.callsFor xs x)) := by
    rw [Bool.eq_iff_iff, decide_eq_true_iff]
    rfl
  rw [List.map_append, Transducer.run_append, hdec]
  simp [Chain.callsFor]

/-- The completion. -/
lemma onComplete_settled (xs : List I) :
    (chainSub c o).onComplete (c.settled o t xs) false = Outcome.ret (c.completed o t xs) := by
  rw [chainSub, Chain.settled, c.onComplete_assemble]
  rfl

lemma next_settled_cons (xs ys : List I) (x : I) :
    IterPublisher.next (chainSub c o) ⟨x :: ys, some (c.settled o t xs)⟩
      = Outcome.ret (⟨ys, some (c.settled o t (xs ++ [x]))⟩, decide (Wanted c o t xs x)) := by
  simp [IterPublisher.next, onNext_settled]

lemma next_settled_nil (xs : List I) :
    IterPublisher.next (chainSub c o) ⟨[], some (c.settled o t xs)⟩
      = Outcome.ret (⟨[], some (c.completed o t xs)⟩, false) := by
  simp [IterPublisher.next, onComplete_settled]

/-! ## The whole loop -/

/-- From the state after the items `xs`, with the items `ys` still to come: the run stops at the
first of them that is not wanted, or completes. -/
theorem run_settled (xs ys : List I) (hxs : AllWanted c o t xs) :
    (AllWanted c o t (xs ++ ys) ∧ ∀ fuel, ys.length < fuel →
      run (IterPublisher.next (chainSub c o)) fuel ⟨ys, some (c.settled o t xs)⟩
        = Outcome.ret ⟨[], some (c.completed o t (xs ++ ys))⟩)
    ∨ ∃ a x b, ys = a ++ x :: b ∧ AllWanted c o t (xs ++ a) ∧ ¬ Wanted c o t (xs ++ a) x ∧
      ∀ fuel, ys.length < fuel →
        run (IterPublisher.next (chainSub c o)) fuel ⟨ys, some (c.settled o t xs)⟩
          = Outcome.ret ⟨b, some (c.settled o t (xs ++ a ++ [x]))⟩ := by
  induction ys generalizing xs with
  | nil =>
      refine Or.inl ⟨by simpa using hxs, fun fuel hfuel => ?_⟩
      obtain ⟨n, rfl⟩ : ∃ n, fuel = n + 1 := ⟨fuel - 1, by simp at hfuel; omega⟩
      simp [run, next_settled_nil]
  | cons y ys ih =>
      by_cases hy : Wanted c o t xs y
      · -- the item is wanted: the rest of the run starts from the state after it
        have hrun : ∀ n, run (IterPublisher.next (chainSub c o)) (n + 1)
            ⟨y :: ys, some (c.settled o t xs)⟩
            = run (IterPublisher.next (chainSub c o)) n
              ⟨ys, some (c.settled o t (xs ++ [y]))⟩ := by
          intro n
          simp [run, next_settled_cons, hy]
        rcases ih (xs ++ [y]) (hxs.snoc hy) with ⟨hall, hend⟩ | ⟨a, x, b, rfl, hall, hx, hend⟩
        · refine Or.inl ⟨by simpa using hall, fun fuel hfuel => ?_⟩
          obtain ⟨n, rfl⟩ : ∃ n, fuel = n + 1 := ⟨fuel - 1, by simp at hfuel; omega⟩
          rw [hrun, hend n (by simp at hfuel; omega)]
          simp
        · refine Or.inr ⟨y :: a, x, b, rfl, by simpa using hall, by simpa using hx,
            fun fuel hfuel => ?_⟩
          obtain ⟨n, rfl⟩ : ∃ n, fuel = n + 1 := ⟨fuel - 1, by simp at hfuel; omega⟩
          rw [hrun, hend n (by simp at hfuel ⊢; omega)]
          simp
      · refine Or.inr ⟨[], y, ys, rfl, by simpa using hxs, by simpa using hy,
          fun fuel hfuel => ?_⟩
        obtain ⟨n, rfl⟩ : ∃ n, fuel = n + 1 := ⟨fuel - 1, by simp at hfuel; omega⟩
        simp [run, next_settled_cons, hy]

/-- Every state the loop goes through is the state after the items handed over so far, all of them
wanted. -/
theorem runsOn_settled (k : ℕ) (xs ys : List I) (hxs : AllWanted c o t xs)
    (q : IterPublisher I (F (Watched T O)))
    (h : runsOn (IterPublisher.next (chainSub c o)) k ⟨ys, some (c.settled o t xs)⟩ q) :
    ∃ a b, ys = a ++ b ∧ AllWanted c o t (xs ++ a) ∧ q = ⟨b, some (c.settled o t (xs ++ a))⟩ := by
  induction k generalizing xs ys with
  | zero =>
      have hq : (⟨ys, some (c.settled o t xs)⟩ : IterPublisher I (F (Watched T O))) = q := h
      exact ⟨[], ys, rfl, by simpa using hxs, by simpa using hq.symm⟩
  | succ k ih =>
      obtain ⟨r, hnext, hrest⟩ := h
      cases ys with
      | nil => rw [next_settled_nil] at hnext; simp at hnext
      | cons y ys =>
          rw [next_settled_cons] at hnext
          simp only [Outcome.ret.injEq, Prod.mk.injEq, decide_eq_true_eq] at hnext
          obtain ⟨rfl, hy⟩ := hnext
          obtain ⟨a, b, rfl, hall, rfl⟩ := ih (xs ++ [y]) ys (hxs.snoc hy) hrest
          exact ⟨y :: a, b, rfl, by simpa using hall, by simp⟩

end Next

/-! ## Pipelines as built -/

section Pipeline

variable (xs : List I) (c : Chain σ F I O) (o : Observer T O) (t : T)

/-- The run of the pipeline comes back, leaving the terminal subscriber as `w` and the items `rest`
in the iterator. -/
def RunEnds (w : Watched T O) (rest : List I) : Prop :=
  ∃ N p, (∀ fuel, N ≤ fuel →
      run (IterPublisher.next (chainSub c o)) fuel (pipeline xs c o t) = Outcome.ret p) ∧
    p.iter = rest ∧ p.subscriber.bind c.terminal = some w

/-- The same for the chain fed by a `Coupler` over a channel that gets closed after the messages. -/
def CoupledEnds (w : Watched T O) (rest : List I) : Prop :=
  ∃ N p, (∀ fuel, N ≤ fuel →
      run (Coupler.next (chainSub c o)) fuel (coupled (Receiver.ofList xs) c o t)
        = Outcome.ret p) ∧
    p.dataRx.queue = rest ∧ p.subscriber.bind c.terminal = some w

lemma RunEnds.coupled {xs : List I} {c : Chain σ F I O} {o : Observer T O} {t : T}
    {w : Watched T O} {rest : List I} (h : RunEnds xs c o t w rest) :
    CoupledEnds xs c o t w rest := by
  obtain ⟨N, p, hrun, hiter, hterm⟩ := h
  refine ⟨N, Coupler.ofIter p, fun fuel hfuel => ?_, hiter, hterm⟩
  rw [coupled_ofList, Coupler.run_ofIter, hrun fuel hfuel]
  rfl

/-- A run ends in one way only. -/
lemma RunEnds.unique {xs : List I} {c : Chain σ F I O} {o : Observer T O} {t : T}
    {w w' : Watched T O} {rest rest' : List I} (h : RunEnds xs c o t w rest)
    (h' : RunEnds xs c o t w' rest') : w = w' ∧ rest = rest' := by
  obtain ⟨N, p, hrun, rfl, hterm⟩ := h
  obtain ⟨N', p', hrun', rfl, hterm'⟩ := h'
  have hp := hrun (max N N') (Nat.le_max_left _ _)
  rw [hrun' (max N N') (Nat.le_max_right _ _)] at hp
  obtain rfl : p' = p := Outcome.ret.inj hp
  rw [hterm] at hterm'
  exact ⟨Option.some.inj hterm', rfl⟩

/-- **The run of a pipeline.**  Either every item is wanted and the run completes, or it stops after
the first item that is not. -/
theorem run_pipeline :
    let t₀ := o.onSubscribe t 0
    (AllWanted c o t₀ xs ∧ RunEnds xs c o t ⟨o.onComplete (o.after t₀ (c.calls xs)) false,
      o.answers t₀ (c.calls xs) ++ [Received.complete false]⟩ [])
    ∨ ∃ a x b, xs = a ++ x :: b ∧ AllWanted c o t₀ a ∧ ¬ Wanted c o t₀ a x ∧
      RunEnds xs c o t ⟨o.after t₀ (c.calls (a ++ [x])), o.answers t₀ (c.calls (a ++ [x]))⟩ b := by
  intro t₀
  have hnil : AllWanted c o t₀ [] := by
    intro a x b h
    simp at h
  have hpipe : pipeline xs c o t = ⟨xs, some (c.settled o t₀ [])⟩ := pipeline_eq xs c o t
  rcases run_settled c o t₀ [] xs hnil with ⟨hall, hend⟩ | ⟨a, x, b, hxs, hall, hx, hend⟩
  · refine Or.inl ⟨by simpa using hall, xs.length + 1, ⟨[], some (c.completed o t₀ xs)⟩,
      fun fuel hfuel => ?_, rfl, ?_⟩
    · rw [hpipe, hend fuel (by omega), List.nil_append]
    · simp [Chain.completed, c.terminal_assemble]
  · refine Or.inr ⟨a, x, b, hxs, by simpa using hall, by simpa using hx, xs.length + 1,
      ⟨b, some (c.settled o t₀ (a ++ [x]))⟩, fun fuel hfuel => ?_, rfl, ?_⟩
    · rw [hpipe, hend fuel (by omega), List.nil_append]
    · simp [Chain.settled, c.terminal_assemble]

/-- When the loop is about to call `next` once more, every item handed over so far was wanted. -/
theorem runsOn_pipeline {k : ℕ} {q : IterPublisher I (F (Watched T O))}
    (h : runsOn (IterPublisher.next (chainSub c o)) k (pipeline xs c o t) q) :
    let t₀ := o.onSubscribe t 0
    ∃ a b s, xs = a ++ b ∧ AllWanted c o t₀ a ∧ q.iter = b ∧
      q.subscriber.bind c.terminal = some ⟨s, o.answers t₀ (c.calls a)⟩ := by
  intro t₀
  have hnil : AllWanted c o t₀ [] := by
    intro a x b h
    simp at h
  rw [pipeline_eq] at h
  obtain ⟨a, b, rfl, hall, rfl⟩ := runsOn_settled c o t₀ k [] xs hnil q h
  refine ⟨a, b, o.after t₀ (c.calls a), rfl, by simpa using hall, rfl, ?_⟩
  simp [Chain.settled, c.terminal_assemble]

end Pipeline

end

/-! ## The list function is computed -/

section Denotes

variable {σ : Type} {F : Type → Type} {I O T : Type}

/-- An item that is not wanted by an observer that never asks for a stop is the end of the chain. -/
lemma denote_eq_of_not_wanted {c : Chain σ F I O} {o : Observer T O} {t : T} (ho : o.AlwaysTrue)
    {a : List I} {x : I} {b : List I} (hfit : c.Fits (a ++ x :: b)) (hx : ¬ Wanted c o t a x) :
    c.denote (a ++ [x]) = c.denote (a ++ x :: b) := by
  have hvals : Signal.values (c.callsFor a x) = [] := by
    by_contra hne
    exact hx ((Observer.wants_eq_true_iff ho _ _).mpr hne)
  have hfit₁ : c.Fits (a ++ [x]) := hfit.anti ⟨b, by simp⟩
  have hfit₀ : c.Fits a := hfit.anti (List.prefix_append a (x :: b))
  have hstall : c.denote (a ++ [x]) = c.denote a := by
    rw [← c.values_calls _ hfit₁, ← c.values_calls _ hfit₀, c.calls_snoc, Signal.values_append,
      hvals, List.append_nil]
  rw [c.denote_stall a x b hstall, hstall]

/-- **A pipeline computes its list function.**  For every finite input, every chain and every
terminal subscriber the run ends, the queues of its `Tee`s being such that their `send` comes back;
the values that reached the terminal subscriber are a prefix of the chain's list function of the
input, and all of it when the terminal subscriber always answers `true`. -/
theorem run_denotes (xs : List I) (c : Chain σ F I O) (o : Observer T O) (t : T)
    (hfit : c.Fits xs) :
    ∃ w rest, RunEnds xs c o t w rest ∧ Received.values w.seen <+: c.denote xs ∧
      (o.AlwaysTrue → Received.values w.seen = c.denote xs) := by
  rcases run_pipeline xs c o t with ⟨-, hend⟩ | ⟨a, x, b, rfl, -, hx, hend⟩
  · have hvals : Received.values (o.answers (o.onSubscribe t 0) (c.calls xs)
        ++ [Received.complete false]) = c.denote xs := by
      simp [c.values_calls xs hfit]
    exact ⟨_, _, hend, ⟨[], by rw [List.append_nil, hvals]⟩, fun _ => hvals⟩
  · have hpre : a ++ [x] <+: a ++ x :: b := ⟨b, by simp⟩
    have hvals : Received.values (o.answers (o.onSubscribe t 0) (c.calls (a ++ [x])))
        = c.denote (a ++ [x]) := by
      rw [Observer.values_answers, c.values_calls _ (hfit.anti hpre)]
    refine ⟨_, _, hend, ?_, fun ho => ?_⟩
    · rw [hvals]
      exact c.denote_mono hpre
    · rw [hvals]
      exact denote_eq_of_not_wanted ho hfit hx

/-- Two pairs unzipped, three of the four numbers taken. -/
theorem run_denotes_pairs :
    let c := Chain.cons (Proc.unzip (I := ℕ)) (Chain.cons (Proc.take 3) Chain.nil)
    c.Fits [(1, 2), (3, 4)] ∧ ∃ w rest, RunEnds [(1, 2), (3, 4)] c (Collect ℕ) [] w rest ∧
      Received.values w.seen = [1, 2, 3] := by
  intro c
  have hfit : c.Fits [(1, 2), (3, 4)] := by
    refine ⟨trivial, ?_, trivial⟩
    simp [Proc.Fits, Proc.denote]
  obtain ⟨w, rest, hend, -, hall⟩ := run_denotes [(1, 2), (3, 4)] c (Collect ℕ) [] hfit
  exact ⟨hfit, w, rest, hend, hall (collect_alwaysTrue ℕ)⟩

/-- `SyncSender::send` on a channel that nobody reads: it comes back while there is room, and waits
for good when there is none. -/
def unreadSyncSender (bound : ℕ) : Sendable Outcome (List I) I where
  send := fun queue t =>
    if queue.length < bound then pure (queue ++ [t], Except.ok ()) else Outcome.stuck

/-- `IterPublisher([1, 2])` over a `Tee` whose queue is a `sync_channel(1)` that nobody reads, over
`Collect`: the run never comes back. -/
theorem run_waits_for_tee :
    let sub : Subscriber Outcome (Watched (List ℕ) ℕ) ℕ := (Collect ℕ).subscriber
    let tee := Tee.toSubscriber (unreadSyncSender 1) sub
    ¬ ∃ fuel p, run (IterPublisher.next tee) fuel
      ((IterPublisher.new [1, 2]).subscribe tee ((Tee.new []).subscribe sub ⟨[], []⟩))
        = Outcome.ret p := by
  intro sub tee
  rintro ⟨fuel, p, hrun⟩
  -- one call for the value that finds room, and one for the value that does not
  match fuel with
  | 0 => cases hrun
  | 1 => cases hrun
  | fuel + 2 => cases hrun

end Denotes

end Rx
