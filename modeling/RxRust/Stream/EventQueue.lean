import Mathlib.Logic.Function.Basic
import RxRust.Stream.Split

/-!
# Pipelines that end in the event loop

Any number of pipelines, each driven by `run` on a thread of its own, send down the queue of an
event loop: each ends in a `Decoupler` over an `EventLoopSender`.  That queue is bounded, and a send
that finds it full does not wait but hands the item back.  `Decoupler::on_next` turns this into
`false`, as it would for a closed queue, and a pipeline all of whose values for an item are refused
stops.

* `publish` — the `next` of every publisher, by what its source gives.
* `EventQueue.State`, `EventQueue.step` — the threads, the queue and the loop, one event at a time;
  a thread runs on to its next `send`.
* `EventQueue.Lossless` — every item offered is enqueued, in each pipeline's order, and a run ends
  only when its source does.
* `EventQueue.Effect` — everything an event can do, from which the invariant and the exact condition
  on one event follow.
* **`EventQueue.lossless_iff`** — a run of the system is lossless exactly if every send finds room
  and no `Take` has had enough.
-/

namespace Rx

open Core

/-! ## Publishers -/

section Publish

variable {m : Type → Type} [Monad m] {S I : Type}

/-- What `next` does with what the source gives: an item is handed on, and the subscriber is told
when there is none. -/
def publish (sub : Subscriber m S I) (s : S) : Option I → m (S × Bool)
  | some x => sub.onNext s x
  | none => do
      let s ← sub.onComplete s false
      pure (s, false)

/-- An `IterPublisher` gives the next item of its iterator. -/
lemma IterPublisher.next_eq [LawfulMonad m] (sub : Subscriber m S I) (iter : List I) (s : S) :
    IterPublisher.next sub ⟨iter, some s⟩
      = (fun r => (⟨iter.tail, some r.1⟩, r.2)) <$> publish sub s iter.head? := by
  cases iter with
  | nil => simp [IterPublisher.next, publish]
  | cons x iter => simp [IterPublisher.next, publish]

/-- A `Repeat` gives its value. -/
lemma Repeat.next_eq [LawfulMonad m] (sub : Subscriber m S I) (val : I) (s : S) :
    Repeat.next sub ⟨val, some s⟩
      = (fun r => (⟨val, some r.1⟩, r.2)) <$> publish sub s (some val) := by
  simp [Repeat.next, publish]

/-- A `Coupler` gives what it receives, once it does. -/
lemma Coupler.next_eq (sub : Subscriber Outcome S I) (rx : Receiver I) (s : S) :
    Coupler.next sub ⟨rx, some s⟩
      = rx.recv >>= fun got =>
          (fun r => (⟨got.2, some r.1⟩, r.2)) <$> publish sub s got.1.toOption := by
  simp only [Coupler.next]
  congr 1
  funext got
  obtain ⟨got, rx'⟩ := got
  cases got with
  | ok d => simp [publish, Except.toOption, map_eq_pure_bind]
  | error e => simp [publish, Except.toOption]

end Publish

/-! ## Chains without a `Take` -/

/-- A processor that is no `Take` hands on something for everything it is given. -/
lemma Proc.run_ne_nil {σ : Type} {N : Type → Type} {I O : Type} {p : Proc σ N I O}
    (h : p.isTake = false) (s : σ) {cs : List (Signal I)} (hcs : cs ≠ []) :
    (p.transducer.run s cs).2 ≠ [] := by
  obtain ⟨c, cs, rfl⟩ := List.exists_cons_of_ne_nil hcs
  rw [Transducer.run_cons]
  have hstep : (p.transducer.step s c).2 ≠ [] := by
    cases c with
    | next t =>
        cases p with
        | take max => simp [isTake] at h
        | _ => simp [push]
    | complete f => simp
    | error e => simp
  simp [hstep]

namespace Chain

variable {σ : Type} {F : Type → Type} {I O : Type}

/-- The chain has a `Take`. -/
def HasTake : {σ : Type} → {F : Type → Type} → {I O : Type} → Chain σ F I O → Prop
  | _, _, _, _, nil => False
  | _, _, _, _, cons p rest => p.isTake = true ∨ rest.HasTake

lemma run_of_not_hasTake {c : Chain σ F I O} (h : ¬ c.HasTake) (s : σ) {cs : List (Signal I)}
    (hne : cs ≠ []) (hcs : ∀ d ∈ cs, d.isNext = true) :
    (c.transducer.run s cs).2 ≠ [] ∧ ∀ d ∈ (c.transducer.run s cs).2, d.isNext = true := by
  induction c with
  | nil =>
      rw [transducer, Transducer.run_ident]
      exact ⟨hne, hcs⟩
  | cons p rest ih =>
      simp only [HasTake, not_or, Bool.not_eq_true] at h
      rw [transducer_cons_run]
      exact ih h.2 s.2 (Proc.run_ne_nil h.1 s.1 hne) (Proc.run_isNext h.1 s.1 hcs)

/-- Without a `Take` every item gets through. -/
lemma values_callsFor_ne_nil {c : Chain σ F I O} (h : ¬ c.HasTake) (xs : List I) (x : I) :
    Signal.values (c.callsFor xs x) ≠ [] := by
  have hrun : ∀ s, (c.transducer.run s [Signal.next x]).2 ≠ [] ∧
      ∀ d ∈ (c.transducer.run s [Signal.next x]).2, d.isNext = true := fun s =>
    run_of_not_hasTake h s (by simp) (by simp [Signal.isNext])
  obtain ⟨hne, hall⟩ := hrun (Split.stateAfter c xs)
  rw [Transducer.run_singleton] at hne hall
  intro hnil
  refine hne ((Signal.eq_map_next_of_forall_isNext hall).trans ?_)
  exact List.map_eq_nil_iff.mpr hnil

end Chain

/-! ## The system -/

namespace EventQueue

/-- Where the thread of a pipeline stands: about to call `next`, at a `send` of `a` inside it, or
done with `run`.  `pulled` says that the source had an item for the call. -/
inductive Worker (M A : Type) where
  | idle (s : A)
  | sending (pulled : Bool) (a : M) (k : Except M Unit → Sending M (A × Bool))
  | ended (pulled : Bool) (s : A)

/-- What happens: a thread calls `next` and its source gives something, a thread gets the answer to
its `send`, or the loop takes a message off its queue. -/
inductive Event (ι : Type) (I : ι → Type) where
  | pull (i : ι) (given : Option (I i))
  | proceed (i : ι)
  | take

variable {ι : Type} {σ : ι → Type} {F : ι → Type → Type} {I : ι → Type} {M : Type}

/-- The threads, the queue and the messages the loop has taken off it.  `items` is what the sources
gave, and `offered` what reached the `on_next` of a `Decoupler`, each with its pipeline. -/
structure State (ι : Type) (F : ι → Type → Type) (I : ι → Type) (M : Type) where
  worker : (i : ι) → Worker M (F i (Decoupler Unit))
  queue : List (ι × M)
  taken : List (ι × M)
  items : (i : ι) → List (I i)
  offered : List (ι × M)

/-- A thread runs on to its next `send`, or to the end of `next`: there `run` goes on or ends. -/
def land {A : Type} (pulled : Bool) : Sending M (A × Bool) → Outcome (Worker M A)
  | Interact.ret r => pure (if r.2 then Worker.idle r.1 else Worker.ended pulled r.1)
  | Interact.panic msg => Outcome.panic msg
  | Interact.ask a k => pure (Worker.sending pulled a k)

variable [DecidableEq ι]

section Step

variable (cap : ℕ) (P : (i : ι) → Chain (σ i) (F i) (I i) M)

/-- Every pipeline as built. -/
def start : State ι F I M where
  worker := fun i => Worker.idle
    (((P i).toSubscriber (decoupler M)).onSubscribe ((P i).build (decoupler M) ⟨()⟩) 0)
  queue := []
  taken := []
  items := fun _ => []
  offered := []

/-- One event; an event that cannot happen now is `stuck`. -/
def step (s : State ι F I M) : Event ι I → Outcome (State ι F I M)
  | Event.pull i given => match s.worker i with
    | Worker.idle p => do
        let w ← land given.isSome (publish ((P i).toSubscriber (decoupler M)) p given)
        pure { s with
          worker := Function.update s.worker i w
          items := Function.update s.items i (s.items i ++ given.toList) }
    | _ => Outcome.stuck
  | Event.proceed i => match s.worker i with
    | Worker.sending pulled a k =>
        -- a full queue hands the item back
        let full := cap ≤ s.queue.length
        do
          let w ← land pulled (k (if full then Except.error a else Except.ok ()))
          pure { s with
            worker := Function.update s.worker i w
            queue := if full then s.queue else s.queue ++ [(i, a)]
            offered := s.offered ++ [(i, a)] }
    | _ => Outcome.stuck
  | Event.take => match s.queue with
    | [] => Outcome.stuck
    | msg :: queue => pure { s with queue := queue, taken := s.taken ++ [msg] }

end Step

/-- The messages of one pipeline. -/
def sentBy (i : ι) (msgs : List (ι × M)) : List M :=
  (msgs.filter fun m => m.1 = i).map Prod.snd

/-- **Nothing is lost**: what each pipeline offered has been enqueued, once and in its order, and a
run has ended only where the source had no more. -/
structure Lossless (s : State ι F I M) : Prop where
  kept : ∀ i, sentBy i (s.taken ++ s.queue) = sentBy i s.offered
  exhausted : ∀ i p, s.worker i ≠ Worker.ended true p

/-- A send finds room in the queue. -/
def HasRoom (cap : ℕ) (s : State ι F I M) : Event ι I → Prop
  | Event.proceed _ => s.queue.length < cap
  | _ => True

instance (cap : ℕ) (s : State ι F I M) : DecidablePred (HasRoom cap s)
  | Event.pull _ _ => isTrue trivial
  | Event.proceed _ => inferInstanceAs (Decidable (s.queue.length < cap))
  | Event.take => isTrue trivial

/-- An item that is pulled gets through to the `Decoupler`: no `Take` has had enough. -/
def Reaches (P : (i : ι) → Chain (σ i) (F i) (I i) M) (s : State ι F I M) : Event ι I → Prop
  | Event.pull i (some x) => Signal.values ((P i).callsFor (s.items i) x) ≠ []
  | _ => True

omit [DecidableEq ι] in
lemma reaches_of_not_hasTake {P : (i : ι) → Chain (σ i) (F i) (I i) M}
    (h : ∀ i, ¬ (P i).HasTake) (s : State ι F I M) (e : Event ι I) : Reaches P s e := by
  cases e with
  | pull i given =>
      cases given with
      | none => trivial
      | some x => exact Chain.values_callsFor_ne_nil (h i) (s.items i) x
  | _ => trivial

/-! ## Where a thread stands -/

/-- Where the thread of a pipeline stands when its source has given the items `a`. -/
def WorkerAt {σ : Type} {F : Type → Type} {I : Type} (P : Chain σ F I M) (a : List I) :
    Worker M (F (Decoupler Unit)) → Prop
  | Worker.idle p => p = P.assemble ⟨()⟩ (Split.stateAfter P a)
  | Worker.sending pulled _ k => pulled = true ∧ ∃ vs b, k = fun r =>
      (fun q => (P.assemble q.1 (Split.stateAfter P a), q.2)) <$> sendAll vs (b || r.isOk)
  | Worker.ended _ _ => True

section Worker

variable {σ : Type} {F : Type → Type} {I : Type}

/-- A thread with values to send stops at the first; with none left, the run goes on if one of them
was taken. -/
lemma land_sendAll (P : Chain σ F I M) (a : List I) (vs : List M) (b : Bool) :
    ∃ w, land true ((fun q => (P.assemble q.1 (Split.stateAfter P a), q.2)) <$> sendAll vs b)
        = Outcome.ret w ∧
      WorkerAt P a w ∧ ((∃ p, w = Worker.ended true p) ↔ vs = [] ∧ b = false) := by
  cases vs with
  | nil =>
      cases b with
      | true => exact ⟨_, rfl, rfl, by simp⟩
      | false => exact ⟨_, rfl, trivial, by simp⟩
  | cons v vs => exact ⟨_, rfl, ⟨rfl, vs, b, rfl⟩, by simp⟩

/-- A call of `next`: the thread ends with an item in hand exactly if the chain gives nothing for
that item. -/
lemma land_publish (P : Chain σ F I M) (a : List I) (given : Option I) :
    ∃ w, land given.isSome
        (publish (P.toSubscriber (decoupler M)) (P.assemble ⟨()⟩ (Split.stateAfter P a)) given)
        = Outcome.ret w ∧
      WorkerAt P (a ++ given.toList) w ∧
      ((∃ p, w = Worker.ended true p) ↔
        ∃ x, given = some x ∧ Signal.values (P.callsFor a x) = []) := by
  cases given with
  | none =>
      simp only [publish, P.onComplete_assemble]
      exact ⟨_, rfl, trivial, by simp⟩
  | some x =>
      obtain ⟨w, hland, hat, hended⟩ :=
        land_sendAll P (a ++ [x]) (Signal.values (P.callsFor a x)) false
      refine ⟨w, ?_, hat, ?_⟩
      · rw [publish, Split.onNext_decoupler]
        exact hland
      · simpa using hended

end Worker

/-! ## What one event does -/

section OneStep

variable {cap : ℕ} {P : (i : ι) → Chain (σ i) (F i) (I i) M} {s u : State ι F I M}

/-- Every thread stands where its items have brought it. -/
def Placed (P : (i : ι) → Chain (σ i) (F i) (I i) M) (s : State ι F I M) : Prop :=
  ∀ i, WorkerAt (P i) (s.items i) (s.worker i)

omit [DecidableEq ι] in
lemma placed_start : Placed P (start P) := by
  intro i
  show _ = _
  rw [(P i).onSubscribe_build]
  rfl

/-- What an event that can happen does to the system: a call of `next` ends the run with an item in
hand exactly if the chain gives nothing for it, and an answer from a queue with room does not. -/
def Effect (cap : ℕ) (P : (i : ι) → Chain (σ i) (F i) (I i) M) (s : State ι F I M) :
    Event ι I → State ι F I M → Prop
  | Event.pull i given, u => ∃ w, WorkerAt (P i) (s.items i ++ given.toList) w ∧
      ((∃ p, w = Worker.ended true p) ↔
        ∃ x, given = some x ∧ Signal.values ((P i).callsFor (s.items i) x) = []) ∧
      u = { s with
        worker := Function.update s.worker i w
        items := Function.update s.items i (s.items i ++ given.toList) }
  | Event.proceed i, u => ∃ a w, WorkerAt (P i) (s.items i) w ∧
      (s.queue.length < cap → ¬ ∃ p, w = Worker.ended true p) ∧
      u = { s with
        worker := Function.update s.worker i w
        queue := if cap ≤ s.queue.length then s.queue else s.queue ++ [(i, a)]
        offered := s.offered ++ [(i, a)] }
  | Event.take, u => ∃ msg queue, s.queue = msg :: queue ∧
      u = { s with queue := queue, taken := s.taken ++ [msg] }

lemma step_effect (cap : ℕ) (h : Placed P s) (e : Event ι I) :
    step cap P s e = Outcome.stuck ∨
      ∃ u, step cap P s e = Outcome.ret u ∧ Effect cap P s e u := by
  cases e with
  | pull i given =>
      have hi := h i
      cases hw : s.worker i with
      | sending pulled a k => exact Or.inl (by simp [step, hw])
      | ended pulled p => exact Or.inl (by simp [step, hw])
      | idle p =>
          rw [hw] at hi
          obtain rfl : p = _ := hi
          obtain ⟨w, hland, hat, hended⟩ := land_publish (P i) (s.items i) given
          exact Or.inr ⟨_, by simp [step, hw, hland], w, hat, hended, rfl⟩
  | proceed i =>
      have hi := h i
      cases hw : s.worker i with
      | idle p => exact Or.inl (by simp [step, hw])
      | ended pulled p => exact Or.inl (by simp [step, hw])
      | sending pulled a k =>
          rw [hw] at hi
          obtain ⟨rfl, vs, b, rfl⟩ := hi
          obtain ⟨w, hland, hat, hended⟩ := land_sendAll (P i) (s.items i) vs (b ||
            (if cap ≤ s.queue.length then Except.error a else Except.ok () : Except M Unit).isOk)
          refine Or.inr ⟨_, by simp [step, hw, hland], a, w, hat, fun hroom hend => ?_, rfl⟩
          obtain ⟨-, hb⟩ := hended.mp hend
          rw [if_neg (by omega)] at hb
          simp [Except.isOk, Except.toBool] at hb
  | take =>
      cases hq : s.queue with
      | nil => exact Or.inl (by simp [step, hq])
      | cons msg queue => exact Or.inr ⟨_, by simp [step, hq], msg, queue, hq, rfl⟩

lemma effect_of_step (h : Placed P s) {e : Event ι I} (hstep : step cap P s e = Outcome.ret u) :
    Effect cap P s e u := by
  rcases step_effect cap h e with hs | ⟨u', hs, heff⟩
  · simp [hs] at hstep
  · rw [hs] at hstep
    obtain rfl := Outcome.ret.inj hstep
    exact heff

/-- No thread panics: a pipeline that has been built has a subscriber behind every box. -/
lemma step_ne_panic (h : Placed P s) (e : Event ι I) (msg : String) :
    step cap P s e ≠ Outcome.panic msg := by
  rcases step_effect cap h e with hs | ⟨u, hs, -⟩ <;> simp [hs]

/-- One more item or none, one more position: every thread stays where its items have brought it. -/
lemma Placed.update {worker : (i : ι) → Worker M (F i (Decoupler Unit))}
    {items : (i : ι) → List (I i)} (h : ∀ i, WorkerAt (P i) (items i) (worker i)) {i : ι}
    {w : Worker M (F i (Decoupler Unit))} {xs : List (I i)} (hw : WorkerAt (P i) xs w) (j : ι) :
    WorkerAt (P j) (Function.update items i xs j) (Function.update worker i w j) := by
  rcases eq_or_ne j i with rfl | hne
  · simpa using hw
  · simpa [hne] using h j

lemma Placed.step (h : Placed P s) {e : Event ι I} (hstep : step cap P s e = Outcome.ret u) :
    Placed P u := by
  have heff := effect_of_step h hstep
  cases e with
  | pull i given =>
      obtain ⟨w, hat, -, rfl⟩ := heff
      exact Placed.update h hat
  | proceed i =>
      obtain ⟨a, w, hat, -, rfl⟩ := heff
      intro j
      have hj := Placed.update h hat j
      rwa [Function.update_eq_self] at hj
  | take =>
      obtain ⟨msg, queue, -, rfl⟩ := heff
      exact h

@[simp] lemma sentBy_append (i : ι) (xs ys : List (ι × M)) :
    sentBy i (xs ++ ys) = sentBy i xs ++ sentBy i ys := by
  simp [sentBy]

@[simp] lemma sentBy_self (i : ι) (a : M) : sentBy i [(i, a)] = [a] := by
  simp [sentBy]

/-- The threads after one of them has moved have all run out of items, or are still running, exactly
if that one has or is. -/
lemma exhausted_update {worker : (i : ι) → Worker M (F i (Decoupler Unit))}
    (h : ∀ j p, worker j ≠ Worker.ended true p) (i : ι) (w : Worker M (F i (Decoupler Unit))) :
    (∀ j p, Function.update worker i w j ≠ Worker.ended true p) ↔
      ¬ ∃ p, w = Worker.ended true p := by
  constructor
  · rintro hall ⟨p, rfl⟩
    exact hall i p (Function.update_self i _ worker)
  · intro hw j p
    rcases eq_or_ne j i with rfl | hne
    · rw [Function.update_self]
      exact fun heq => hw ⟨p, heq⟩
    · rw [Function.update_of_ne hne]
      exact h j p

/-- **One event** loses nothing exactly if it is a send that finds room, or a pull of an item that
gets through, or neither a send nor a pull of an item. -/
theorem Lossless.step_iff (hJ : Placed P s) (h : Lossless s) {e : Event ι I}
    (hstep : step cap P s e = Outcome.ret u) :
    Lossless u ↔ HasRoom cap s e ∧ Reaches P s e := by
  have heff := effect_of_step hJ hstep
  cases e with
  | pull i given =>
      obtain ⟨w, -, hended, rfl⟩ := heff
      have hreach : Reaches P s (Event.pull i given) ↔ ¬ ∃ p, w = Worker.ended true p := by
        rw [hended]
        cases given <;> simp [Reaches]
      rw [hreach, ← exhausted_update h.exhausted i w]
      exact ⟨fun hu => ⟨trivial, hu.exhausted⟩, fun hu => ⟨h.kept, hu.2⟩⟩
  | proceed i =>
      obtain ⟨a, w, -, hroom, rfl⟩ := heff
      by_cases hfull : cap ≤ s.queue.length
      · -- what is refused has been offered and is nowhere
        refine iff_of_false (fun hu => ?_) fun hu => absurd hu.1 (by simpa [HasRoom] using hfull)
        have hkept := congrArg List.length (hu.kept i)
        have hbefore := congrArg List.length (h.kept i)
        simp [hfull] at hkept hbefore
        omega
      · have hlt : s.queue.length < cap := Nat.lt_of_not_le hfull
        refine iff_of_true ⟨fun j => ?_, ?_⟩ ⟨hlt, trivial⟩
        · have hj := h.kept j
          simp only [if_neg hfull, sentBy_append] at hj ⊢
          rw [← List.append_assoc, hj]
        · exact (exhausted_update h.exhausted i w).mpr (hroom hlt)
  | take =>
      obtain ⟨msg, queue, hq, rfl⟩ := heff
      refine iff_of_true ⟨fun j => ?_, h.exhausted⟩ ⟨trivial, trivial⟩
      have hj := h.kept j
      rw [hq] at hj
      simpa using hj

end OneStep

/-! ## Runs -/

section Runs

variable (cap : ℕ) (P : (i : ι) → Chain (σ i) (F i) (I i) M)

/-- Nothing is lost at any point of the run with these events. -/
def LosslessRun (es : List (Event ι I)) : Prop :=
  ∀ fs u, fs <+: es → Reach (step cap P) anyStep (start P) fs u → Lossless u

/-- **A full queue loses items.**  For any number of pipelines over a queue of any capacity, and
every interleaving: no thread panics, and nothing is lost along the run exactly if every send finds
room and every item pulled gets through to its `Decoupler`.  Where no pipeline has a `Take`, that
every send finds room is all it takes. -/
theorem lossless_iff {es : List (Event ι I)} {s : State ι F I M}
    (h : Reach (step cap P) anyStep (start P) es s) :
    (∀ e msg, step cap P s e ≠ Outcome.panic msg) ∧
    (LosslessRun cap P es ↔
      Reach (step cap P) (fun t e => HasRoom cap t e ∧ Reaches P t e) (start P) es s) ∧
    ((∀ i, ¬ (P i).HasTake) →
      (LosslessRun cap P es ↔ Reach (step cap P) (HasRoom cap) (start P) es s)) := by
  have hplaced : Placed P s :=
    h.invariant (P := Placed P) placed_start fun t e u ht _ hs => ht.step hs
  have hstart : Lossless (start P) := ⟨fun _ => rfl, fun _ _ h => by cases h⟩
  have hiff : LosslessRun cap P es ↔
      Reach (step cap P) (fun t e => HasRoom cap t e ∧ Reaches P t e) (start P) es s :=
    h.always_iff_within (J := Placed P) placed_start hstart (fun t e u ht hs => ht.step hs)
      fun t e u hJ ht hs => ht.step_iff hJ hs
  refine ⟨step_ne_panic hplaced, hiff, fun htake => hiff.trans ⟨fun hr => ?_, fun hr => ?_⟩⟩
  · exact hr.mono fun t e hok => hok.1
  · exact hr.mono fun t e hok => ⟨hok, reaches_of_not_hasTake htake t e⟩

end Runs

/-- Two publishers of numbers, each with a `Decoupler` behind it and nothing between. -/
abbrev twoPlain : Bool → Chain Unit (fun T => T) ℕ ℕ := fun _ => Chain.nil

/-- Over a queue of one, with the loop taking the first number off before the second comes. -/
theorem lossless_taken_between :
    ∃ es s, Reach (step 1 twoPlain) anyStep (start twoPlain) es s ∧ LosslessRun 1 twoPlain es ∧
      s.offered = [(false, 5), (true, 6)] ∧ s.taken = [(false, 5)] ∧ s.queue = [(true, 6)] ∧
      ∃ p, s.worker false = Worker.ended false p := by
  obtain ⟨s, hexec, hlog⟩ : ∃ s, execute (step 1 twoPlain) (fun s e => decide (HasRoom 1 s e))
      (start twoPlain) [Event.pull false (some 5), Event.proceed false, Event.take,
        Event.pull true (some 6), Event.proceed true, Event.pull false none] = some s ∧
      s.offered = [(false, 5), (true, 6)] ∧ s.taken = [(false, 5)] ∧ s.queue = [(true, 6)] ∧
      ∃ p, s.worker false = Worker.ended false p := ⟨_, rfl, rfl, rfl, rfl, _, rfl⟩
  have hrun : Reach (step 1 twoPlain) (HasRoom 1) (start twoPlain) _ s :=
    reach_of_execute (fun _ _ => of_decide_eq_true) hexec
  have hany := hrun.mono fun _ _ _ => trivial
  have htake : ∀ i, ¬ (twoPlain i).HasTake := fun _ => id
  exact ⟨_, s, hany, ((lossless_iff 1 twoPlain hany).2.2 htake).mpr hrun, hlog⟩

/-- Without that the second number is refused: it was offered and is nowhere, and the run of its
pipeline has ended with the source still giving. -/
theorem full_queue_drops :
    ∃ es s, Reach (step 1 twoPlain) anyStep (start twoPlain) es s ∧ ¬ LosslessRun 1 twoPlain es ∧
      s.offered = [(false, 5), (true, 6)] ∧ s.taken = [] ∧ s.queue = [(false, 5)] ∧
      ∃ p, s.worker true = Worker.ended true p := by
  obtain ⟨s, hexec, hoffered, htaken, hqueue, p, hp⟩ : ∃ s, execute (step 1 twoPlain)
      (fun _ _ => true) (start twoPlain) [Event.pull false (some 5), Event.proceed false,
        Event.pull true (some 6), Event.proceed true] = some s ∧
      s.offered = [(false, 5), (true, 6)] ∧ s.taken = [] ∧ s.queue = [(false, 5)] ∧
      ∃ p, s.worker true = Worker.ended true p := ⟨_, rfl, rfl, rfl, rfl, _, rfl⟩
  have hrun : Reach (step 1 twoPlain) anyStep (start twoPlain) _ s :=
    reach_of_execute (fun _ _ _ => trivial) hexec
  refine ⟨_, s, hrun, fun hall => ?_, hoffered, htaken, hqueue, p, hp⟩
  exact (hall _ s (List.prefix_refl _) hrun).exhausted true p hp

end EventQueue

end Rx
