import RxRust.Stream.TakeAlgebra

/-!
# Stages that only look

`DoDebug`, `DebugWhile`, `Do` and `Tee` are put into a pipeline to see what goes through.  They hand
on every value as it is and answer what they are answered, so nobody above or below can tell whether
they are there: not from the values, nor from the completions and errors, nor from the answers.

* `Proc.isObserver` — the four of them.
* `Chain.erase` — the chain without them.
* **`erase_pushed`** — the chain and the chain without them do the same to whatever subscriber is at
  the end and give the same answers.
* `Proc.recorded` — what one of them has to show for a list of values.
* **`observer_records`** — wherever it stands, that is what it shows of the values that reached it.
-/

namespace Rx

open Core

namespace Proc

variable {σ : Type} {N : Type → Type} {I O : Type}

/-- The processor hands on what it is given, and looks at it. -/
def isObserver : Proc σ N I O → Bool
  | doDebug => true
  | debugWhile _ => true
  | doEach _ => true
  | tee _ _ => true
  | _ => false

/-- An observer gives back the type it is given, and every call as it is. -/
lemma observer_copies {p : Proc σ N I O} (hp : p.isObserver = true) :
    ∃ h : I = O, ∀ s c, (p.transducer.step s c).2 = [h ▸ c] := by
  cases p with
  | doDebug => exact ⟨rfl, fun s c => by cases c <;> rfl⟩
  | debugWhile f => exact ⟨rfl, fun s c => by cases c <;> rfl⟩
  | doEach f => exact ⟨rfl, fun s c => by cases c <;> rfl⟩
  | tee q tx => exact ⟨rfl, fun s c => by cases c <;> rfl⟩
  | _ => cases hp

lemma observer_step {p : Proc σ N I I} (hp : p.isObserver = true) (s : σ) (c : Signal I) :
    (p.transducer.step s c).2 = [c] := by
  obtain ⟨h, hstep⟩ := observer_copies hp
  exact hstep s c

end Proc

namespace Chain

variable {σ τ : Type} {F : Type → Type} {I O R : Type}

/-- Leave the processor out if it is an observer. -/
def skip {N : Type → Type} : Proc σ N I O → Packed O R → Packed I R
  | Proc.doDebug, d => d
  | Proc.debugWhile _, d => d
  | Proc.doEach _, d => d
  | Proc.tee _ _, d => d
  | p, d => ⟨cons p d.chain⟩

/-- The chain without its observers. -/
def erase : {σ : Type} → {F : Type → Type} → {I O : Type} → Chain σ F I O → Packed I O
  | _, _, _, _, nil => ⟨nil⟩
  | _, _, _, _, cons p rest => skip p rest.erase

/-- Leaving an observer out changes nothing of what is written. -/
lemma skip_outputs {N : Type → Type} (p : Proc σ N I O) (rest : Chain τ F O R) (d : Packed O R)
    (h : ∀ ds, rest.transducer.outputs rest.init ds = d.chain.transducer.outputs d.chain.init ds)
    (cs : List (Signal I)) :
    (cons p rest).transducer.outputs (cons p rest).init cs
      = (skip p d).chain.transducer.outputs (skip p d).chain.init cs := by
  have hcopy : ∀ {A ρ : Type} {M : Type → Type} {q : Proc ρ M A A}, q.isObserver = true →
      ∀ {υ : Type} {G : Type → Type} (rest : Chain υ G A R) cs,
        (cons q rest).transducer.outputs (cons q rest).init cs
          = rest.transducer.outputs rest.init cs := by
    intro A ρ M q hq υ G rest cs
    exact Transducer.outputs_comp_copy (Proc.observer_step hq) rest.transducer q.init rest.init cs
  cases p with
  | doDebug => exact (hcopy rfl rest cs).trans (h cs)
  | debugWhile f => exact (hcopy rfl rest cs).trans (h cs)
  | doEach f => exact (hcopy rfl rest cs).trans (h cs)
  | tee q tx => exact (hcopy rfl rest cs).trans (h cs)
  | map f => exact Transducer.outputs_comp_congr _ h _ cs
  | mapVal1 v f => exact Transducer.outputs_comp_congr _ h _ cs
  | reduce initial f => exact Transducer.outputs_comp_congr _ h _ cs
  | enumerate => exact Transducer.outputs_comp_congr _ h _ cs
  | unzip => exact Transducer.outputs_comp_congr _ h _ cs
  | take max => exact Transducer.outputs_comp_congr _ h _ cs

lemma erase_outputs (c : Chain σ F I O) (cs : List (Signal I)) :
    c.transducer.outputs c.init cs
      = c.erase.chain.transducer.outputs c.erase.chain.init cs := by
  induction c with
  | nil => rfl
  | cons p rest ih => exact skip_outputs p rest rest.erase ih cs

section Pushed

variable {m : Type → Type} [Monad m] [Panics m] [LawfulMonad m] {T : Type}

/-- **Observers are not noticed.**  Take every `DoDebug`, `DebugWhile`, `Do` and `Tee` out of a chain:
whatever subscriber is at its end, with whatever effects, and whatever calls are made at the top, the
subscriber ends in the same state and every `on_next` is answered the same. -/
theorem erase_pushed (c : Chain σ F I O) (sub : Subscriber m T O) (t : T) (cs : List (Signal I)) :
    c.pushed sub t cs = c.erase.chain.pushed sub t cs := by
  rw [pushed_eq, pushed_eq, erase_outputs]

/-- A debugged `Take` of two, given three numbers. -/
theorem erase_pushed_take :
    let sub : Subscriber Outcome (Watched (List ℕ) ℕ) ℕ := (Collect ℕ).subscriber
    ∃ w, (cons Proc.doDebug (cons (Proc.take 2) (cons (Proc.doEach fun _ => ()) nil))).pushed sub
        ⟨[], []⟩ [Signal.next 7, Signal.next 8, Signal.next 9]
      = Outcome.ret (some w, [true, true, false]) ∧ w.state = [7, 8] := by
  intro sub
  refine ⟨⟨[7, 8], [Received.next 7 true, Received.next 8 true, Received.complete false]⟩, ?_, rfl⟩
  rw [erase_pushed]
  rfl

end Pushed

end Chain

/-! ## What they show -/

namespace Proc

variable {σ : Type} {N : Type → Type} {I O : Type}

/-- What an observer shows for the values it has seen: what `DoDebug` and `DebugWhile` have printed,
what `Do` has called its procedure on, and the queue of a `Tee` after these values were sent. -/
def recorded : Proc σ N I O → List I → σ
  | doDebug, xs => xs
  | debugWhile f, xs => xs.filter f
  | doEach _, xs => xs
  | tee q tx, xs => xs.foldl (fun tx t => (q.send tx t).1) tx
  | p, _ => p.init

lemma recorded_nil (p : Proc σ N I O) : p.recorded [] = p.init := by
  cases p <;> rfl

/-- One more value, one more entry. -/
lemma push_recorded {p : Proc σ N I O} (hp : p.isObserver = true) (xs : List I) (x : I) :
    (p.push (p.recorded xs) x).1 = p.recorded (xs ++ [x]) := by
  cases p with
  | doDebug => rfl
  | debugWhile f =>
      simp only [push, recorded, List.filter_append]
      by_cases hx : f x = true
      · simp [hx]
      · simp [hx]
  | doEach f => rfl
  | tee q tx => simp [push, recorded]
  | _ => cases hp

lemma run_recorded {p : Proc σ N I O} (hp : p.isObserver = true) (xs : List I)
    (cs : List (Signal I)) :
    (p.transducer.run (p.recorded xs) cs).1 = p.recorded (xs ++ Signal.values cs) := by
  induction cs generalizing xs with
  | nil => simp
  | cons c cs ih =>
      rw [Transducer.run_cons]
      cases c with
      | next t => simp [push_recorded hp, ih]
      | complete f => simp [ih]
      | error e => simp [ih]

variable {m : Type → Type} [Monad m] [Panics m] [LawfulMonad m] {S A : Type}

/-- What is asked of an observer is asked of the subscriber behind it. -/
lemma serve_observer_stage {p : Proc σ N A A} (hp : p.isObserver = true) (sub : Subscriber m S A)
    (xs : List A) (x : S) {cs : List (Signal I)} {dss : List (List (Signal A))}
    (hlen : dss.length = cs.length) :
    (p.toSubscriber sub).serve (p.assemble (p.recorded xs) x) cs dss
      = (fun r => (p.assemble (p.recorded (xs ++ Signal.values dss.flatten)) r.1, r.2))
          <$> sub.serve x cs dss := by
  induction cs generalizing xs x dss with
  | nil =>
      obtain rfl := List.length_eq_zero_iff.mp hlen
      simp [Subscriber.serve]
  | cons c cs ih =>
      cases dss with
      | nil => cases hlen
      | cons ds dss =>
          have hrest : dss.length = cs.length := by simpa using hlen
          rw [Subscriber.serve, p.feed_assemble, Transducer.run_copy (observer_step hp),
            run_recorded hp]
          simp [Subscriber.serve, ih _ _ hrest]

end Proc

section Records

variable {m : Type → Type} [Monad m] [Panics m] [LawfulMonad m]
variable {σ ρ : Type} {F N : Type → Type} {I A S : Type}

/-- **Observers show what went through.**  An observer below any chain and above any subscriber: the
subscriber behind it and the answers are what they would be without it, and what it shows are the
values that the chain above made of the calls, each once and in order. -/
theorem observer_records (c : Chain σ F I A) {p : Proc ρ N A A} (hp : p.isObserver = true)
    (sub : Subscriber m S A) (x : S) (cs : List (Signal I)) :
    c.pushed (p.toSubscriber sub) (p.build sub x) cs
      = (fun r => (r.1.map (p.assemble (p.recorded
            (Signal.values (c.transducer.run c.init cs).2))), r.2))
          <$> c.pushed sub x cs := by
  have hserve := Proc.serve_observer_stage hp sub [] (sub.onSubscribe x 0)
    (c.transducer.length_outputs c.init cs)
  rw [Proc.recorded_nil, List.nil_append, Transducer.flatten_outputs] at hserve
  rw [Chain.pushed_eq, Chain.pushed_eq, p.onSubscribe_build, hserve]
  simp

/-- A `Tee` below a `Take` of two gets two of three numbers. -/
theorem observer_records_tee :
    let p := Proc.tee (⟨fun tx t => (tx ++ [t], Except.ok ())⟩ : Queue (List ℕ) ℕ) []
    let sub : Subscriber Outcome (Watched (List ℕ) ℕ) ℕ := (Collect ℕ).subscriber
    ∃ w, (Chain.cons (Proc.take 2) Chain.nil).pushed (p.toSubscriber sub) (p.build sub ⟨[], []⟩)
        [Signal.next 7, Signal.next 8, Signal.next 9]
      = Outcome.ret (some (p.assemble [7, 8] w), [true, true, false]) ∧ w.state = [7, 8] := by
  intro p sub
  refine ⟨⟨[7, 8], [Received.next 7 true, Received.next 8 true, Received.complete false]⟩, ?_, rfl⟩
  rw [observer_records _ rfl sub]
  rfl

end Records

end Rx
