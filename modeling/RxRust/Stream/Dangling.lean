import RxRust.Stream.Grammar
import RxRust.Stream.Pulls

/-!
# A pipeline without an end

`subscribe` is called from the terminal end upwards, and nothing checks that there is one: the last
processor may have no subscriber.  Its `on_next` then throws every value away and answers `true`, so
that nothing seems to be wrong, and the completion panics.

* `Proc.alone` — a processor as `new` makes it, with no subscriber.
* `Dangling` — a chain that ends in such a processor.
* **`dangling_never_returns`** — over an iterator the run panics, whatever the items and whatever
  the chain; and no run over any source comes back.
-/

namespace Rx

open Core

namespace Proc

variable {σ : Type} {N : Type → Type} {I O S : Type}

/-- `new`, and no `subscribe`. -/
def alone : Proc σ N I O → N S
  | doDebug => DoDebug.new
  | debugWhile f => DebugWhile.new f
  | doEach f => Do.new f
  | map f => Map.new f
  | mapVal1 v f => MapVal1.new v f
  | reduce initial f => Reduce.new initial f
  | enumerate => Enumerate.new
  | tee _ tx => Tee.new tx
  | unzip => Unzip.new
  | take max => Take.new max

lemma inner_alone (p : Proc σ N I O) : p.inner (p.alone : N S) = none := by
  cases p <;> rfl

variable {sub : Subscriber Outcome S O} {p : Proc σ N I O} {x : N S}

lemma inner_onSubscribe (index : UInt64) :
    p.inner ((p.toSubscriber sub).onSubscribe x index) = p.inner x := by
  cases p <;> rfl

/-- A value is thrown away, and more is asked for. -/
lemma onNext_alone (sub : Subscriber Outcome S O) (h : p.inner x = none) (t : I) :
    ∃ y, (p.toSubscriber sub).onNext x t = Outcome.ret (y, true) ∧ p.inner y = none := by
  cases p with
  | reduce initial f =>
      -- the state moves on although nobody will see it
      have hx : x.subscriber = none := h
      exact ⟨{ x with state := (x.func x.state t).1 },
        by simp [toSubscriber, Reduce.toSubscriber, Reduce.onNext, hx], h⟩
  | _ =>
      have hx : x.subscriber = none := h
      refine ⟨x, ?_, h⟩
      simp [toSubscriber, DoDebug.toSubscriber, DoDebug.onNext, DebugWhile.toSubscriber,
        DebugWhile.onNext, Do.toSubscriber, Do.onNext, Map.toSubscriber, Map.onNext,
        MapVal1.toSubscriber, MapVal1.onNext, Enumerate.toSubscriber, Enumerate.onNext,
        Tee.toSubscriber, Tee.onNext, Unzip.toSubscriber, Unzip.onNext, Take.toSubscriber,
        Take.onNext, hx]

/-- The message of a processor that is to pass on a completion and has nobody to pass it to. -/
def noSubscriber : String := "on_complete called but I don't have a subscriber"

lemma onComplete_alone (h : p.inner x = none) (f : Bool) :
    (p.toSubscriber sub).onComplete x f = Outcome.panic noSubscriber := by
  have hpass : defaultPassComplete sub none f = Outcome.panic noSubscriber := rfl
  cases p with
  | _ =>
      have hx : x.subscriber = none := h
      simp [toSubscriber, DoDebug.toSubscriber, DebugWhile.toSubscriber, Do.toSubscriber,
        Map.toSubscriber, MapVal1.toSubscriber, Reduce.toSubscriber, Enumerate.toSubscriber,
        Tee.toSubscriber, Unzip.toSubscriber, Take.toSubscriber, hx, hpass]

/-- The calls that a chain makes for an item: thrown away, or a panic. -/
lemma feed_alone (sub : Subscriber Outcome S O) (h : p.inner x = none) {cs : List (Signal I)}
    (hcs : ∀ c ∈ cs, c.isNext = true ∨ c = Signal.complete false) :
    (p.toSubscriber sub).feed x cs = Outcome.panic noSubscriber ∨
      ∃ y, (p.toSubscriber sub).feed x cs = Outcome.ret (y, !cs.isEmpty) ∧ p.inner y = none := by
  induction cs generalizing x with
  | nil => exact Or.inr ⟨x, rfl, h⟩
  | cons c cs ih =>
      have hrest : ∀ d ∈ cs, d.isNext = true ∨ d = Signal.complete false :=
        fun d hd => hcs d (List.mem_cons_of_mem _ hd)
      rcases hcs c List.mem_cons_self with hc | rfl
      · cases c with
        | complete f => cases hc
        | error e => cases hc
        | next t =>
            obtain ⟨y, hy, hinner⟩ := onNext_alone sub h t
            rcases ih hinner hrest with hpanic | ⟨z, hz, hinner'⟩
            · exact Or.inl (by simp [Subscriber.feed, hy, hpanic])
            · exact Or.inr ⟨z, by simp [Subscriber.feed, hy, hz], hinner'⟩
      · exact Or.inl (by simp [Subscriber.feed, onComplete_alone h])

end Proc

/-! ## Chains -/

section Chains

variable {σ ρ : Type} {F N : Type → Type} {I A B S : Type}

/-- For values a chain makes no call but `on_next` and `on_complete(false)`. -/
lemma Chain.run_next_or_complete (c : Chain σ F I A) (s : σ) {cs : List (Signal I)}
    (hcs : ∀ d ∈ cs, d.isNext = true ∨ d = Signal.complete false) :
    ∀ d ∈ (c.transducer.run s cs).2, d.isNext = true ∨ d = Signal.complete false := by
  induction c with
  | nil => rwa [transducer, Transducer.run_ident]
  | cons p rest ih =>
      rw [transducer_cons_run]
      refine ih s.2 ?_
      generalize s.1 = s₁
      induction cs generalizing s₁ with
      | nil => simp
      | cons e cs ihcs =>
          rw [Transducer.run_cons]
          intro d hd
          rcases List.mem_append.mp hd with hd | hd
          · rcases hcs e List.mem_cons_self with he | rfl
            · cases e with
              | complete f => cases he
              | error err => cases he
              | next t =>
                  cases p with
                  | take max =>
                      rcases Proc.take_push_cases max s₁ t with hpush | hpush
                      · simp_all [Signal.isNext]
                      · simp_all [Signal.isNext]
                  | _ => exact Or.inl (Proc.push_isNext rfl s₁ t d hd)
            · exact Or.inr (by simpa using hd)
          · exact ihcs (fun d hd => hcs d (List.mem_cons_of_mem _ hd)) _ d hd

/-- The boxed chain ends in a processor that has no subscriber. -/
def Dangling (c : Chain σ F I A) (p : Proc ρ N A B) (x : F (N S)) : Prop :=
  ∃ s y, x = c.assemble y s ∧ p.inner y = none

variable {c : Chain σ F I A} {p : Proc ρ N A B} {x : F (N S)}

/-- The methods of such a chain. -/
abbrev danglingSub (c : Chain σ F I A) (p : Proc ρ N A B) (sub : Subscriber Outcome S B) :
    Subscriber Outcome (F (N S)) I := c.toSubscriber (p.toSubscriber sub)

/-- An item is thrown away and more is asked for, or a `Take` on the way completes. -/
lemma Dangling.onNext (sub : Subscriber Outcome S B) (h : Dangling c p x) (t : I) :
    (danglingSub c p sub).onNext x t = Outcome.panic Proc.noSubscriber ∨
      ∃ y, (danglingSub c p sub).onNext x t = Outcome.ret (y, true) ∧ Dangling c p y := by
  obtain ⟨s, y, rfl, hinner⟩ := h
  have hcalls : ∀ d ∈ (c.transducer.run s [Signal.next t]).2,
      d.isNext = true ∨ d = Signal.complete false :=
    c.run_next_or_complete s (by simp [Signal.isNext])
  have hne : (c.transducer.run s [Signal.next t]).2 ≠ [] := c.run_ne_nil s (by simp)
  rw [Transducer.run_singleton] at hcalls hne
  rw [danglingSub, c.onNext_assemble]
  rcases Proc.feed_alone sub hinner hcalls with hpanic | ⟨z, hz, hinner'⟩
  · exact Or.inl (by rw [hpanic]; rfl)
  · refine Or.inr ⟨c.assemble z (c.transducer.step s (Signal.next t)).1, ?_, _, z, rfl, hinner'⟩
    rw [hz]
    simp [hne]

lemma Dangling.onComplete (sub : Subscriber Outcome S B) (h : Dangling c p x) (f : Bool) :
    (danglingSub c p sub).onComplete x f = Outcome.panic Proc.noSubscriber := by
  obtain ⟨s, y, rfl, hinner⟩ := h
  rw [danglingSub, c.onComplete_assemble, Proc.onComplete_alone hinner]
  rfl

/-- A chain as it is built, above a processor that was only made. -/
lemma dangling_build (c : Chain σ F I A) (p : Proc ρ N A B) (sub : Subscriber Outcome S B) :
    Dangling c p ((danglingSub c p sub).onSubscribe
      (c.build (p.toSubscriber sub) (p.alone : N S)) 0) := by
  rw [danglingSub, c.onSubscribe_build]
  exact ⟨_, _, rfl, by rw [Proc.inner_onSubscribe, Proc.inner_alone]⟩

/-! ## Runs -/

/-- A loop whose publisher never answers `false` does not come back. -/
lemma run_ne_ret {P : Type} {next : P → Outcome (P × Bool)} (Inv : P → Prop)
    (hnext : ∀ p q b, Inv p → next p = Outcome.ret (q, b) → b = true ∧ Inv q) {p : P} (h : Inv p)
    (fuel : ℕ) (q : P) : run next fuel p ≠ Outcome.ret q := by
  induction fuel generalizing p with
  | zero => simp [run]
  | succ fuel ih =>
      intro hrun
      obtain ⟨⟨r, b⟩, hr, hrun⟩ := Outcome.bind_eq_ret.mp hrun
      obtain ⟨rfl, hinv⟩ := hnext p r b h hr
      exact ih hinv hrun

/-- What `on_next` can come back with. -/
lemma Dangling.onNext_ret {sub : Subscriber Outcome S B} (h : Dangling c p x) {t : I}
    {y : F (N S)} {b : Bool} (hs : (danglingSub c p sub).onNext x t = Outcome.ret (y, b)) :
    b = true ∧ Dangling c p y := by
  rcases h.onNext sub t with hpanic | ⟨z, hz, hdangling⟩
  · cases hpanic.symm.trans hs
  · rw [hz] at hs
    simp only [Outcome.ret.injEq, Prod.mk.injEq] at hs
    obtain ⟨rfl, rfl⟩ := hs
    exact ⟨rfl, hdangling⟩

/-- Over an iterator: every item is thrown away, and then the completion panics, if no other has
before. -/
lemma run_dangling (sub : Subscriber Outcome S B) (h : Dangling c p x) (xs : List I) (k : ℕ) :
    run (IterPublisher.next (danglingSub c p sub)) (xs.length + 1 + k) ⟨xs, some x⟩
      = Outcome.panic Proc.noSubscriber := by
  induction xs generalizing x with
  | nil =>
      rw [List.length_nil, Nat.zero_add, Nat.add_comm, run, IterPublisher.next]
      simp [h.onComplete sub]
  | cons y xs ih =>
      rw [List.length_cons, Nat.add_right_comm, Nat.add_right_comm _ 1 k, run, IterPublisher.next]
      rcases h.onNext sub y with hpanic | ⟨z, hz, hdangling⟩
      · simp [hpanic]
      · simpa [hz, Nat.add_right_comm] using ih hdangling

/-- **A pipeline without an end never returns.**  Whatever the chain and whatever the processor at
its end that nobody subscribed to: over an iterator the run panics, for every list of items; and over
a channel, a `Repeat` or a `RndGen` it never comes back either. -/
theorem dangling_never_returns (c : Chain σ F I A) (p : Proc ρ N A B)
    (sub : Subscriber Outcome S B) :
    let head := danglingSub c p sub
    let boxed : F (N S) := c.build (p.toSubscriber sub) p.alone
    (∀ xs k, run (IterPublisher.next head) (xs.length + 1 + k)
        ((IterPublisher.new xs).subscribe head boxed)
      = Outcome.panic "on_complete called but I don't have a subscriber") ∧
    (∀ rx fuel q, run (Coupler.next head) fuel ((Coupler.new rx).subscribe head boxed)
      ≠ Outcome.ret q) ∧
    (∀ v fuel q, run (Repeat.next head) fuel ((Repeat.new v).subscribe head boxed)
      ≠ Outcome.ret q) ∧
    ∀ {G : Type} (arbitrary : G → I × G) (gen : G) fuel q,
      run (RndGen.next arbitrary head) fuel ((RndGen.new gen).subscribe head boxed)
        ≠ Outcome.ret q := by
  intro head boxed
  have hbuilt : Dangling c p (head.onSubscribe boxed 0) := dangling_build c p sub
  refine ⟨fun xs k => run_dangling sub hbuilt xs k, ?_, ?_, ?_⟩
  · intro rx fuel q
    refine run_ne_ret (fun r => ∃ x, r.subscriber = some x ∧ Dangling c p x) ?_
      ⟨_, rfl, hbuilt⟩ fuel q
    rintro ⟨rx, subscriber⟩ q b ⟨x, rfl, hx⟩ hs
    obtain ⟨got, -, hs⟩ := Outcome.bind_eq_ret.mp hs
    obtain ⟨got, rx'⟩ := got
    cases got with
    | ok d =>
        obtain ⟨⟨y, b'⟩, hy, hs⟩ := Outcome.bind_eq_ret.mp hs
        obtain ⟨rfl, hdangling⟩ := hx.onNext_ret hy
        obtain ⟨rfl, rfl⟩ := Prod.mk.inj (Outcome.ret.inj hs)
        exact ⟨rfl, y, rfl, hdangling⟩
    | error e =>
        obtain ⟨y, hy, -⟩ := Outcome.bind_eq_ret.mp hs
        cases (hx.onComplete sub false).symm.trans hy
  · intro v fuel q
    refine run_ne_ret (fun r => ∃ x, r.subscriber = some x ∧ Dangling c p x) ?_
      ⟨_, rfl, hbuilt⟩ fuel q
    rintro ⟨v, subscriber⟩ q b ⟨x, rfl, hx⟩ hs
    obtain ⟨⟨y, b'⟩, hy, hs⟩ := Outcome.bind_eq_ret.mp hs
    obtain ⟨rfl, hdangling⟩ := hx.onNext_ret hy
    obtain ⟨rfl, rfl⟩ := Prod.mk.inj (Outcome.ret.inj hs)
    exact ⟨rfl, y, rfl, hdangling⟩
  · intro G arbitrary gen fuel q
    refine run_ne_ret (fun r => ∃ x, r.subscriber = some x ∧ Dangling c p x) ?_
      ⟨_, rfl, hbuilt⟩ fuel q
    rintro ⟨subscriber, gen⟩ q b ⟨x, rfl, hx⟩ hs
    obtain ⟨⟨y, b'⟩, hy, hs⟩ := Outcome.bind_eq_ret.mp hs
    obtain ⟨rfl, hdangling⟩ := hx.onNext_ret hy
    obtain ⟨rfl, rfl⟩ := Prod.mk.inj (Outcome.ret.inj hs)
    exact ⟨rfl, y, rfl, hdangling⟩

end Chains

end Rx
