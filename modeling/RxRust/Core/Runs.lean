import RxRust.Core.Outcome

/-!
# Runs of a step function

A system is a state, a type of events and a step function that says what one event does; the step
may also panic or not come back, and then there is no next state.

* `Reach step ok s es t` — the events `es` lead from `s` to `t`, and every one of them met the
  condition `ok` in the state it found.  With `ok := fun _ _ => True` these are all the runs.
* `execute` — carries out a list of events; what it reaches is reached by a run.
* `Reach.invariant` — what holds at the start and is kept by every step that meets the condition
  holds in every state reached; `invariant_of_mem` is the same for runs of certain events only.
* `Reach.snoc_iff`, `Reach.events_iff` — when a run meets a condition.
* `Reach.project` — if the events outside a kind are not noticed by a second run, and those of the
  kind can be repeated there, then a run leaves its events of that kind as a run.
* `Reach.always_iff` — when a step keeps a property exactly if it meets the condition, the property
  holds all along a run exactly if the run meets the condition throughout; `always_iff_within` is
  the same beside an invariant.
-/

namespace Core

variable {σ ε : Type} {step : σ → ε → Outcome σ} {ok : σ → ε → Prop}

/-- The events lead from one state to the other, each meeting `ok` in the state it finds. -/
inductive Reach (step : σ → ε → Outcome σ) (ok : σ → ε → Prop) (s : σ) : List ε → σ → Prop
  | nil : Reach step ok s [] s
  | snoc {es : List ε} {t u : σ} {e : ε} : Reach step ok s es t → ok t e →
      step t e = Outcome.ret u → Reach step ok s (es ++ [e]) u

/-- The condition that every step meets: a run of it is just a run. -/
def anyStep : σ → ε → Prop := fun _ _ => True

namespace Reach

/-- **Invariants.**  A property of the start that every admissible step keeps holds throughout. -/
theorem invariant {P : σ → Prop} {s t : σ} {es : List ε} (h : Reach step ok s es t) (h₀ : P s)
    (hstep : ∀ t e u, P t → ok t e → step t e = Outcome.ret u → P u) : P t := by
  induction h with
  | nil => exact h₀
  | snoc _ hok hs ih => exact hstep _ _ _ ih hok hs

/-- **Invariants of runs with certain events only.** -/
theorem invariant_of_mem {P : σ → Prop} {p : ε → Prop} {s t : σ} {es : List ε}
    (h : Reach step ok s es t) (hp : ∀ e ∈ es, p e) (h₀ : P s)
    (hstep : ∀ t e u, P t → p e → ok t e → step t e = Outcome.ret u → P u) : P t := by
  induction h with
  | nil => exact h₀
  | snoc _ hok hs ih =>
      rw [List.forall_mem_append] at hp
      exact hstep _ _ _ (ih hp.1) (hp.2 _ (List.mem_singleton.mpr rfl)) hok hs

/-- A run under a condition is a run under any weaker one. -/
theorem mono {ok' : σ → ε → Prop} {s t : σ} {es : List ε} (h : Reach step ok s es t)
    (himp : ∀ t e, ok t e → ok' t e) : Reach step ok' s es t := by
  induction h with
  | nil => exact Reach.nil
  | snoc _ hok hs ih => exact Reach.snoc ih (himp _ _ hok) hs

/-- One step is a run. -/
theorem single {s t : σ} {e : ε} (hok : ok s e) (h : step s e = Outcome.ret t) :
    Reach step ok s [e] t := Reach.snoc Reach.nil hok h

/-- Runs compose. -/
theorem append {s t u : σ} {es fs : List ε} (h₁ : Reach step ok s es t)
    (h₂ : Reach step ok t fs u) : Reach step ok s (es ++ fs) u := by
  induction h₂ with
  | nil => simpa using h₁
  | snoc _ hok hs ih =>
      rw [← List.append_assoc]
      exact Reach.snoc ih hok hs

/-- Steps are functions, so a list of events leads to one state only. -/
theorem unique {ok' : σ → ε → Prop} {s t u : σ} {es : List ε} (h₁ : Reach step ok s es t)
    (h₂ : Reach step ok' s es u) : t = u := by
  induction h₁ generalizing u with
  | nil =>
      generalize hes : ([] : List ε) = es at h₂
      cases h₂ with
      | nil => rfl
      | snoc _ _ _ => simp at hes
  | @snoc es t v e _ _ hs ih =>
      generalize hfs : es ++ [e] = fs at h₂
      cases h₂ with
      | nil => simp at hfs
      | @snoc es' t' _ e' h' _ hs' =>
          obtain ⟨rfl, he⟩ := List.append_inj' hfs rfl
          obtain rfl : e = e' := by simpa using he
          rw [ih h', hs'] at hs
          exact (Outcome.ret.inj hs).symm

/-- A non-empty run is a shorter one and a last step. -/
theorem snoc_inv {s u : σ} {es : List ε} {e : ε} (h : Reach step ok s (es ++ [e]) u) :
    ∃ t, Reach step ok s es t ∧ ok t e ∧ step t e = Outcome.ret u := by
  generalize hfs : es ++ [e] = fs at h
  cases h with
  | nil => simp at hfs
  | @snoc es' t _ e' h' hok hs =>
      obtain ⟨rfl, he⟩ := List.append_inj' hfs rfl
      obtain rfl : e = e' := by simpa using he
      exact ⟨t, h', hok, hs⟩

/-- A run with one more step meets a condition exactly if the run and the step do. -/
theorem snoc_iff {s t u : σ} {es : List ε} {e : ε} (h : Reach step anyStep s es t)
    (hs : step t e = Outcome.ret u) :
    Reach step ok s (es ++ [e]) u ↔ Reach step ok s es t ∧ ok t e := by
  constructor
  · intro hu
    obtain ⟨t', ht', hok, -⟩ := hu.snoc_inv
    obtain rfl : t = t' := h.unique ht'
    exact ⟨ht', hok⟩
  · rintro ⟨ht, hok⟩
    exact Reach.snoc ht hok hs

/-- A run meets a condition on its events exactly if each of them does. -/
theorem events_iff {p : ε → Prop} {s t : σ} {es : List ε} (h : Reach step anyStep s es t) :
    Reach step (fun _ e => p e) s es t ↔ ∀ e ∈ es, p e := by
  induction h with
  | nil => exact ⟨fun _ => by simp, fun _ => Reach.nil⟩
  | snoc hes _ hs ih =>
      rw [snoc_iff hes hs, ih]
      simp [or_imp, forall_and]

/-- **Projection.**  Let a relation to the states of a second run survive every event outside `own`
that only the first run takes, and every event of `own` that both take.  Then the events of `own`
alone are a run, and the relation holds at the end. -/
theorem project {R : σ → σ → Prop} {own : ε → Bool} {s s' t : σ} {es : List ε} (h₀ : R s s')
    (hother : ∀ t t' e u, R t t' → own e = false → ok t e → step t e = Outcome.ret u → R u t')
    (hown : ∀ t t' e u, R t t' → own e = true → ok t e → step t e = Outcome.ret u →
      ∃ u', ok t' e ∧ step t' e = Outcome.ret u' ∧ R u u')
    (h : Reach step ok s es t) : ∃ t', Reach step ok s' (es.filter own) t' ∧ R t t' := by
  induction h with
  | nil => exact ⟨s', Reach.nil, h₀⟩
  | @snoc es t u e _ hok hs ih =>
      obtain ⟨t', ht', hR⟩ := ih
      rw [List.filter_append]
      cases he : own e with
      | false =>
          refine ⟨t', ?_, hother t t' e u hR he hok hs⟩
          simpa [he] using ht'
      | true =>
          obtain ⟨u', hok', hs', hR'⟩ := hown t t' e u hR he hok hs
          refine ⟨u', ?_, hR'⟩
          simpa [he] using Reach.snoc ht' hok' hs'

/-- **Exact conditions.**  If a step keeps a property exactly when it meets the condition, then the
property holds all along a run exactly when every step of the run meets the condition. -/
theorem always_iff {P : σ → Prop} {s t : σ} {es : List ε} (h₀ : P s)
    (hstep : ∀ t e u, P t → step t e = Outcome.ret u → (P u ↔ ok t e))
    (h : Reach step anyStep s es t) :
    (∀ fs u, fs <+: es → Reach step anyStep s fs u → P u) ↔ Reach step ok s es t := by
  have hkeep : ∀ {gs v}, Reach step ok s gs v → P v := by
    intro gs v hv
    exact hv.invariant h₀ fun t e u ht hok hs => (hstep t e u ht hs).mpr hok
  induction h with
  | nil =>
      refine ⟨fun _ => Reach.nil, fun _ fs u hfs hu => ?_⟩
      obtain rfl := List.prefix_nil.mp hfs
      obtain rfl : u = s := hu.unique (Reach.nil : Reach step ok s [] s)
      exact h₀
  | @snoc es t u e hes _ hs ih =>
      constructor
      · intro hall
        have ht : Reach step ok s es t :=
          ih.mp fun fs v hfs hv => hall fs v (hfs.trans (List.prefix_append es [e])) hv
        have hu : P u := hall _ u (List.prefix_refl _) (Reach.snoc hes trivial hs)
        exact Reach.snoc ht ((hstep t e u (hkeep ht) hs).mp hu) hs
      · intro hok fs v hfs hv
        obtain ⟨ht, -⟩ := (snoc_iff hes hs).mp hok
        rcases List.prefix_concat_iff.mp hfs with rfl | hfs
        · obtain rfl : v = u := hv.unique hok
          exact hkeep hok
        · exact ih.mpr ht fs v hfs hv

/-- The same beside an invariant that every step keeps. -/
theorem always_iff_within {J P : σ → Prop} {s t : σ} {es : List ε} (hJ₀ : J s) (h₀ : P s)
    (hJ : ∀ t e u, J t → step t e = Outcome.ret u → J u)
    (hstep : ∀ t e u, J t → P t → step t e = Outcome.ret u → (P u ↔ ok t e))
    (h : Reach step anyStep s es t) :
    (∀ fs u, fs <+: es → Reach step anyStep s fs u → P u) ↔ Reach step ok s es t := by
  have hkept : ∀ {fs u}, Reach step anyStep s fs u → J u := by
    intro fs u hu
    exact hu.invariant hJ₀ fun t e u ht _ hs => hJ t e u ht hs
  have hboth : (∀ fs u, fs <+: es → Reach step anyStep s fs u → J u ∧ P u) ↔
      Reach step ok s es t := by
    refine h.always_iff ⟨hJ₀, h₀⟩ fun t e u ht hs => ?_
    rw [← hstep t e u ht.1 ht.2 hs]
    exact and_iff_right (hJ t e u ht.1 hs)
  rw [← hboth]
  constructor
  · exact fun hall fs u hfs hu => ⟨hkept hu, hall fs u hfs hu⟩
  · exact fun hall fs u hfs hu => (hall fs u hfs hu).2

end Reach

/-- Carry out a list of events, testing the condition before each. -/
def execute (step : σ → ε → Outcome σ) (test : σ → ε → Bool) : σ → List ε → Option σ
  | s, [] => some s
  | s, e :: es =>
      if test s e then
        match step s e with
        | Outcome.ret t => execute step test t es
        | _ => none
      else none

/-- A list of events that can be carried out is a run. -/
theorem reach_of_execute {test : σ → ε → Bool} (htest : ∀ s e, test s e = true → ok s e)
    {s t : σ} {es : List ε} (h : execute step test s es = some t) : Reach step ok s es t := by
  induction es generalizing s with
  | nil =>
      obtain rfl : s = t := Option.some.inj h
      exact Reach.nil
  | cons e es ih =>
      simp only [execute] at h
      split at h
      · rename_i hte
        cases hs : step s e with
        | ret u =>
            rw [hs] at h
            exact (Reach.snoc Reach.nil (htest s e hte) hs).append (ih h)
        | panic msg =>
            rw [hs] at h
            cases h
        | stuck =>
            rw [hs] at h
            cases h
      · cases h

end Core
