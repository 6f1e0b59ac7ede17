import RxRust.Core.Runs

/-!
# What a run shows

An observer of a system sees some of its steps only, and of those only a part.  `shows s e` is what
the observer sees when the event `e` happens in `s`, or `none` if the step is internal.

* `Shown step shows s es os t` — the events `es` lead from `s` to `t`, and show `os`.
* `Shown.append`, `Shown.single` — observed runs compose, and one step is one.
* **`Shown.simulate`** — forward simulation: if each step of one system can be answered by steps of
  a second one that show the same, then whatever the first one shows the second one can show.
* `watch` — carries out a list of events and writes down what they show.
* `Reach.of_commutes` — if the steps of one system are the images of the steps of another, so are
  its runs.
-/

namespace Core

variable {σ τ ε ε' o : Type}

/-- The events lead from one state to the other, and an observer sees the list. -/
inductive Shown (step : σ → ε → Outcome σ) (shows : σ → ε → Option o) (s : σ) :
    List ε → List o → σ → Prop
  | nil : Shown step shows s [] [] s
  | snoc {es : List ε} {os : List o} {t u : σ} {e : ε} : Shown step shows s es os t →
      step t e = Outcome.ret u → Shown step shows s (es ++ [e]) (os ++ (shows t e).toList) u

namespace Shown

variable {step : σ → ε → Outcome σ} {shows : σ → ε → Option o}
variable {step' : τ → ε' → Outcome τ} {shows' : τ → ε' → Option o}

/-- One step. -/
theorem single {s t : σ} {e : ε} (h : step s e = Outcome.ret t) :
    Shown step shows s [e] (shows s e).toList t := by
  have hnil : Shown step shows s [] [] s := Shown.nil
  simpa using hnil.snoc h

/-- Observed runs compose. -/
theorem append {s t u : σ} {es fs : List ε} {os ps : List o} (h₁ : Shown step shows s es os t)
    (h₂ : Shown step shows t fs ps u) : Shown step shows s (es ++ fs) (os ++ ps) u := by
  induction h₂ with
  | nil => simpa using h₁
  | snoc _ hs ih =>
      rw [← List.append_assoc, ← List.append_assoc]
      exact Shown.snoc ih hs

/-- **Forward simulation.**  What the one system shows in a run, the other one shows in a run. -/
theorem simulate {R : σ → τ → Prop} {s t : σ} {s' : τ} {es : List ε} {os : List o} (h₀ : R s s')
    (hstep : ∀ t t' e u, R t t' → step t e = Outcome.ret u →
      ∃ fs u', Shown step' shows' t' fs (shows t e).toList u' ∧ R u u')
    (h : Shown step shows s es os t) : ∃ fs t', Shown step' shows' s' fs os t' ∧ R t t' := by
  induction h with
  | nil => exact ⟨[], s', Shown.nil, h₀⟩
  | @snoc es os t u e _ hs ih =>
      obtain ⟨fs, t', ht', hR⟩ := ih
      obtain ⟨gs, u', hu', hR'⟩ := hstep t t' e u hR hs
      exact ⟨fs ++ gs, u', ht'.append hu', hR'⟩

end Shown

/-- Carry out a list of events and write down what they show. -/
def watch (step : σ → ε → Outcome σ) (shows : σ → ε → Option o) : σ → List ε → Option (List o × σ)
  | s, [] => some ([], s)
  | s, e :: es =>
      match step s e with
      | Outcome.ret t => (watch step shows t es).map fun r => ((shows s e).toList ++ r.1, r.2)
      | _ => none

/-- What is watched is shown. -/
theorem shown_of_watch {step : σ → ε → Outcome σ} {shows : σ → ε → Option o} {s t : σ}
    {es : List ε} {os : List o} (h : watch step shows s es = some (os, t)) :
    Shown step shows s es os t := by
  induction es generalizing s os with
  | nil =>
      obtain ⟨rfl, rfl⟩ := Prod.mk.inj (Option.some.inj h)
      exact Shown.nil
  | cons e es ih =>
      cases hs : step s e with
      | ret u =>
          simp only [watch, hs, Option.map_eq_some_iff] at h
          obtain ⟨⟨ps, v⟩, hrest, heq⟩ := h
          obtain ⟨rfl, rfl⟩ := Prod.mk.inj heq
          exact (Shown.single hs).append (ih hrest)
      | panic msg => simp [watch, hs] at h
      | stuck => simp [watch, hs] at h

/-- **Runs of an image.**  Let each step of the one system, from the image of a state of the other, be
the image of the other one's step.  Then what it reaches from an image is an image, by a run of the
other. -/
theorem Reach.of_commutes {step : σ → ε → Outcome σ} {step' : τ → ε → Outcome τ}
    {ok : σ → ε → Prop} {ok' : τ → ε → Prop} {f : σ → τ}
    (hstep : ∀ s e, step' (f s) e = f <$> step s e) (hok : ∀ s e, ok' (f s) e → ok s e) {s : σ}
    {t' : τ} {es : List ε} (h : Reach step' ok' (f s) es t') :
    ∃ t, t' = f t ∧ Reach step ok s es t := by
  induction h with
  | nil => exact ⟨s, rfl, Reach.nil⟩
  | snoc _ he hs ih =>
      obtain ⟨t, rfl, ht⟩ := ih
      rw [hstep] at hs
      obtain ⟨u, hu, rfl⟩ := Outcome.map_eq_ret.mp hs
      exact ⟨u, rfl, Reach.snoc ht (hok _ _ he) hu⟩

end Core
