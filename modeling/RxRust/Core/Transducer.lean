import Mathlib.Data.List.Basic

/-!
# Transducers

A transducer reads its input one letter at a time, keeps a state, and answers each letter with a
finite list of output letters.  Fed with lists they compose like functions, and that is what lets a
chain of push-driven stages be read as a composition of list functions.

* `Transducer.run` — all the output for a list of input, with `run_append`.
* `Transducer.outputs` — what is written letter by letter, with `outputs_eq`: two machines whose
  states stay related write the same for every letter.
* `Transducer.comp` — every output letter of the first fed to the second, with `run_comp`: running
  the composition is running one after the other.
* `outputs_comp_congr`, `outputs_comp_assoc`, `outputs_comp_copy` — behind another machine, one that
  writes the same can take the place of the second; compositions associate; and a first one that
  copies its input is not noticed.
-/

namespace Core

/-- A machine with states `σ` that answers each letter of `α` with a list of letters of `β`. -/
structure Transducer (σ α β : Type) where
  step : σ → α → σ × List β

namespace Transducer

variable {σ τ α β γ : Type}

/-- The state after a list of input, and everything written on the way. -/
def run (T : Transducer σ α β) : σ → List α → σ × List β
  | s, [] => (s, [])
  | s, a :: as => ((T.run (T.step s a).1 as).1, (T.step s a).2 ++ (T.run (T.step s a).1 as).2)

@[simp] lemma run_nil (T : Transducer σ α β) (s : σ) : T.run s [] = (s, []) := rfl

lemma run_cons (T : Transducer σ α β) (s : σ) (a : α) (as : List α) :
    T.run s (a :: as)
      = ((T.run (T.step s a).1 as).1, (T.step s a).2 ++ (T.run (T.step s a).1 as).2) := rfl

@[simp] lemma run_singleton (T : Transducer σ α β) (s : σ) (a : α) :
    T.run s [a] = T.step s a := by
  simp [run]

/-- The second half of the input is read in the state the first half leaves. -/
theorem run_append (T : Transducer σ α β) (s : σ) (as bs : List α) :
    T.run s (as ++ bs)
      = ((T.run (T.run s as).1 bs).1, (T.run s as).2 ++ (T.run (T.run s as).1 bs).2) := by
  induction as generalizing s with
  | nil => simp
  | cons a as ih =>
      simp only [List.cons_append, run_cons]
      rw [ih]
      simp

/-- What is written for each letter. -/
def outputs (T : Transducer σ α β) : σ → List α → List (List β)
  | _, [] => []
  | s, a :: as => (T.step s a).2 :: T.outputs (T.step s a).1 as

/-- **Bisimulation.**  If a relation between the states of two machines, which may depend on what
has been read, survives every letter, and related states write the same, then the machines write the
same for every letter. -/
theorem outputs_eq {T : Transducer σ α β} {U : Transducer τ α β} {R : List α → σ → τ → Prop}
    {as : List α} {s : σ} {u : τ} (h₀ : R [] s u)
    (hstep : ∀ pre a s u, pre ++ [a] <+: as → R pre s u →
      (T.step s a).2 = (U.step u a).2 ∧ R (pre ++ [a]) (T.step s a).1 (U.step u a).1) :
    T.outputs s as = U.outputs u as := by
  have hgo : ∀ rest pre s u, pre ++ rest = as → R pre s u → T.outputs s rest = U.outputs u rest := by
    intro rest
    induction rest with
    | nil =>
        intro pre s u _ _
        rfl
    | cons a rest ih =>
        intro pre s u has hR
        have hsplit : pre ++ [a] ++ rest = as := by simpa using has
        obtain ⟨hout, hR'⟩ := hstep pre a s u ⟨rest, hsplit⟩ hR
        rw [outputs, outputs, hout, ih (pre ++ [a]) _ _ hsplit hR']
  exact hgo as [] s u rfl h₀

/-- The transducer that copies its input. -/
def ident (α : Type) : Transducer Unit α α where
  step := fun s a => (s, [a])

lemma run_ident (s : Unit) (as : List α) : (ident α).run s as = (s, as) := by
  induction as with
  | nil => rfl
  | cons a as ih =>
      have hstep : (ident α).step s a = (s, [a]) := rfl
      rw [run_cons, hstep, ih]
      rfl

/-- Every letter the first writes is read by the second. -/
def comp (T : Transducer σ α β) (U : Transducer τ β γ) : Transducer (σ × τ) α γ where
  step := fun s a =>
    let r := T.step s.1 a
    let q := U.run s.2 r.2
    ((r.1, q.1), q.2)

/-- **Running the composition is running one machine after the other.** -/
theorem run_comp (T : Transducer σ α β) (U : Transducer τ β γ) (s : σ) (u : τ) (as : List α) :
    (T.comp U).run (s, u) as
      = (((T.run s as).1, (U.run u (T.run s as).2).1), (U.run u (T.run s as).2).2) := by
  induction as generalizing s u with
  | nil => rfl
  | cons a as ih =>
      rw [run_cons, run_cons]
      have hstep : (T.comp U).step (s, u) a
          = (((T.step s a).1, (U.run u (T.step s a).2).1), (U.run u (T.step s a).2).2) := rfl
      rw [hstep, ih, run_append]

/-! ## Exchanging machines -/

variable {υ : Type}

lemma flatten_outputs (T : Transducer σ α β) (s : σ) (as : List α) :
    (T.outputs s as).flatten = (T.run s as).2 := by
  induction as generalizing s with
  | nil => rfl
  | cons a as ih => simp [outputs, run_cons, ih]

lemma length_outputs (T : Transducer σ α β) (s : σ) (as : List α) :
    (T.outputs s as).length = as.length := by
  induction as generalizing s with
  | nil => rfl
  | cons a as ih => simp [outputs, ih]

lemma outputs_append (T : Transducer σ α β) (s : σ) (as bs : List α) :
    T.outputs s (as ++ bs) = T.outputs s as ++ T.outputs (T.run s as).1 bs := by
  induction as generalizing s with
  | nil => rfl
  | cons a as ih => simp [outputs, run_cons, ih]

lemma outputs_comp_cons (T : Transducer σ α β) (U : Transducer τ β γ) (s : σ) (u : τ) (a : α)
    (as : List α) :
    (T.comp U).outputs (s, u) (a :: as) = (U.run u (T.step s a).2).2
      :: (T.comp U).outputs ((T.step s a).1, (U.run u (T.step s a).2).1) as := rfl

/-- **Exchange.**  A machine that writes the same for every input can take the place of the second
one of a composition. -/
theorem outputs_comp_congr (T : Transducer σ α β) {U : Transducer τ β γ} {V : Transducer υ β γ}
    {u : τ} {v : υ} (h : ∀ bs, U.outputs u bs = V.outputs v bs) (s : σ) (as : List α) :
    (T.comp U).outputs (s, u) as = (T.comp V).outputs (s, v) as := by
  induction as generalizing s u v with
  | nil => rfl
  | cons a as ih =>
      have hout : (U.run u (T.step s a).2).2 = (V.run v (T.step s a).2).2 := by
        rw [← flatten_outputs, h, flatten_outputs]
      have hrest : ∀ bs, U.outputs (U.run u (T.step s a).2).1 bs
          = V.outputs (V.run v (T.step s a).2).1 bs := by
        intro bs
        have happ := h ((T.step s a).2 ++ bs)
        rw [outputs_append, outputs_append, h] at happ
        exact List.append_cancel_left happ
      rw [outputs_comp_cons, outputs_comp_cons, hout, ih hrest]

/-- Three machines in a row, two and one or one and two. -/
theorem outputs_comp_assoc {δ : Type} (T : Transducer σ α β) (U : Transducer τ β γ)
    (V : Transducer υ γ δ) (s : σ) (u : τ) (v : υ) (as : List α) :
    (T.comp (U.comp V)).outputs (s, u, v) as = ((T.comp U).comp V).outputs ((s, u), v) as := by
  induction as generalizing s u v with
  | nil => rfl
  | cons a as ih =>
      rw [outputs_comp_cons, outputs_comp_cons, run_comp, ih]
      rfl

/-- A machine that copies its input is not noticed in front of another. -/
theorem outputs_comp_copy {T : Transducer σ α α} (h : ∀ s a, (T.step s a).2 = [a])
    (U : Transducer τ α β) (s : σ) (u : τ) (as : List α) :
    (T.comp U).outputs (s, u) as = U.outputs u as := by
  induction as generalizing s u with
  | nil => rfl
  | cons a as ih => rw [outputs_comp_cons, h, run_singleton, ih, outputs]

/-- And it writes what it reads. -/
lemma run_copy {T : Transducer σ α α} (h : ∀ s a, (T.step s a).2 = [a]) (s : σ) (as : List α) :
    (T.run s as).2 = as := by
  induction as generalizing s with
  | nil => rfl
  | cons a as ih => simp [run_cons, h, ih]

end Transducer

end Core
