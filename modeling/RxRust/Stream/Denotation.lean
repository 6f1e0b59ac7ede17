import Mathlib.Algebra.Group.Nat.Defs
import Mathlib.Data.List.Induction
import RxRust.Stream.Publishers

/-!
# The list function of a chain

What a pipeline is for: `Chain.denote` reads a chain as a function on lists, stage by stage, with no
state and no calls.  This file connects it to the transducer of the chain.

* `Proc.denote`, `Chain.denote` — the list functions.
* `Chain.Fits` — every list that enters a `Take` is shorter than `2 ^ 64`, so that its counter does
  not wrap.
* **`Chain.values_run`** — the values among the calls a chain makes are the chain's list function of
  the values it was given, whatever other calls are mixed in.
* `Chain.denote_stall` — a chain that gives nothing for one more item gives nothing for any after
  it. This is the list-level reason why a stop may be honoured.
-/

namespace Rx

open Core

/-! ## Stages -/

/-- The outputs of a left scan. -/
def scanOutputs {V I O : Type} (f : V → I → V × O) : V → List I → List O
  | _, [] => []
  | v, x :: xs => (f v x).2 :: scanOutputs f (f v x).1 xs

/-- The state a left scan ends in. -/
def scanState {V I O : Type} (f : V → I → V × O) (v : V) (xs : List I) : V :=
  xs.foldl (fun v x => (f v x).1) v

lemma scanOutputs_append {V I O : Type} (f : V → I → V × O) (v : V) (xs ys : List I) :
    scanOutputs f v (xs ++ ys) = scanOutputs f v xs ++ scanOutputs f (scanState f v xs) ys := by
  induction xs generalizing v with
  | nil => rfl
  | cons x xs ih => simp [scanOutputs, ih, scanState]

lemma length_scanOutputs {V I O : Type} (f : V → I → V × O) (v : V) (xs : List I) :
    (scanOutputs f v xs).length = xs.length := by
  induction xs generalizing v with
  | nil => rfl
  | cons x xs ih => simp [scanOutputs, ih]

namespace Proc

variable {σ : Type} {N : Type → Type} {I O : Type}

/-- The list function of a processor. -/
def denote : Proc σ N I O → List I → List O
  | doDebug, xs => xs
  | debugWhile _, xs => xs
  | doEach _, xs => xs
  | map f, xs => xs.map f
  | mapVal1 v f, xs => xs.map fun x => f x v
  | reduce initial f, xs => scanOutputs f initial xs
  | enumerate, xs => xs.mapIdx fun i x => (x, UInt64.ofNat i)
  | tee _ _, xs => xs
  | unzip, xs => xs.flatMap fun t => [t.1, t.2]
  | take max, xs => xs.take max.toNat

/-- The list does not make the processor's counter wrap. -/
def Fits : Proc σ N I O → List I → Prop
  | take _, xs => xs.length < 2 ^ 64
  | _, _ => True

/-- A longer input gives a longer output. -/
lemma denote_mono (p : Proc σ N I O) {xs ys : List I} (h : xs <+: ys) :
    p.denote xs <+: p.denote ys := by
  obtain ⟨zs, rfl⟩ := h
  cases p with
  | map f => simp [denote]
  | mapVal1 v f => simp [denote]
  | reduce initial f => simp [denote, scanOutputs_append]
  | enumerate => simp [denote, List.mapIdx_append]
  | unzip => simp [denote]
  | take max => simp [denote, List.take_append]
  | _ => exact List.prefix_append _ _

lemma Fits.anti {p : Proc σ N I O} {xs ys : List I} (h : p.Fits ys) (hpre : xs <+: ys) :
    p.Fits xs := by
  cases p with
  | take max =>
      have hlen : ys.length < 2 ^ 64 := h
      exact Nat.lt_of_le_of_lt hpre.length_le hlen
  | _ => trivial

/-- A stage whose `on_next` always hands on `g t` for `t` hands on `g` of the values it is given. -/
lemma values_run_of_push {p : Proc σ N I O} {g : I → List O}
    (h : ∀ s t, Signal.values (p.push s t).2 = g t) (s : σ) (cs : List (Signal I)) :
    Signal.values (p.transducer.run s cs).2 = (Signal.values cs).flatMap g := by
  induction cs generalizing s with
  | nil => rfl
  | cons c cs ih =>
      rw [Transducer.run_cons]
      cases c with
      | next t => simp [h, ih]
      | complete f => simp [ih]
      | error e => simp [ih]

lemma reduce_state {V : Type} (initial : V) (f : V → I → V × O) (v : V) (cs : List (Signal I)) :
    ((reduce initial f).transducer.run v cs).1 = scanState f v (Signal.values cs) := by
  induction cs generalizing v with
  | nil => rfl
  | cons c cs ih =>
      rw [Transducer.run_cons]
      cases c with
      | next t => simp [ih, push, scanState]
      | complete b => simp [ih, scanState]
      | error e => simp [ih, scanState]

lemma enumerate_count (k : ℕ) (cs : List (Signal I)) :
    ((enumerate (I := I)).transducer.run (UInt64.ofNat k) cs).1
      = UInt64.ofNat (k + (Signal.values cs).length) := by
  induction cs generalizing k with
  | nil => rfl
  | cons c cs ih =>
      rw [Transducer.run_cons]
      cases c with
      | next t =>
          have hk : UInt64.ofNat k + 1 = UInt64.ofNat (k + 1) := by simp
          simp only [transducer_next, push, hk, ih, Signal.values_next, List.length_cons]
          congr 1
          omega
      | complete f => simp [ih]
      | error e => simp [ih]

/-- The counter of a `Take` counts the values that came in. -/
lemma take_count (max : UInt64) (k : ℕ) (b : Bool) (cs : List (Signal I)) :
    ((take (I := I) max).transducer.run (UInt64.ofNat k, b) cs).1.1
      = UInt64.ofNat (k + (Signal.values cs).length) := by
  induction cs generalizing k b with
  | nil => rfl
  | cons c cs ih =>
      rw [Transducer.run_cons]
      cases c with
      | next t =>
          have hk : UInt64.ofNat k + 1 = UInt64.ofNat (k + 1) := by simp
          have hstep : ∃ b', ((take (I := I) max).push (UInt64.ofNat k, b) t).1
              = (UInt64.ofNat (k + 1), b') := by
            simp only [push, hk]
            split_ifs
            · exact ⟨true, rfl⟩
            · exact ⟨b, rfl⟩
          obtain ⟨b', hb'⟩ := hstep
          simp only [transducer_next, hb', ih, Signal.values_next, List.length_cons]
          congr 1
          omega
      | complete f => simp [ih]
      | error e => simp [ih]

/-- What a `Take` whose counter stands at `k` does with one more value. -/
lemma take_push (max : UInt64) {k : ℕ} (hk : k + 1 < 2 ^ 64) (b : Bool) (t : I) :
    (take (I := I) max).push (UInt64.ofNat k, b) t
      = if max.toNat ≤ k then ((UInt64.ofNat (k + 1), true), [Signal.complete false])
        else ((UInt64.ofNat (k + 1), b), [Signal.next t]) := by
  have hadd : UInt64.ofNat k + 1 = UInt64.ofNat (k + 1) := by simp
  have hcmp : UInt64.ofNat (k + 1) > max ↔ max.toNat ≤ k := by
    rw [gt_iff_lt, UInt64.lt_iff_toNat_lt, UInt64.toNat_ofNat_of_lt' hk]
    omega
  simp only [push, hadd, hcmp]

/-- What a `Take` does with one more item: it hands it on, or completes. -/
lemma take_push_cases (max : UInt64) (s : UInt64 × Bool) (t : I) :
    ((take (I := I) max).push s t).2 = [Signal.next t] ∨
      ((take (I := I) max).push s t).2 = [Signal.complete false] := by
  obtain ⟨count, notified⟩ := s
  simp only [push]
  split_ifs
  · exact Or.inr rfl
  · exact Or.inl rfl

/-- A `Take` hands on the next item exactly while it has been given fewer items than its limit, and
completes from then on. -/
lemma take_push_after (max : UInt64) (cs : List (Signal I)) (t : I)
    (hlen : (Signal.values cs).length + 1 < 2 ^ 64) :
    ((take (I := I) max).push ((take (I := I) max).transducer.run (0, false) cs).1 t).2
      = if max.toNat ≤ (Signal.values cs).length then [Signal.complete false]
        else [Signal.next t] := by
  have hcount := take_count (I := I) max 0 false cs
  obtain ⟨⟨count, notified⟩, hst⟩ :
      ∃ st, ((take (I := I) max).transducer.run (0, false) cs).1 = st := ⟨_, rfl⟩
  have hc : count = UInt64.ofNat (Signal.values cs).length := by
    have h : ((take (I := I) max).transducer.run (0, false) cs).1.1 = count := by rw [hst]
    rw [← h]
    simpa using hcount
  rw [hst, hc, take_push max hlen, apply_ite Prod.snd]

/-- **Stage by stage.**  The values a processor hands on are its list function of the values it is
given.  For the stages with a state the induction is on the end of the list, where the state is a
function of the values before. -/
theorem values_run (p : Proc σ N I O) (cs : List (Signal I)) (hfit : p.Fits (Signal.values cs)) :
    Signal.values (p.transducer.run p.init cs).2 = p.denote (Signal.values cs) := by
  cases p with
  | doDebug => simpa [denote] using values_run_of_push (g := fun t => [t]) (fun _ _ => rfl) _ cs
  | debugWhile f =>
      simpa [denote] using values_run_of_push (g := fun t => [t]) (fun _ _ => rfl) _ cs
  | doEach f => simpa [denote] using values_run_of_push (g := fun t => [t]) (fun _ _ => rfl) _ cs
  | map f =>
      rw [values_run_of_push (g := fun t => [f t]) (fun _ _ => rfl)]
      exact List.map_eq_flatMap.symm
  | mapVal1 v f =>
      rw [values_run_of_push (g := fun t => [f t v]) (fun _ _ => rfl)]
      exact List.map_eq_flatMap.symm
  | tee q tx =>
      simpa [denote] using
        values_run_of_push (p := tee q tx) (g := fun t => [t]) (fun _ _ => rfl) _ cs
  | unzip => exact values_run_of_push (p := unzip) (g := fun t => [t.1, t.2]) (fun _ _ => rfl) _ cs
  | reduce initial f =>
      induction cs using List.reverseRecOn with
      | nil => rfl
      | append_singleton cs c ih =>
          rw [Transducer.run_append, Signal.values_append, ih trivial, init, reduce_state]
          cases c with
          | next t => simp [denote, push, scanOutputs_append, scanOutputs]
          | complete b => simp [denote]
          | error e => simp [denote]
  | enumerate =>
      induction cs using List.reverseRecOn with
      | nil => rfl
      | append_singleton cs c ih =>
          have hcount := enumerate_count (I := I) 0 cs
          rw [Transducer.run_append, Signal.values_append, ih trivial, init]
          rw [show (UInt64.ofNat 0) = 0 from rfl] at hcount
          rw [hcount]
          cases c with
          | next t => simp [denote, push, List.mapIdx_append]
          | complete b => simp [denote]
          | error e => simp [denote]
  | take max =>
      induction cs using List.reverseRecOn with
      | nil => simp [denote]
      | append_singleton cs c ih =>
          have hcs : (Signal.values cs).length < 2 ^ 64 := by
            have h : (Signal.values (cs ++ [c])).length < 2 ^ 64 := hfit
            simp only [Signal.values_append, List.length_append] at h
            omega
          rw [Transducer.run_append, Signal.values_append, ih hcs, init]
          cases c with
          | next t =>
              have hnext : (Signal.values cs).length + 1 < 2 ^ 64 := by
                have h : (Signal.values (cs ++ [Signal.next t])).length < 2 ^ 64 := hfit
                simpa using h
              rw [Transducer.run_singleton, transducer_next, take_push_after max cs t hnext]
              simp only [denote, Signal.values_append, List.take_append]
              by_cases hmax : max.toNat ≤ (Signal.values cs).length
              · have : max.toNat - (Signal.values cs).length = 0 := by omega
                simp [hmax, this]
              · have : [t].take (max.toNat - (Signal.values cs).length) = [t] := by
                  apply List.take_of_length_le
                  simp
                  omega
                simp [hmax, this]
          | complete b => simp [denote]
          | error e => simp [denote]

/-- Every processor but `Unzip` and `Take` hands on one value for one. -/
def OneToOne : Proc σ N I O → Prop
  | unzip => False
  | take _ => False
  | _ => True

lemma OneToOne.push_eq {p : Proc σ N I O} (h : p.OneToOne) (s : σ) (t : I) :
    ∃ y, (p.push s t).2 = [Signal.next y] := by
  cases p with
  | unzip => exact h.elim
  | take max => exact h.elim
  | _ => exact ⟨_, rfl⟩

lemma OneToOne.length_denote {p : Proc σ N I O} (h : p.OneToOne) (xs : List I) :
    (p.denote xs).length = xs.length := by
  cases p with
  | unzip => exact h.elim
  | take max => exact h.elim
  | reduce initial f => exact length_scanOutputs f initial xs
  | _ => simp [denote]

/-- So one more item is one more value, and what comes later does not change it. -/
lemma OneToOne.denote_cons {p : Proc σ N I O} (h : p.OneToOne) (xs : List I) (x : I)
    (ys : List I) : ∃ y zs, p.denote (xs ++ [x]) = p.denote xs ++ [y] ∧
      p.denote (xs ++ x :: ys) = p.denote xs ++ y :: zs := by
  obtain ⟨us, hus⟩ := p.denote_mono (List.prefix_append xs [x])
  have hlen : us.length = 1 := by
    have := congrArg List.length hus
    simp only [List.length_append, h.length_denote, List.length_singleton] at this
    omega
  obtain ⟨y, rfl⟩ := List.length_eq_one_iff.mp hlen
  obtain ⟨zs, hzs⟩ := p.denote_mono (show xs ++ [x] <+: xs ++ x :: ys from ⟨ys, by simp⟩)
  refine ⟨y, zs, hus.symm, ?_⟩
  rw [← hzs, ← hus]
  simp

def isUnzip : Proc σ N I O → Bool
  | unzip => true
  | _ => false

def isTake : Proc σ N I O → Bool
  | take _ => true
  | _ => false

lemma OneToOne.isTake_eq {p : Proc σ N I O} (h : p.OneToOne) : p.isTake = false := by
  cases p with
  | take max => exact h.elim
  | _ => rfl

lemma OneToOne.isUnzip_eq {p : Proc σ N I O} (h : p.OneToOne) : p.isUnzip = false := by
  cases p with
  | unzip => exact h.elim
  | _ => rfl

/-- A processor that is no `Take` hands on values only. -/
lemma push_isNext {p : Proc σ N I O} (h : p.isTake = false) (s : σ) (t : I) :
    ∀ c ∈ (p.push s t).2, c.isNext = true := by
  cases p with
  | take max => simp [isTake] at h
  | _ => simp [push, Signal.isNext]

lemma run_isNext {p : Proc σ N I O} (h : p.isTake = false) (s : σ) {cs : List (Signal I)}
    (hcs : ∀ d ∈ cs, d.isNext = true) : ∀ d ∈ (p.transducer.run s cs).2, d.isNext = true := by
  induction cs generalizing s with
  | nil => simp
  | cons c cs ih =>
      rw [Transducer.run_cons]
      intro d hd
      rcases List.mem_append.mp hd with hd | hd
      · cases c with
        | next t => exact push_isNext h s t d hd
        | complete f => exact absurd (hcs _ List.mem_cons_self) (by simp [Signal.isNext])
        | error e => exact absurd (hcs _ List.mem_cons_self) (by simp [Signal.isNext])
      · exact ih _ (fun d hd => hcs d (List.mem_cons_of_mem _ hd)) d hd

/-- With the largest limit it always hands the item on. -/
lemma take_push_of_largest {max : UInt64} (hmax : ¬ max.toNat + 1 < 2 ^ 64) (s : UInt64 × Bool)
    (t : I) : ((take (I := I) max).push s t).2 = [Signal.next t] := by
  obtain ⟨count, notified⟩ := s
  have hle : ¬ count + 1 > max := by
    rw [gt_iff_lt, UInt64.lt_iff_toNat_lt]
    have := (count + 1).toNat_lt
    omega
  simp only [push, if_neg hle]

/-- Below its limit a `Take` hands the item on. -/
lemma take_push_of_lt {max : UInt64} {cs : List (Signal I)} (t : I)
    (hlt : (Signal.values cs).length < max.toNat) :
    ((take (I := I) max).push ((take (I := I) max).transducer.run (0, false) cs).1 t).2
      = [Signal.next t] := by
  have := max.toNat_lt
  rw [take_push_after max cs t (by omega), if_neg (by omega)]

/-- At its limit it completes. -/
lemma take_push_of_eq {max : UInt64} {cs : List (Signal I)} (t : I)
    (hmax : max.toNat + 1 < 2 ^ 64) (heq : (Signal.values cs).length = max.toNat) :
    ((take (I := I) max).push ((take (I := I) max).transducer.run (0, false) cs).1 t).2
      = [Signal.complete false] := by
  rw [take_push_after max cs t (by omega), if_pos (by omega)]

/-- Items that do not exceed the limit go through a `Take` as they are. -/
lemma take_run_map_next {max : UInt64} {a : List I}
    (h : max.toNat + 1 < 2 ^ 64 → a.length ≤ max.toNat) :
    ((take (I := I) max).transducer.run (0, false) (a.map Signal.next)).2 = a.map Signal.next := by
  induction a using List.reverseRecOn with
  | nil => rfl
  | append_singleton a x ih =>
      simp only [List.length_append, List.length_singleton] at h
      rw [List.map_append, Transducer.run_append, ih fun hmax => by have := h hmax; omega]
      simp only [List.map_singleton, Transducer.run_singleton, transducer_next]
      congr 1
      by_cases hmax : max.toNat + 1 < 2 ^ 64
      · exact take_push_of_lt x (by have := h hmax; simp; omega)
      · exact take_push_of_largest hmax _ x

end Proc

/-! ## Chains -/

namespace Chain

variable {σ τ : Type} {F G : Type → Type} {I O R : Type}

/-- **The list function of a chain**: the composition of the list functions of its processors. -/
def denote : {σ : Type} → {F : Type → Type} → {I O : Type} → Chain σ F I O → List I → List O
  | _, _, _, _, nil, xs => xs
  | _, _, _, _, cons p rest, xs => rest.denote (p.denote xs)

/-- Every list that enters a `Take` of the chain is shorter than `2 ^ 64`. -/
def Fits : {σ : Type} → {F : Type → Type} → {I O : Type} → Chain σ F I O → List I → Prop
  | _, _, _, _, nil, _ => True
  | _, _, _, _, cons p rest, xs => p.Fits xs ∧ rest.Fits (p.denote xs)

lemma denote_mono (c : Chain σ F I O) {xs ys : List I} (h : xs <+: ys) :
    c.denote xs <+: c.denote ys := by
  induction c with
  | nil => exact h
  | cons p rest ih => exact ih (p.denote_mono h)

lemma denote_nil (c : Chain σ F I O) : c.denote [] = [] := by
  induction c with
  | nil => rfl
  | cons p rest ih =>
      have hp : p.denote [] = [] := by cases p <;> simp [Proc.denote, scanOutputs]
      rw [denote, hp, ih]

lemma Fits.anti {c : Chain σ F I O} {xs ys : List I} (h : c.Fits ys) (hpre : xs <+: ys) :
    c.Fits xs := by
  induction c with
  | nil => trivial
  | cons p rest ih => exact ⟨h.1.anti hpre, ih h.2 (p.denote_mono hpre)⟩

lemma denote_append (c : Chain σ F I O) (d : Packed O R) (xs : List I) :
    (c.append d).chain.denote xs = d.chain.denote (c.denote xs) := by
  induction c with
  | nil => rfl
  | cons p rest ih => exact ih d (p.denote xs)

lemma fits_append (c : Chain σ F I O) (d : Packed O R) (xs : List I) :
    (c.append d).chain.Fits xs ↔ c.Fits xs ∧ d.chain.Fits (c.denote xs) := by
  induction c with
  | nil => simp [append, Fits, denote]
  | cons p rest ih => simp [append, Fits, denote, ih, and_assoc]

/-- **The values among a chain's calls** are its list function of the values it was given, whatever
other calls are mixed in. -/
theorem values_run (c : Chain σ F I O) (cs : List (Signal I))
    (hfit : c.Fits (Signal.values cs)) :
    Signal.values (c.transducer.run c.init cs).2 = c.denote (Signal.values cs) := by
  induction c with
  | nil => simp [transducer, Transducer.run_ident, denote, init]
  | cons p rest ih =>
      have hp := p.values_run cs hfit.1
      rw [transducer_cons_run]
      show Signal.values (rest.transducer.run rest.init (p.transducer.run p.init cs).2).2 = _
      rw [ih _ (by rw [hp]; exact hfit.2), hp]
      rfl

/-- **A chain that stalls has ended.**  If one more item gives nothing more, then no item after it
gives anything: some `Take` of the chain has taken all it will. -/
theorem denote_stall (c : Chain σ F I O) (xs : List I) (x : I) (ys : List I)
    (h : c.denote (xs ++ [x]) = c.denote xs) : c.denote (xs ++ x :: ys) = c.denote xs := by
  induction c with
  | nil => simp [denote] at h
  | @cons σ τ N F I O R p rest ih =>
      simp only [denote] at h ⊢
      by_cases hp : p.OneToOne
      · obtain ⟨y, zs, h₁, h₂⟩ := hp.denote_cons xs x ys
        rw [h₁] at h
        rw [h₂]
        exact ih _ y zs h
      · cases p with
        | unzip =>
            -- the pair gives two values; already the first of them must give nothing
            obtain ⟨a, b⟩ := x
            simp only [Proc.denote, List.flatMap_append, List.flatMap_cons, List.flatMap_nil,
              List.append_nil] at h ⊢
            refine ih _ a (b :: ys.flatMap fun t => [t.1, t.2]) ?_
            set l := xs.flatMap fun t => [t.1, t.2]
            have h₁ : rest.denote l <+: rest.denote (l ++ [a]) :=
              rest.denote_mono (List.prefix_append l [a])
            have h₂ : rest.denote (l ++ [a]) <+: rest.denote (l ++ [a, b]) :=
              rest.denote_mono ⟨[b], by simp⟩
            rw [h] at h₂
            exact (h₂.eq_of_length_le h₁.length_le)
        | take max =>
            simp only [Proc.denote, List.take_append] at h ⊢
            by_cases hmax : max.toNat ≤ xs.length
            · have hz : max.toNat - xs.length = 0 := by omega
              simp [hz]
            · obtain ⟨k, hk⟩ : ∃ k, max.toNat - xs.length = k + 1 :=
                ⟨max.toNat - xs.length - 1, by omega⟩
              rw [hk] at h ⊢
              simp only [List.take_succ_cons, List.take_nil] at h ⊢
              exact ih _ x _ h
        | _ => exact absurd trivial hp

end Chain

end Rx
