import Mathlib.Algebra.Order.Ring.Int
import Mathlib.Data.Nat.Notation

/-!
# Signed words

Arithmetic of `i64` read as arithmetic of integers, as far as nothing wraps.

* `toInt_toInt64` — what a `u64` is as an `i64`: the upper half of the range is negative.
* `toInt_sub` — a difference that is in range is the difference.
* `checkedSub` — the difference, where it is in range, with `checkedSub_cases`.
* `toInt_div_toInt64` — dividing by such a number: the quotient is rounded towards zero.
-/

namespace Core

/-- A `u64` read as an `i64`. -/
lemma toInt_toInt64 (a : UInt64) :
    a.toInt64.toInt = if a.toNat < 2 ^ 63 then (a.toNat : ℤ) else (a.toNat : ℤ) - 2 ^ 64 := by
  have h := BitVec.toInt_eq_toNat_cond a.toBitVec
  have hcond : (2 * a.toBitVec.toNat < 2 ^ 64) ↔ a.toNat < 2 ^ 63 := by
    have : a.toBitVec.toNat = a.toNat := rfl
    omega
  rw [if_congr hcond rfl rfl] at h
  exact_mod_cast h

/-- A `u64` below `2 ^ 63` is the same number as an `i64`. -/
lemma toInt_toInt64_of_lt {a : UInt64} (h : a.toNat < 2 ^ 63) : a.toInt64.toInt = a.toNat := by
  rw [toInt_toInt64, if_pos h]

/-- The quotient by a `u64` read as an `i64`. -/
lemma toInt_div_toInt64 {k : Int64} {n : ℕ} (hk : k.toInt = n) (a : UInt64) :
    (k / a.toInt64).toInt = if a.toNat < 2 ^ 63 then ((n / a.toNat : ℕ) : ℤ)
      else -((n / (2 ^ 64 - a.toNat) : ℕ) : ℤ) := by
  have hne : k ≠ Int64.minValue := by
    rintro rfl
    have : Int64.minValue.toInt = -2 ^ 63 := by decide
    omega
  have ha := a.toNat_lt
  rw [Int64.toInt_div_of_ne_left _ _ hne, hk, toInt_toInt64]
  split_ifs with h
  · exact (Int.ofNat_tdiv n a.toNat).symm
  · have hneg : (a.toNat : ℤ) - 2 ^ 64 = -((2 ^ 64 - a.toNat : ℕ) : ℤ) := by omega
    rw [hneg, Int.tdiv_neg, Int.ofNat_tdiv]

/-- A difference that is an `i64` is not wrapped. -/
lemma toInt_sub {a b : Int64} (hlo : -2 ^ 63 ≤ a.toInt - b.toInt) (hhi : a.toInt - b.toInt < 2 ^ 63) :
    (a - b).toInt = a.toInt - b.toInt := by
  rw [Int64.toInt_sub]
  exact Int.bmod_eq_of_le (by omega) (by omega)

/-- `checked_sub`: the difference, or nothing where it is not an `i64`. -/
def checkedSub (a b : Int64) : Option Int64 :=
  if -2 ^ 63 ≤ a.toInt - b.toInt ∧ a.toInt - b.toInt < 2 ^ 63 then some (a - b) else none

/-- What `checkedSub` can do, when the second number is not negative. -/
lemma checkedSub_cases (a : Int64) {b : Int64} (hb : 0 ≤ b.toInt) :
    (∃ d, checkedSub a b = some d ∧ d.toInt = a.toInt - b.toInt ∧ -2 ^ 63 ≤ d.toInt) ∨
      (checkedSub a b = none ∧ a.toInt - b.toInt < -2 ^ 63) := by
  have ha := a.toInt_lt
  rw [checkedSub]
  split_ifs with h
  · refine Or.inl ⟨a - b, rfl, toInt_sub h.1 h.2, ?_⟩
    rw [toInt_sub h.1 h.2]
    exact h.1
  · exact Or.inr ⟨rfl, by omega⟩

end Core
