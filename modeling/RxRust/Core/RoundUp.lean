import Mathlib.Algebra.Group.Nat.Defs

/-!
# Rounding up to a multiple

`roundUp a x` is the least multiple of `a` that is not below `x`.  Code that keeps a cursor aligned
usually computes it with a bit trick, which needs `a` to be a power of two and `x` to be positive.

* `le_roundUp`, `roundUp_lt`, `dvd_roundUp` — where the rounded number lies.
* `roundUp_add` — rounding above a multiple: what lies below it is not touched.
* **`or_pred_add_one`** — the bit trick `((x - 1) | (2 ^ k - 1)) + 1` rounds `x` up to a multiple of
  `2 ^ k`.
-/

namespace Core

/-- The least multiple of `a` that is at least `x`. -/
def roundUp (a x : ℕ) : ℕ := (x + (a - 1)) / a * a

variable {a x : ℕ}

lemma dvd_roundUp (a x : ℕ) : a ∣ roundUp a x := ⟨(x + (a - 1)) / a, Nat.mul_comm _ _⟩

lemma roundUp_lt (ha : 0 < a) : roundUp a x < x + a := by
  have h : (x + (a - 1)) / a * a ≤ x + (a - 1) := Nat.div_mul_le_self _ _
  rw [roundUp]
  omega

lemma le_roundUp (ha : 0 < a) : x ≤ roundUp a x := by
  have h := Nat.div_add_mod (x + (a - 1)) a
  have hlt := Nat.mod_lt (x + (a - 1)) ha
  rw [Nat.mul_comm] at h
  rw [roundUp]
  omega

/-- The multiple of `a` that lies less than `a` above a number. -/
lemma roundUp_eq (ha : 0 < a) {k : ℕ} (hk : a ∣ k) (hle : x ≤ k) (hlt : k < x + a) :
    roundUp a x = k := by
  obtain ⟨q, rfl⟩ := hk
  obtain ⟨p, hp⟩ := dvd_roundUp a x
  have hlo : x ≤ a * p := hp ▸ le_roundUp ha
  have hhi : a * p < x + a := hp ▸ roundUp_lt ha
  have hqp : q < p + 1 := Nat.lt_of_mul_lt_mul_left (a := a) (by rw [Nat.mul_succ]; omega)
  have hpq : p < q + 1 := Nat.lt_of_mul_lt_mul_left (a := a) (by rw [Nat.mul_succ]; omega)
  rw [hp, show p = q by omega]

lemma roundUp_add (ha : 0 < a) {m : ℕ} (hm : a ∣ m) : roundUp a (m + x) = m + roundUp a x := by
  obtain ⟨q, rfl⟩ := hm
  rw [roundUp, roundUp, Nat.add_assoc, Nat.mul_add_div ha, Nat.add_mul, Nat.mul_comm q a]

/-- Setting the low bits of a number. -/
lemma or_two_pow_pred (k y : ℕ) : y ||| (2 ^ k - 1) = y / 2 ^ k * 2 ^ k + (2 ^ k - 1) := by
  have hpos : 0 < 2 ^ k := Nat.two_pow_pos k
  have hdiv : (y ||| (2 ^ k - 1)) / 2 ^ k = y / 2 ^ k := by
    rw [Nat.or_div_two_pow, Nat.div_eq_of_lt (show 2 ^ k - 1 < 2 ^ k by omega), Nat.or_zero]
  have hmod : (y ||| (2 ^ k - 1)) % 2 ^ k = 2 ^ k - 1 := by
    rw [Nat.or_mod_two_pow, Nat.mod_eq_of_lt (show 2 ^ k - 1 < 2 ^ k by omega)]
    have hlt : y % 2 ^ k ||| (2 ^ k - 1) < 2 ^ k :=
      Nat.or_lt_two_pow (Nat.mod_lt _ hpos) (by omega)
    have hge : 2 ^ k - 1 ≤ y % 2 ^ k ||| (2 ^ k - 1) := Nat.right_le_or
    omega
  have h := Nat.div_add_mod (y ||| (2 ^ k - 1)) (2 ^ k)
  rw [hdiv, hmod, Nat.mul_comm] at h
  exact h.symm

/-- **The bit trick.** -/
theorem or_pred_add_one (k : ℕ) (hx : 0 < x) :
    (x - 1 ||| (2 ^ k - 1)) + 1 = roundUp (2 ^ k) x := by
  have hpos : 0 < 2 ^ k := Nat.two_pow_pos k
  have hstep : (x + (2 ^ k - 1)) / 2 ^ k = (x - 1) / 2 ^ k + 1 := by
    rw [← Nat.add_div_right _ hpos]
    congr 1
    omega
  rw [or_two_pow_pred, roundUp, hstep, Nat.add_mul, Nat.one_mul]
  omega

end Core
