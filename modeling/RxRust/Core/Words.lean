import Mathlib.Algebra.Order.Group.Nat
import Mathlib.Tactic.Ring

/-!
# Words as bytes

A word of `n` bytes, lowest byte first.

* `toBytes n x` — the lowest `n` bytes of `x`.
* `ofBytes` — the number that bytes stand for.
* `ofBytes_toBytes`, `toBytes_ofBytes` — the two are inverse to each other, on numbers that fit and
  on bytes of the right number.
-/

namespace Core

/-- The number that bytes stand for, lowest first. -/
def ofBytes : List UInt8 → ℕ
  | [] => 0
  | b :: bs => b.toNat + 256 * ofBytes bs

/-- The lowest `n` bytes of a number, lowest first. -/
def toBytes : ℕ → ℕ → List UInt8
  | 0, _ => []
  | n + 1, x => UInt8.ofNat x :: toBytes n (x / 256)

@[simp] lemma length_toBytes (n x : ℕ) : (toBytes n x).length = n := by
  induction n generalizing x with
  | zero => rfl
  | succ n ih => simp [toBytes, ih]

lemma ofBytes_lt (bs : List UInt8) : ofBytes bs < 256 ^ bs.length := by
  induction bs with
  | nil => simp [ofBytes]
  | cons b bs ih =>
      have hb : b.toNat < 256 := b.toNat_lt
      rw [ofBytes, List.length_cons, Nat.pow_succ]
      omega

/-- A number that fits is read back. -/
theorem ofBytes_toBytes {n x : ℕ} (h : x < 256 ^ n) : ofBytes (toBytes n x) = x := by
  induction n generalizing x with
  | zero =>
      obtain rfl : x = 0 := by simpa using h
      rfl
  | succ n ih =>
      have hdiv : x / 256 < 256 ^ n := by
        rw [Nat.pow_succ] at h
        omega
      rw [toBytes, ofBytes, ih hdiv, UInt8.toNat_ofNat']
      exact Nat.mod_add_div x 256

/-- Bytes are written back. -/
theorem toBytes_ofBytes (bs : List UInt8) : toBytes bs.length (ofBytes bs) = bs := by
  induction bs with
  | nil => rfl
  | cons b bs ih =>
      have hb : b.toNat < 256 := b.toNat_lt
      have hdiv : (b.toNat + 256 * ofBytes bs) / 256 = ofBytes bs := by omega
      have hlow : UInt8.ofNat (b.toNat + 256 * ofBytes bs) = b := by
        rw [← UInt8.toNat_inj, UInt8.toNat_ofNat']
        omega
      rw [ofBytes, List.length_cons, toBytes, hdiv, hlow, ih]

end Core
