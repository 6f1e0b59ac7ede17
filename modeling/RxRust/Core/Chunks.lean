import Mathlib.Algebra.BigOperators.Group.List.Basic
import Mathlib.Algebra.GroupWithZero.Nat

/-!
# Frames and cuts

A stream is read in pieces of any lengths and is to be understood as pieces of one length.

* `frames n xs` — the whole pieces of length `n`, from the front; what is left over at the end
  belongs to none.
* `cut ns xs` — the pieces of the lengths `ns`.
* `whole n ns` — how much of the lengths `ns` lies in whole pieces when each is divided by `n` on
  its own.  Nothing is lost by doing so exactly when the remainders do not add up to a piece, and
  that is `sum_div_eq_whole_iff`.
-/

namespace Core

variable {α : Type}

/-! ## Frames -/

/-- The whole pieces of length `n`. -/
def frames (n : ℕ) (xs : List α) : List (List α) :=
  (List.range (xs.length / n)).map fun i => (xs.drop (i * n)).take n

@[simp] lemma length_frames (n : ℕ) (xs : List α) : (frames n xs).length = xs.length / n := by
  simp [frames]

lemma length_of_mem_frames {n : ℕ} {xs f : List α} (h : f ∈ frames n xs) : f.length = n := by
  obtain ⟨i, hi, rfl⟩ := List.mem_map.mp h
  have hlt : i < xs.length / n := List.mem_range.mp hi
  have hle : (i + 1) * n ≤ xs.length :=
    Nat.le_trans (Nat.mul_le_mul_right n hlt) (Nat.div_mul_le_self _ _)
  rw [Nat.succ_mul] at hle
  rw [List.length_take, List.length_drop]
  omega

/-- A list that is too short has no frame. -/
lemma frames_short {n : ℕ} {xs : List α} (h : xs.length < n) : frames n xs = [] := by
  simp [frames, Nat.div_eq_of_lt h]

/-- The first frame and the others. -/
lemma frames_step {n : ℕ} {xs : List α} (hn : 0 < n) (h : n ≤ xs.length) :
    frames n xs = xs.take n :: frames n (xs.drop n) := by
  rw [frames, Nat.div_eq_sub_div hn h, List.range_succ_eq_map, List.map_cons, List.map_map]
  simp only [Nat.zero_mul, List.drop_zero, frames, List.length_drop, List.drop_drop]
  congr 2
  funext i
  simp only [Function.comp, Nat.succ_mul, Nat.add_comm]

/-- Frames of a whole number of frames and then of something else. -/
lemma frames_append {n : ℕ} {xs ys : List α} (hn : 0 < n) (h : n ∣ xs.length) :
    frames n (xs ++ ys) = frames n xs ++ frames n ys := by
  obtain ⟨k, hk⟩ := h
  induction k generalizing xs with
  | zero =>
      obtain rfl : xs = [] := List.length_eq_zero_iff.mp (by simpa using hk)
      have hnil : frames n ([] : List α) = [] := frames_short hn
      rw [hnil, List.nil_append, List.nil_append]
  | succ k ih =>
      have hle : n ≤ xs.length := by
        rw [hk]
        exact Nat.le_mul_of_pos_right n (Nat.succ_pos k)
      have hdrop : (xs.drop n).length = n * k := by
        rw [List.length_drop, hk, Nat.mul_succ, Nat.add_sub_cancel]
      rw [frames_step hn hle, frames_step hn (by rw [List.length_append]; omega),
        List.take_append_of_le_length hle, List.drop_append_of_le_length hle, ih hdrop,
        List.cons_append]

/-- What lies behind the last whole frame does not matter. -/
lemma frames_take {n : ℕ} (hn : 0 < n) (xs : List α) :
    frames n (xs.take (xs.length / n * n)) = frames n xs := by
  have hle : xs.length / n * n ≤ xs.length := Nat.div_mul_le_self _ _
  have hlen : (xs.take (xs.length / n * n)).length = xs.length / n * n := by
    rw [List.length_take, Nat.min_eq_left hle]
  have hshort : (xs.drop (xs.length / n * n)).length < n := by
    have := Nat.mod_lt xs.length hn
    have := Nat.div_add_mod' xs.length n
    rw [List.length_drop]
    omega
  conv_rhs => rw [← List.take_append_drop (xs.length / n * n) xs]
  rw [frames_append hn (by rw [hlen]; exact Nat.dvd_mul_left n _), frames_short hshort,
    List.append_nil]

/-- The frames put together again. -/
lemma flatten_frames {n : ℕ} (hn : 0 < n) (xs : List α) :
    (frames n xs).flatten = xs.take (xs.length / n * n) := by
  generalize hq : xs.length / n = q
  induction q generalizing xs with
  | zero =>
      rw [frames_short ((Nat.div_eq_zero_iff_lt hn).mp hq)]
      simp
  | succ q ih =>
      have hle : n ≤ xs.length := by
        by_contra h
        rw [Nat.div_eq_of_lt (Nat.lt_of_not_le h)] at hq
        omega
      have hdrop : (xs.drop n).length / n = q := by
        rw [Nat.div_eq_sub_div hn hle] at hq
        rw [List.length_drop]
        omega
      rw [frames_step hn hle, List.flatten_cons, ih _ hdrop, Nat.succ_mul, Nat.add_comm,
        List.take_add]

/-- Of pieces of one length that are put together, the frames of any first part are the first
pieces. -/
theorem frames_flatMap {β : Type} {n : ℕ} (hn : 0 < n) {g : β → List α}
    {xs : List β} (hg : ∀ x ∈ xs, (g x).length = n) {ys : List α} (h : ys <+: xs.flatMap g) :
    frames n ys = (xs.take (ys.length / n)).map g := by
  induction xs generalizing ys with
  | nil =>
      obtain rfl : ys = [] := by simpa using h
      simp [frames]
  | cons x xs ih =>
      by_cases hlt : ys.length < n
      · rw [frames_short hlt, Nat.div_eq_of_lt hlt]
        rfl
      · have hle : n ≤ ys.length := Nat.le_of_not_lt hlt
        have hx : (g x).length = n := hg x List.mem_cons_self
        rw [List.flatMap_cons] at h
        obtain ⟨zs, rfl, hzs⟩ : ∃ zs, ys = g x ++ zs ∧ zs <+: xs.flatMap g := by
          obtain ⟨zs, rfl⟩ : g x <+: ys := List.prefix_of_prefix_length_le
            (List.prefix_append _ _) h (by rw [hx]; exact hle)
          exact ⟨zs, rfl, (List.prefix_append_right_inj _).mp h⟩
        have hrest := ih (fun y hy => hg y (List.mem_cons_of_mem x hy)) hzs
        have hdiv : (g x ++ zs).length / n = zs.length / n + 1 := by
          rw [List.length_append, hx, Nat.add_div_left _ hn]
        have htake : (g x ++ zs).take n = g x := List.take_left' hx
        have hdrop : (g x ++ zs).drop n = zs := List.drop_left' hx
        rw [frames_step hn hle, hdiv, List.take_succ_cons, List.map_cons, htake, hdrop, hrest]

/-- Put together, they are as long as they are many. -/
lemma length_flatten_of_length {n : ℕ} {ps : List (List α)} (h : ∀ p ∈ ps, p.length = n) :
    ps.flatten.length = n * ps.length := by
  rw [List.length_flatten, List.map_congr_left h]
  simp [Nat.mul_comm]

/-- And what follows the frames of a first part are the other pieces. -/
theorem flatten_drop_frames {n : ℕ} (hn : 0 < n) {ps : List (List α)}
    (h : ∀ p ∈ ps, p.length = n) {xs ys : List α} (hxs : xs ++ ys = ps.flatten) :
    xs.length / n ≤ ps.length ∧
      (ps.drop (xs.length / n)).flatten = xs.drop (n * (xs.length / n)) ++ ys := by
  have hread : n * (xs.length / n) ≤ xs.length := Nat.mul_div_le _ _
  have hle : xs.length / n ≤ ps.length := by
    have hbound : n * (xs.length / n) ≤ n * ps.length := by
      rw [← length_flatten_of_length h, ← hxs, List.length_append]
      omega
    exact Nat.le_of_mul_le_mul_left hbound hn
  have hlens : ps.map List.length = List.replicate ps.length n :=
    List.eq_replicate_iff.mpr ⟨by simp, by simpa using h⟩
  have hsum : ((ps.map List.length).take (xs.length / n)).sum = n * (xs.length / n) := by
    rw [hlens, List.take_replicate, Nat.min_eq_left hle]
    simp [Nat.mul_comm]
  refine ⟨hle, ?_⟩
  rw [← List.drop_sum_flatten, hsum, ← hxs, List.drop_append_of_le_length hread]

/-! ## Cuts -/

/-- The pieces of the given lengths. -/
def cut : List ℕ → List α → List (List α)
  | [], _ => []
  | n :: ns, xs => xs.take n :: cut ns (xs.drop n)

lemma cut_lengths {ns : List ℕ} {xs : List α} (h : xs.length = ns.sum) :
    (cut ns xs).map List.length = ns := by
  induction ns generalizing xs with
  | nil => rfl
  | cons n ns ih =>
      rw [List.sum_cons] at h
      rw [cut, List.map_cons, ih (by rw [List.length_drop]; omega), List.length_take,
        Nat.min_eq_left (by omega)]

lemma cut_flatten {ns : List ℕ} {xs : List α} (h : xs.length = ns.sum) :
    (cut ns xs).flatten = xs := by
  induction ns generalizing xs with
  | nil => simpa [cut] using (List.length_eq_zero_iff.mp (by simpa using h)).symm
  | cons n ns ih =>
      rw [List.sum_cons] at h
      rw [cut, List.flatten_cons, ih (by rw [List.length_drop]; omega), List.take_append_drop]

/-! ## Dividing each length on its own -/

/-- The part of the lengths that lies in whole pieces. -/
def whole (n : ℕ) (ns : List ℕ) : ℕ := (ns.map fun k => k / n * n).sum

@[simp] lemma whole_nil (n : ℕ) : whole n [] = 0 := rfl

@[simp] lemma whole_append (n : ℕ) (ks ms : List ℕ) :
    whole n (ks ++ ms) = whole n ks + whole n ms := by
  simp [whole]

@[simp] lemma whole_singleton (n k : ℕ) : whole n [k] = k / n * n := by
  simp [whole]

lemma sum_eq_whole_add (n : ℕ) (ns : List ℕ) :
    ns.sum = whole n ns + (ns.map fun k => k % n).sum := by
  induction ns with
  | nil => rfl
  | cons k ns ih =>
      have hk : k = k / n * n + k % n := (Nat.div_add_mod' k n).symm
      rw [whole] at ih ⊢
      simp only [List.map_cons, List.sum_cons]
      omega

lemma dvd_whole (n : ℕ) (ns : List ℕ) : n ∣ whole n ns := by
  induction ns with
  | nil => exact Nat.dvd_zero n
  | cons k ns ih =>
      rw [whole, List.map_cons, List.sum_cons]
      exact Nat.dvd_add (Nat.dvd_mul_left n _) ih

/-- Everything lies in whole pieces exactly when every length is a whole number of them. -/
lemma whole_eq_sum_iff (n : ℕ) (ns : List ℕ) : whole n ns = ns.sum ↔ ∀ k ∈ ns, n ∣ k := by
  have hsum := sum_eq_whole_add n ns
  have hzero : (ns.map fun k => k % n).sum = 0 ↔ ∀ k ∈ ns, n ∣ k := by
    simp [List.sum_eq_zero_iff_forall_eq_nat, Nat.dvd_iff_mod_eq_zero]
  rw [← hzero]
  omega

/-- Lengths that are too short hold no whole piece. -/
lemma whole_short {n : ℕ} {ns : List ℕ} (h : ∀ k ∈ ns, k < n) : whole n ns = 0 := by
  rw [whole, List.sum_eq_zero_iff_forall_eq_nat]
  intro m hm
  obtain ⟨k, hk, rfl⟩ := List.mem_map.mp hm
  rw [Nat.div_eq_of_lt (h k hk), Nat.zero_mul]

/-- A length that is not too short holds one. -/
lemma le_whole {n k : ℕ} {ns : List ℕ} (hn : 0 < n) (hk : k ∈ ns) (h : n ≤ k) : n ≤ whole n ns := by
  obtain ⟨as, bs, rfl⟩ := List.append_of_mem hk
  have hone : 1 * n ≤ k / n * n := Nat.mul_le_mul_right n ((Nat.one_le_div_iff hn).mpr h)
  rw [← List.singleton_append, whole_append, whole_append, whole_singleton]
  omega

/-- **Dividing each length on its own** finds all the whole pieces exactly when the remainders do
not add up to one. -/
lemma sum_div_eq_whole_iff {n : ℕ} (hn : 0 < n) (ns : List ℕ) :
    ns.sum / n * n = whole n ns ↔ (ns.map fun k => k % n).sum < n := by
  obtain ⟨q, hq⟩ := dvd_whole n ns
  rw [sum_eq_whole_add n ns, hq, Nat.mul_add_div hn, Nat.mul_comm n q, Nat.add_mul]
  constructor
  · intro h
    have hzero : (ns.map fun k => k % n).sum / n * n = 0 := by omega
    exact (Nat.div_eq_zero_iff_lt hn).mp ((Nat.mul_eq_zero.mp hzero).resolve_right (Nat.ne_of_gt hn))
  · intro h
    simp [Nat.div_eq_of_lt h]

end Core
