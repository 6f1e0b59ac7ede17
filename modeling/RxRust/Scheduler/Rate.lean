import Mathlib.Order.Bounds.Basic
import RxRust.Scheduler.FixedLoop

/-!
# Loops per second

`scheduler.rs` says of `fixed_loop` that the rate is the largest number of loops per second that it
makes.  The loop time is rounded down to whole nanoseconds, so the calls may come a little too fast:
at a rate of three there can be four in a second, and at 600 million a thousand million.

* `FixedLoop.within` — the calls in the second that begins at a given time.
* `length_of_spaced` — how many numbers, so far apart, fit into an interval.
* `FixedLoop.reach_beats` — a run with calls at regular times, as fast as `nanosleep` lets them.
* **`FixedLoop.loops_per_second`** — the most calls that a second can hold; the rate is kept exactly
  if it is not one and divides the number of nanoseconds in a second.
-/

namespace Rx

open Core

/-- Numbers at least `d` apart, in an interval of length `w`. -/
lemma length_of_spaced {d w a : ℕ} (hd : 0 < d) {l : List ℕ}
    (hl : l.Pairwise fun x y => x + d ≤ y) (hin : ∀ x ∈ l, a ≤ x ∧ x < a + w) :
    l.length * d < w + d := by
  induction l generalizing a w with
  | nil =>
      rw [List.length_nil, Nat.zero_mul]
      omega
  | cons x l ih =>
      obtain ⟨hx, hrest⟩ := List.pairwise_cons.mp hl
      have hxin := hin x List.mem_cons_self
      cases l with
      | nil =>
          rw [List.length_singleton, Nat.one_mul]
          omega
      | cons y l =>
          have hxy := hx y List.mem_cons_self
          have hyin := hin y (List.mem_cons_of_mem x List.mem_cons_self)
          have hlater : ∀ z ∈ y :: l, a + d ≤ z ∧ z < a + d + (w - d) := by
            intro z hz
            have hxz := hx z hz
            have hzin := hin z (List.mem_cons_of_mem x hz)
            omega
          have hshort := ih hrest hlater
          rw [List.length_cons, Nat.add_mul, Nat.one_mul]
          omega

namespace FixedLoop

/-- The calls of `f` in the second that begins at `a`. -/
def within (a : ℕ) (s : FixedLoop) : List UInt64 :=
  s.starts.filter fun x => decide (a ≤ x.toNat ∧ x.toNat < a + 10 ^ 9)

/-- No second holds more calls than the rate says. -/
def Limited (rate : UInt64) (s : FixedLoop) : Prop := ∀ a, (s.within a).length ≤ rate.toNat

/-- The most calls that are `d` apart in a second. -/
def most (d : ℕ) : ℕ := (10 ^ 9 + d - 1) / d

/-- Calls that are far enough apart. -/
lemma Spaced.length_within {rate : UInt64} {s : FixedLoop} (h : s.Spaced rate)
    (hd : 0 < 10 ^ 9 / rate.toNat) (a : ℕ) : (s.within a).length ≤ most (10 ^ 9 / rate.toNat) := by
  have hpairs : (s.within a).Pairwise fun x y => x.toNat + 10 ^ 9 / rate.toNat ≤ y.toNat := by
    refine List.Pairwise.filter _ ?_
    have : Trans (fun x y : UInt64 => x.toNat + 10 ^ 9 / rate.toNat ≤ y.toNat)
        (fun x y : UInt64 => x.toNat + 10 ^ 9 / rate.toNat ≤ y.toNat)
        (fun x y : UInt64 => x.toNat + 10 ^ 9 / rate.toNat ≤ y.toNat) :=
      ⟨fun h₁ h₂ => by omega⟩
    exact List.IsChain.pairwise h
  have hin : ∀ x ∈ (s.within a).map UInt64.toNat, a ≤ x ∧ x < a + 10 ^ 9 := by
    intro x hx
    obtain ⟨y, hy, rfl⟩ := List.mem_map.mp hx
    exact of_decide_eq_true (List.mem_filter.mp hy).2
  have hlen := length_of_spaced hd (List.pairwise_map.mpr hpairs) hin
  rw [List.length_map] at hlen
  exact (Nat.le_div_iff_mul_le hd).mpr (by omega)

/-- With a rate other than one, no run breaks the spacing. -/
lemma spaced_reach {rate : UInt64} (hne : rate ≠ 0) (hone : rate ≠ 1) {s t : FixedLoop}
    {turns : List Turn} (hs : fixedLoop rate = Outcome.ret s)
    (h : Reach step Rested s turns t) : t.Spaced rate := by
  obtain ⟨s', hs', hloop, hstarts, -⟩ := fixedLoop_eq hne
  obtain rfl : s = s' := Outcome.ret.inj (hs.symm.trans hs')
  have hpaced : s.Paced rate := by
    refine ⟨hloop, ?_, ?_⟩
    · rw [Spaced, hstarts]
      exact List.isChain_nil
    · intro _ a ha
      rw [hstarts] at ha
      cases ha
  have hend := h.invariant hpaced fun t e u ht hrest hstep => ht.step hne hrest (by
    cases e with
    | last start => trivial
    | again start stop => exact fun h => absurd h hone) hstep
  exact hend.spaced

/-! ## As fast as it goes -/

/-- `n` calls of a body that takes no time, one every `x` nanoseconds. -/
def beats (x n : ℕ) : List Turn :=
  (List.range n).map fun i => Turn.again (UInt64.ofNat (i * x)) (UInt64.ofNat (i * x))

/-- A call that takes no time. -/
lemma step_beat {s : FixedLoop} (hrun : s.running = true) {a : UInt64} (hnow : s.now ≤ a)
    (ha : a.toNat < 2 ^ 63) : ∃ u, s.step (Turn.again a a) = Outcome.ret u ∧ u.running = true ∧
      u.loopTimeNs = s.loopTimeNs ∧ u.starts = s.starts ++ [a] ∧ u.now = a ∧
      ∀ ts, u.nap = some ts → ts.tvSec = 0 ∧ ts.tvNsec.toInt = s.loopTimeNs.toInt := by
  obtain ⟨u, hu⟩ : ∃ u, s.step (Turn.again a a) = Outcome.ret u := by
    rw [step, if_pos ⟨hrun, hnow, UInt64.le_refl a, ha⟩]
    cases hsub : checkedSub s.loopTimeNs (a.toInt64 - a.toInt64) with
    | none => exact ⟨_, by simp only [hsub]; rfl⟩
    | some diff => exact ⟨_, by simp only [hsub]; rfl⟩
  have hspan : Turn.span a a = 0 := Nat.sub_self _
  obtain ⟨-, -, -, -, ⟨ts, hsec, hnsec, -, rfl⟩ | ⟨-, rfl⟩⟩ := step_again hu
  · refine ⟨_, hu, hrun, rfl, rfl, rfl, ?_⟩
    intro ts' hts
    obtain rfl := Option.some.inj hts
    rw [hspan] at hnsec
    exact ⟨hsec, by simpa using hnsec⟩
  · refine ⟨_, hu, hrun, rfl, rfl, rfl, ?_⟩
    intro ts hts
    cases hts

/-- If `nanosleep` holds no call back for longer than `x`, there is a run with a call every `x`
nanoseconds. -/
lemma reach_beats {rate : UInt64} (hne : rate ≠ 0) {s : FixedLoop}
    (hs : fixedLoop rate = Outcome.ret s) {x : ℕ}
    (hx : ∀ ts : Timespec, ts.tvSec = 0 → ts.tvNsec.toInt = loopTime rate → ts.Valid →
      loopTime rate ≤ x) (n : ℕ) (hsmall : ∀ i < n, i * x < 2 ^ 63) :
    ∃ t, Reach step Rested s (beats x n) t ∧ t.running = true ∧
      t.loopTimeNs.toInt = loopTime rate ∧
      t.starts = (List.range n).map (fun i => UInt64.ofNat (i * x)) ∧ t.now.toNat ≤ n * x ∧
      ∀ ts, t.nap = some ts → ts.Valid → t.now.toNat + ts.ns ≤ (n * x : ℕ) := by
  induction n with
  | zero =>
      obtain ⟨s', hs', hloop, hstarts, -, hrun, hnow, hnap⟩ := fixedLoop_eq hne
      obtain rfl : s = s' := Outcome.ret.inj (hs.symm.trans hs')
      refine ⟨s, Reach.nil, hrun, hloop, hstarts, by simp [hnow], ?_⟩
      intro ts hts
      rw [hnap] at hts
      cases hts
  | succ n ih =>
      obtain ⟨t, ht, hrun, hloop, hstarts, hnow, hnap⟩ := ih fun i hi => hsmall i (by omega)
      have hlt : n * x < 2 ^ 63 := hsmall n (Nat.lt_succ_self n)
      have ha : (UInt64.ofNat (n * x)).toNat = n * x :=
        UInt64.toNat_ofNat_of_lt' (Nat.lt_trans hlt (by decide))
      obtain ⟨u, hu, hurun, huloop, hustarts, hunow, hunap⟩ := step_beat hrun
        (a := UInt64.ofNat (n * x)) (UInt64.le_iff_toNat_le.mpr (by rw [ha]; exact hnow))
        (by rw [ha]; exact hlt)
      have hrest : t.Rested (Turn.again (UInt64.ofNat (n * x)) (UInt64.ofNat (n * x))) := by
        intro ts hts hvalid
        rw [Turn.start, ha]
        exact hnap ts hts hvalid
      refine ⟨u, ?_, hurun, by rw [huloop, hloop], ?_, ?_, ?_⟩
      · rw [beats, List.range_succ, List.map_append]
        exact Reach.snoc ht hrest hu
      · rw [hustarts, hstarts, List.range_succ, List.map_append, List.map_singleton]
      · rw [hunow, ha, Nat.succ_mul]
        exact Nat.le_add_right _ _
      · intro ts hts hvalid
        obtain ⟨hsec, hnsec⟩ := hunap ts hts
        rw [hloop] at hnsec
        have hle := hx ts hsec hnsec hvalid
        have hzero : (0 : Int64).toInt = 0 := rfl
        rw [hunow, ha, Timespec.ns, hsec, hnsec, hzero, Nat.succ_mul]
        push_cast
        omega

/-- All of them are in the first second. -/
lemma length_within_beats {t : FixedLoop} {x n : ℕ}
    (hstarts : t.starts = (List.range n).map fun i => UInt64.ofNat (i * x))
    (hin : ∀ i < n, i * x < 10 ^ 9) : (t.within 0).length = n := by
  have hall : t.within 0 = t.starts := by
    refine List.filter_eq_self.mpr ?_
    intro y hy
    rw [hstarts] at hy
    obtain ⟨i, hi, rfl⟩ := List.mem_map.mp hy
    have hlt := hin i (List.mem_range.mp hi)
    have hval : (UInt64.ofNat (i * x)).toNat = i * x :=
      UInt64.toNat_ofNat_of_lt' (Nat.lt_trans hlt (by decide))
    simp only [hval, decide_eq_true_eq]
    omega
  rw [hall, hstarts, List.length_map, List.length_range]

lemma loopTime_le (rate : UInt64) : loopTime rate ≤ ((10 ^ 9 / rate.toNat : ℕ) : ℤ) := by
  rw [loopTime]
  split_ifs
  · exact le_refl _
  · exact le_trans (neg_nonpos.mpr (Int.natCast_nonneg _)) (Int.natCast_nonneg _)

/-- At a rate of one the whole second is refused, and the calls come at once. -/
lemma exceeds_one {s : FixedLoop} (hs : fixedLoop 1 = Outcome.ret s) :
    ∃ turns t, Reach step Rested s turns t ∧ ¬ t.Limited 1 := by
  have hx : ∀ ts : Timespec, ts.tvSec = 0 → ts.tvNsec.toInt = loopTime 1 → ts.Valid →
      loopTime 1 ≤ (0 : ℕ) := by
    intro ts _ hnsec hvalid
    have hsecond : loopTime 1 = 10 ^ 9 := by decide
    rw [hsecond] at hnsec
    exact absurd hvalid.2 (by omega)
  obtain ⟨t, ht, -, -, hstarts, -⟩ := reach_beats (by decide) hs hx 2 (by simp)
  refine ⟨_, t, ht, ?_⟩
  intro hlimited
  have htwo := hlimited 0
  rw [length_within_beats hstarts (by simp)] at htwo
  exact absurd htwo (by decide)

/-- As many calls as there is time for. -/
lemma reach_most {rate : UInt64} (hne : rate ≠ 0) {s : FixedLoop}
    (hs : fixedLoop rate = Outcome.ret s) {n : ℕ}
    (hn : ∀ i < n, i * (10 ^ 9 / rate.toNat) < 10 ^ 9) :
    ∃ turns t, Reach step Rested s turns t ∧ (t.within 0).length = n := by
  obtain ⟨t, ht, -, -, hstarts, -⟩ := reach_beats hne hs (fun _ _ _ _ => loopTime_le rate) n
    fun i hi => Nat.lt_trans (hn i hi) (by decide)
  exact ⟨_, t, ht, length_within_beats hstarts hn⟩

/-- **The documented rate.**  At a rate from two to a thousand million a second holds at most as
many calls as there are loop times in it, rounded up, and in some run it does.  So the rate is the
largest number of loops per second exactly if it is not one and divides the nanoseconds of a
second. -/
theorem loops_per_second (rate : UInt64) (hrate : 1 ≤ rate) :
    ∃ s, fixedLoop rate = Outcome.ret s ∧
      (rate ≠ 1 → rate.toNat ≤ 10 ^ 9 →
        IsGreatest { n | ∃ turns t a, Reach step Rested s turns t ∧ (t.within a).length = n }
          (most (10 ^ 9 / rate.toNat))) ∧
      ((∀ turns t, Reach step Rested s turns t → t.Limited rate) ↔
        rate ≠ 1 ∧ rate.toNat ∣ 10 ^ 9) := by
  have hne : rate ≠ 0 := by
    rintro rfl
    exact absurd hrate (by decide)
  have hpos := toNat_pos hne
  obtain ⟨s, hs, -⟩ := fixedLoop_eq hne
  refine ⟨s, hs, ?_, ?_, ?_⟩
  · intro hone hle
    have hd : 0 < 10 ^ 9 / rate.toNat := Nat.div_pos hle hpos
    refine ⟨?_, ?_⟩
    · have hroom : ∀ i < most (10 ^ 9 / rate.toNat), i * (10 ^ 9 / rate.toNat) < 10 ^ 9 := by
        intro i hi
        have hfit := (Nat.le_div_iff_mul_le hd).mp (Nat.succ_le_of_lt hi)
        rw [Nat.succ_mul] at hfit
        omega
      obtain ⟨turns, t, ht, hlen⟩ := reach_most hne hs hroom
      exact ⟨turns, t, 0, ht, hlen⟩
    · rintro n ⟨turns, t, a, ht, rfl⟩
      exact (spaced_reach hne hone hs ht).length_within hd a
  · intro hall
    refine ⟨?_, ?_⟩
    · rintro rfl
      obtain ⟨turns, t, ht, hmany⟩ := exceeds_one hs
      exact hmany (hall turns t ht)
    · -- otherwise one call more than the rate fits into a second
      by_contra hndvd
      have hless : rate.toNat * (10 ^ 9 / rate.toNat) < 10 ^ 9 :=
        lt_of_le_of_ne (Nat.mul_div_le _ _) fun h => hndvd ⟨_, h.symm⟩
      obtain ⟨turns, t, ht, hlen⟩ := reach_most hne hs (n := rate.toNat + 1) fun i hi =>
        lt_of_le_of_lt (Nat.mul_le_mul_right _ (Nat.le_of_lt_succ hi)) hless
      have hlimit := hall turns t ht 0
      rw [hlen] at hlimit
      exact absurd hlimit (Nat.not_succ_le_self _)
  · rintro ⟨hone, hdvd⟩ turns t ht a
    have hle : rate.toNat ≤ 10 ^ 9 := Nat.le_of_dvd (by decide) hdvd
    have hd : 0 < 10 ^ 9 / rate.toNat := Nat.div_pos hle hpos
    have hfew := (spaced_reach hne hone hs ht).length_within hd a
    have hwhole : rate.toNat * (10 ^ 9 / rate.toNat) = 10 ^ 9 := Nat.mul_div_cancel' hdvd
    have hmost : most (10 ^ 9 / rate.toNat) ≤ rate.toNat := by
      refine Nat.le_of_lt_succ ((Nat.div_lt_iff_lt_mul hd).mpr ?_)
      rw [Nat.succ_mul, hwhole]
      omega
    exact Nat.le_trans hfew hmost

/-- At a rate of three a second can hold four calls. -/
theorem loops_per_second_three : ∃ s, fixedLoop 3 = Outcome.ret s ∧
    IsGreatest { n | ∃ turns t a, Reach step Rested s turns t ∧ (t.within a).length = n } 4 ∧
    ¬ ∀ turns t, Reach step Rested s turns t → t.Limited 3 := by
  obtain ⟨s, hs, hmost, hall⟩ := loops_per_second 3 (by decide)
  refine ⟨s, hs, hmost (by decide) (by decide), ?_⟩
  intro hlimited
  exact absurd (hall.mp hlimited).2 (by decide)

end FixedLoop

end Rx
