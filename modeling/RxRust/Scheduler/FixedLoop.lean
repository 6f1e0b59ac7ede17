import Mathlib.Data.List.Chain
import RxRust.Core.Runs
import RxRust.Core.Signed

/-!
# The fixed-rate loop

`fixed_loop` of `scheduler.rs`: it calls its body at most `rate` times a second and sleeps for what
is left of a turn.  What the clock reads and the body answers are the events; a reading below an
earlier one, or of `2 ^ 63` and more, does not occur.  Numbers are the source's: the rate and the
clock are `u64`, and everything that is computed from them is `i64`.

* `fixedLoop`, `FixedLoop.step` — the lines above the loop, and one turn of it, with a record of the
  calls of the body and of `nanosleep`.
* `loopTime` — the loop time that `1_000_000_000i64 / rate as i64` comes to: rates from `2 ^ 63` on
  are negative numbers.
* `Rested` — what is assumed of `nanosleep`: it sleeps as long as it is told by a valid `timespec`,
  and an invalid one it refuses at once.
* `FixedLoop.spaced_iff` — the calls of the body are far enough apart in every run in which the rate
  is not one or every body takes time.
* `FixedLoop.safe_iff` — `nanosleep` is called as it should be exactly if the rate is not zero, no
  turn is late, and none is so early that a whole second is left.
-/

namespace Rx

open Core

/-- `timespec` -/
structure Timespec where
  tvSec : Int64
  tvNsec : Int64
  deriving Repr, DecidableEq

/-- The time it stands for, in nanoseconds. -/
def Timespec.ns (self : Timespec) : ℤ := self.tvSec.toInt * 10 ^ 9 + self.tvNsec.toInt

/-- `nanosleep` takes it. -/
def Timespec.Valid (self : Timespec) : Prop := 0 ≤ self.tvNsec.toInt ∧ self.tvNsec.toInt < 10 ^ 9

instance (ts : Timespec) : Decidable ts.Valid :=
  inferInstanceAs (Decidable (0 ≤ ts.tvNsec.toInt ∧ ts.tvNsec.toInt < 10 ^ 9))

/-! ## The loop -/

/-- One turn: the clock before the call of `f`, and, if `f` answered `true`, after it. -/
inductive Turn where
  | last (start : UInt64)
  | again (start stop : UInt64)
  deriving Repr, DecidableEq

/-- The reading before the call of `f`. -/
def Turn.start : Turn → UInt64
  | last start => start
  | again start _ => start

/-- The last reading of the turn. -/
def Turn.stop : Turn → UInt64
  | last start => start
  | again _ stop => stop

/-- A call of `nanosleep` at the end of the turn from `start` to `stop`. -/
structure Nap where
  start : UInt64
  stop : UInt64
  ts : Timespec
  deriving Repr, DecidableEq

/-- Where `fixed_loop` stands between two turns: the last reading, what it called `nanosleep` with
since, the readings before the calls of `f`, and all the calls of `nanosleep`. -/
structure FixedLoop where
  loopTimeNs : Int64
  running : Bool
  now : UInt64
  nap : Option Timespec
  starts : List UInt64
  naps : List Nap
  deriving Repr, DecidableEq

/-- `fixed_loop`, up to its loop. -/
def fixedLoop (rate : UInt64) : Outcome FixedLoop :=
  if rate.toInt64 = 0 then Outcome.panic "attempted to divide by zero"
  else pure ⟨1000000000 / rate.toInt64, true, 0, none, [], []⟩

namespace FixedLoop

/-- One turn of the loop. -/
def step (s : FixedLoop) : Turn → Outcome FixedLoop
  | Turn.last start =>
      if s.running ∧ s.now ≤ start ∧ start.toNat < 2 ^ 63 then
        pure { s with running := false, now := start, nap := none, starts := s.starts ++ [start] }
      else Outcome.stuck
  | Turn.again start stop =>
      if s.running ∧ s.now ≤ start ∧ start ≤ stop ∧ stop.toNat < 2 ^ 63 then
        let span := stop.toInt64 - start.toInt64
        match checkedSub s.loopTimeNs span with
        | some diff =>
            let ts : Timespec := ⟨0, diff⟩
            pure { s with
              now := stop
              nap := some ts
              starts := s.starts ++ [start]
              naps := s.naps ++ [⟨start, stop, ts⟩] }
        | none => pure { s with now := stop, nap := none, starts := s.starts ++ [start] }
      else Outcome.stuck

end FixedLoop

/-! ## One turn -/

/-- What `1_000_000_000i64 / rate as i64` comes to. -/
def loopTime (rate : UInt64) : ℤ :=
  if rate.toNat < 2 ^ 63 then ((10 ^ 9 / rate.toNat : ℕ) : ℤ)
  else -((10 ^ 9 / (2 ^ 64 - rate.toNat) : ℕ) : ℤ)

/-- The nanoseconds from one reading to another. -/
def Turn.span (start stop : UInt64) : ℕ := stop.toNat - start.toNat

/-- A call of `nanosleep` as it should be: the body took no longer than the loop time, and the
argument is valid and the rest of it. -/
structure Nap.Proper (loopTimeNs : Int64) (n : Nap) : Prop where
  early : Turn.span n.start n.stop ≤ loopTimeNs.toInt
  valid : n.ts.Valid
  rest : n.ts.ns = loopTimeNs.toInt - Turn.span n.start n.stop

lemma toNat_pos {rate : UInt64} (h : rate ≠ 0) : 0 < rate.toNat := by
  rcases Nat.eq_zero_or_pos rate.toNat with hzero | hpos
  · exact absurd (UInt64.toNat_inj.mp hzero) h
  · exact hpos

/-- Only at a rate of one is the loop time a whole second. -/
lemma whole_second_iff {rate : UInt64} (h : rate ≠ 0) :
    10 ^ 9 / rate.toNat = 10 ^ 9 ↔ rate = 1 := by
  constructor
  · intro hwhole
    have hle : rate.toNat ≤ 1 := by
      by_contra hlt
      have : 10 ^ 9 / rate.toNat ≤ 10 ^ 9 / 2 := Nat.div_le_div_left (by omega) (by decide)
      omega
    exact UInt64.toNat_inj.mp (Nat.le_antisymm hle (toNat_pos h))
  · rintro rfl
    decide

lemma fixedLoop_eq {rate : UInt64} (h : rate ≠ 0) :
    ∃ s, fixedLoop rate = Outcome.ret s ∧ s.loopTimeNs.toInt = loopTime rate ∧ s.starts = [] ∧
      s.naps = [] ∧ s.running = true ∧ s.now = 0 ∧ s.nap = none := by
  have hne : rate.toInt64 ≠ 0 := by
    intro hzero
    exact h (congrArg Int64.toUInt64 hzero)
  refine ⟨⟨1000000000 / rate.toInt64, true, 0, none, [], []⟩, ?_, ?_, rfl, rfl, rfl, rfl, rfl⟩
  · rw [fixedLoop, if_neg hne]
    rfl
  · exact toInt_div_toInt64 (by decide) rate

namespace FixedLoop

/-- What a last turn does. -/
lemma step_last {s u : FixedLoop} {start : UInt64}
    (h : s.step (Turn.last start) = Outcome.ret u) :
    s.running = true ∧ s.now ≤ start ∧
      u = { s with running := false, now := start, nap := none, starts := s.starts ++ [start] } := by
  obtain ⟨⟨hrun, hnow, -⟩, hu⟩ := Outcome.guard_eq_ret.mp h
  exact ⟨hrun, hnow, (Outcome.ret.inj hu).symm⟩

/-- What any other turn does: it calls `nanosleep` with what is left of the loop time, also when
that is negative, unless it is no `i64`. -/
lemma step_again {s u : FixedLoop} {start stop : UInt64}
    (h : s.step (Turn.again start stop) = Outcome.ret u) :
    s.running = true ∧ s.now ≤ start ∧ start ≤ stop ∧ Turn.span start stop < 2 ^ 63 ∧
      ((∃ ts : Timespec, ts.tvSec = 0 ∧
        ts.tvNsec.toInt = s.loopTimeNs.toInt - Turn.span start stop ∧
        -2 ^ 63 ≤ s.loopTimeNs.toInt - Turn.span start stop ∧
        u = { s with now := stop, nap := some ts, starts := s.starts ++ [start],
                     naps := s.naps ++ [⟨start, stop, ts⟩] }) ∨
      (s.loopTimeNs.toInt - Turn.span start stop < -2 ^ 63 ∧
        u = { s with now := stop, nap := none, starts := s.starts ++ [start] })) := by
  obtain ⟨⟨hrun, hnow, hle, hstop⟩, hu⟩ := Outcome.guard_eq_ret.mp h
  have hle' : start.toNat ≤ stop.toNat := UInt64.le_iff_toNat_le.mp hle
  have hlt : Turn.span start stop < 2 ^ 63 := Nat.lt_of_le_of_lt (Nat.sub_le _ _) hstop
  have hspan : (stop.toInt64 - start.toInt64).toInt = Turn.span start stop := by
    have hdiff : stop.toInt64.toInt - start.toInt64.toInt = Turn.span start stop := by
      rw [toInt_toInt64_of_lt hstop, toInt_toInt64_of_lt (Nat.lt_of_le_of_lt hle' hstop), Turn.span]
      omega
    rw [toInt_sub (by omega) (by omega), hdiff]
  refine ⟨hrun, hnow, hle, hlt, ?_⟩
  rcases checkedSub_cases s.loopTimeNs (b := stop.toInt64 - start.toInt64) (by omega) with
    ⟨d, hsub, hd, hlo⟩ | ⟨hsub, hlo⟩
  · rw [hspan] at hd
    simp only [hsub] at hu
    exact Or.inl ⟨⟨0, d⟩, rfl, hd, by omega, (Outcome.ret.inj hu).symm⟩
  · rw [hspan] at hlo
    simp only [hsub] at hu
    exact Or.inr ⟨hlo, (Outcome.ret.inj hu).symm⟩

/-- In every turn the loop time stays, one more call of `f` is noted, and the clock is read. -/
lemma step_frame {s u : FixedLoop} {e : Turn} (h : s.step e = Outcome.ret u) :
    u.loopTimeNs = s.loopTimeNs ∧ u.starts = s.starts ++ [e.start] ∧ u.now = e.stop := by
  cases e with
  | last start =>
      obtain ⟨-, -, rfl⟩ := step_last h
      exact ⟨rfl, rfl, rfl⟩
  | again start stop =>
      obtain ⟨-, -, -, -, ⟨ts, -, -, -, rfl⟩ | ⟨-, rfl⟩⟩ := step_again h
      · exact ⟨rfl, rfl, rfl⟩
      · exact ⟨rfl, rfl, rfl⟩

/-! ## The rate -/

/-- **What is assumed of `nanosleep`.**  With a valid `timespec` it sleeps at least that long, so
the clock reads accordingly when `f` is called next. -/
def Rested (s : FixedLoop) (e : Turn) : Prop :=
  ∀ ts, s.nap = some ts → ts.Valid → s.now.toNat + ts.ns ≤ e.start.toNat

/-- At a rate of one, the body takes time. -/
def Ticks (rate : UInt64) : Turn → Prop
  | Turn.last _ => True
  | Turn.again start stop => rate = 1 → Turn.span start stop ≠ 0

/-- The calls of `f` start at least the loop time apart. -/
def Spaced (rate : UInt64) (s : FixedLoop) : Prop :=
  s.starts.IsChain fun a b => a.toNat + 10 ^ 9 / rate.toNat ≤ b.toNat

instance (rate : UInt64) (s : FixedLoop) : Decidable (s.Spaced rate) :=
  inferInstanceAs (Decidable (s.starts.IsChain _))

/-- The invariant of the loop: the calls so far are far enough apart, and so will the next one
be. -/
structure Paced (rate : UInt64) (s : FixedLoop) : Prop where
  loopTime : s.loopTimeNs.toInt = loopTime rate
  spaced : s.Spaced rate
  next : s.running = true → ∀ a ∈ s.starts.getLast?, ∀ e : Turn, s.now ≤ e.start → s.Rested e →
    a.toNat + 10 ^ 9 / rate.toNat ≤ e.start.toNat

/-- One more call of `f`. -/
lemma Paced.call {rate : UInt64} {s : FixedLoop} (h : s.Paced rate) {e : Turn}
    (hrest : s.Rested e) (hrun : s.running = true) (hnow : s.now ≤ e.start) :
    (s.starts ++ [e.start]).IsChain fun a b => a.toNat + 10 ^ 9 / rate.toNat ≤ b.toNat := by
  refine List.isChain_append.mpr ⟨h.spaced, List.isChain_singleton _, ?_⟩
  intro a ha b hb
  obtain rfl : e.start = b := by simpa using hb
  exact h.next hrun a ha e hnow hrest

/-- A turn that was too short is followed by a valid `nanosleep`, unless the rate is one and the
body took no time at all. -/
lemma valid_of_short {rate : UInt64} (hrate : rate ≠ 0) {start stop : UInt64}
    (hticks : Ticks rate (Turn.again start stop))
    (hshort : Turn.span start stop < 10 ^ 9 / rate.toNat) :
    loopTime rate = ((10 ^ 9 / rate.toNat : ℕ) : ℤ) ∧
      loopTime rate - Turn.span start stop < 10 ^ 9 := by
  have hle : rate.toNat ≤ 10 ^ 9 := by
    by_contra hlt
    rw [Nat.div_eq_of_lt (Nat.lt_of_not_le hlt)] at hshort
    exact Nat.not_lt_zero _ hshort
  have hloop : loopTime rate = ((10 ^ 9 / rate.toNat : ℕ) : ℤ) := if_pos (by omega)
  refine ⟨hloop, ?_⟩
  have hmax := Nat.div_le_self (10 ^ 9) rate.toNat
  have hsecond : 10 ^ 9 / rate.toNat = 10 ^ 9 → Turn.span start stop ≠ 0 :=
    fun h => hticks ((whole_second_iff hrate).mp h)
  rw [hloop]
  omega

lemma Paced.step {rate : UInt64} (hrate : rate ≠ 0) {s u : FixedLoop} {e : Turn}
    (h : s.Paced rate) (hrest : s.Rested e) (hticks : Ticks rate e)
    (hs : s.step e = Outcome.ret u) : u.Paced rate := by
  obtain ⟨hsame, hstarts, hu⟩ := step_frame hs
  have hloop : u.loopTimeNs.toInt = Rx.loopTime rate := by rw [hsame, h.loopTime]
  cases e with
  | last start =>
      obtain ⟨hrun, hnow, rfl⟩ := step_last hs
      refine ⟨hloop, h.call hrest hrun hnow, ?_⟩
      intro hover
      cases hover
  | again start stop =>
      obtain ⟨hrun, hnow, hle, -, hsleep⟩ := step_again hs
      have hcall := h.call hrest hrun hnow
      simp only [Turn.start, Turn.stop] at hstarts hu
      have hspan : start.toNat + Turn.span start stop = stop.toNat :=
        Nat.add_sub_cancel' (UInt64.le_iff_toNat_le.mp hle)
      refine ⟨hloop, by rw [Spaced, hstarts]; exact hcall, ?_⟩
      intro _ a ha e' hnow' hrest'
      obtain rfl : start = a := by simpa [hstarts] using ha
      have hnow'' := UInt64.le_iff_toNat_le.mp (hu ▸ hnow')
      by_cases hshort : Turn.span start stop < 10 ^ 9 / rate.toNat
      · -- the body was quick: what is left of the loop time is slept
        obtain ⟨htime, hvalid⟩ := valid_of_short hrate hticks hshort
        rw [h.loopTime] at hsleep
        obtain ⟨ts, hsec, hnsec, -, rfl⟩ | ⟨hneg, -⟩ := hsleep
        · have hwait := hrest' ts rfl ⟨by omega, by omega⟩
          simp only [Timespec.ns, hsec, hnsec] at hwait
          have hzero : (0 : Int64).toInt = 0 := rfl
          omega
        · omega
      · omega

/-- The loop at a rate of one, before its first turn. -/
def everySecond : FixedLoop := ⟨1000000000, true, 0, none, [], []⟩

/-- A body that takes no time, and a second call of it at once. -/
def hurried : List Turn := [Turn.again 5 5, Turn.last 5]

/-- The sleep of a whole second is refused, so nothing holds the second call back. -/
lemma reach_hurried : fixedLoop 1 = Outcome.ret everySecond ∧
    ∃ t, Reach step Rested everySecond hurried t ∧ ¬ t.Spaced 1 := by
  let nap : Nap := ⟨5, 5, ⟨0, 1000000000⟩⟩
  let after : FixedLoop := ⟨1000000000, true, 5, some nap.ts, [5], [nap]⟩
  refine ⟨by decide, ⟨1000000000, false, 5, none, [5, 5], [nap]⟩, ?_, by decide⟩
  have hfirst : Reach step Rested everySecond [Turn.again 5 5] after := by
    refine Reach.snoc Reach.nil ?_ (by decide)
    intro ts hts
    cases hts
  refine Reach.snoc hfirst ?_ (by decide)
  intro ts hts hvalid
  obtain rfl := Option.some.inj hts
  exact absurd hvalid (by decide)

/-- **The rate limit.**  In a run in which, at a rate of one, every body takes time, the calls of
the body start at least the loop time apart; and these are all the runs exactly if the rate is not
one: the sleep of a whole second would be written `tv_nsec = 1_000_000_000`, which `nanosleep`
refuses. -/
theorem spaced_iff (rate : UInt64) (hrate : 1 ≤ rate) :
    ∃ s, fixedLoop rate = Outcome.ret s ∧
      (∀ turns t, Reach step (fun s e => s.Rested e ∧ Ticks rate e) s turns t → t.Spaced rate) ∧
      ((∀ turns t, Reach step Rested s turns t → t.Spaced rate) ↔ rate ≠ 1) := by
  have hne : rate ≠ 0 := by
    rintro rfl
    exact absurd hrate (by decide)
  obtain ⟨s, hs, hloop, hstarts, -⟩ := fixedLoop_eq hne
  have hpaced : s.Paced rate := by
    refine ⟨hloop, ?_, ?_⟩
    · rw [Spaced, hstarts]
      exact List.isChain_nil
    · intro _ a ha
      rw [hstarts] at ha
      cases ha
  have hkept : ∀ turns t, Reach step (fun s e => s.Rested e ∧ Ticks rate e) s turns t →
      t.Spaced rate := by
    intro turns t ht
    have hend := ht.invariant hpaced fun _ _ _ h hok hstep => h.step hne hok.1 hok.2 hstep
    exact hend.spaced
  refine ⟨s, hs, hkept, ?_, ?_⟩
  · rintro hall rfl
    obtain ⟨hfresh, t, ht, hclose⟩ := reach_hurried
    obtain rfl : s = everySecond := Outcome.ret.inj (hs.symm.trans hfresh)
    exact hclose (hall hurried t ht)
  · intro hone turns t ht
    refine hkept turns t (ht.mono fun s e hrest => ⟨hrest, ?_⟩)
    cases e with
    | last start => trivial
    | again start stop => exact fun h => absurd h hone

/-- At a thousand calls a second no run breaks the limit. -/
theorem spaced_milliseconds : ∃ s, fixedLoop 1000 = Outcome.ret s ∧
    ∀ turns t, Reach step Rested s turns t → t.Spaced 1000 := by
  obtain ⟨s, hs, -, hall⟩ := spaced_iff 1000 (by decide)
  exact ⟨s, hs, hall.mpr (by decide)⟩

/-- At a rate of one call a second, two calls start at the same time. -/
theorem second_not_kept : fixedLoop 1 = Outcome.ret everySecond ∧
    ∃ t, Reach step Rested everySecond hurried t ∧ ¬ t.Spaced 1 := reach_hurried

/-! ## The calls of `nanosleep` -/

/-- All the calls so far were proper. -/
def Careful (s : FixedLoop) : Prop := ∀ n ∈ s.naps, n.Proper s.loopTimeNs

/-- The turn is not late, and not so early that a whole second is left.  Rates from `2 ^ 63` on are
negative, and their loop time is none at all or negative: then the body may take no time, or so much
that the difference is no `i64`. -/
def OnTime (rate : UInt64) : Turn → Prop
  | Turn.last _ => True
  | Turn.again start stop =>
      if rate.toNat < 2 ^ 63 then
        Turn.span start stop * rate.toNat ≤ 10 ^ 9 ∧ ¬ (rate = 1 ∧ Turn.span start stop = 0)
      else
        (10 ^ 9 < 2 ^ 64 - rate.toNat ∧ Turn.span start stop = 0) ∨
          2 ^ 63 < Turn.span start stop + 10 ^ 9 / (2 ^ 64 - rate.toNat)

/-- The same by the loop time: `nanosleep` is not called, or should be. -/
lemma onTime_iff {rate : UInt64} (hrate : rate ≠ 0) {start stop : UInt64}
    (hspan : Turn.span start stop < 2 ^ 63) :
    OnTime rate (Turn.again start stop) ↔
      loopTime rate - Turn.span start stop < -2 ^ 63 ∨
        (Turn.span start stop ≤ loopTime rate ∧
          loopTime rate - Turn.span start stop < 10 ^ 9) := by
  have hlt := rate.toNat_lt
  simp only [OnTime, loopTime]
  generalize Turn.span start stop = span at hspan ⊢
  split_ifs with hsmall
  · have hmax := Nat.div_le_self (10 ^ 9) rate.toNat
    rw [← Nat.le_div_iff_mul_le (toNat_pos hrate), ← whole_second_iff hrate]
    generalize 10 ^ 9 / rate.toNat = loop at hmax ⊢
    omega
  · have hzero : 10 ^ 9 < 2 ^ 64 - rate.toNat ↔ 10 ^ 9 / (2 ^ 64 - rate.toNat) = 0 :=
      (Nat.div_eq_zero_iff_lt (by omega)).symm
    rw [hzero]
    generalize 10 ^ 9 / (2 ^ 64 - rate.toNat) = loop
    omega

/-- A turn keeps the calls proper exactly if it is on time. -/
lemma Careful.step_iff {rate : UInt64} (hrate : rate ≠ 0) {s u : FixedLoop} {e : Turn}
    (hloop : s.loopTimeNs.toInt = loopTime rate) (h : s.Careful)
    (hs : s.step e = Outcome.ret u) : u.Careful ↔ OnTime rate e := by
  cases e with
  | last start =>
      obtain ⟨-, -, rfl⟩ := step_last hs
      exact ⟨fun _ => trivial, fun _ => h⟩
  | again start stop =>
      obtain ⟨-, -, -, hspan, hsleep⟩ := step_again hs
      rw [onTime_iff hrate hspan, ← hloop]
      obtain ⟨ts, hsec, hnsec, hlo, rfl⟩ | ⟨hneg, rfl⟩ := hsleep
      · have hns : ts.ns = s.loopTimeNs.toInt - Turn.span start stop := by
          rw [Timespec.ns, hsec, hnsec]
          exact Int.zero_add _
        constructor
        · intro hu
          have hnap := hu ⟨start, stop, ts⟩ (List.mem_append_right _ (List.mem_singleton_self _))
          have hvalid := hnap.valid
          rw [Timespec.Valid, hnsec] at hvalid
          exact Or.inr ⟨hnap.early, hvalid.2⟩
        · rintro (hneg | ⟨hearly, hshort⟩) n hn
          · omega
          · rcases List.mem_append.mp hn with hn | hn
            · exact h n hn
            · have hvalid : ts.Valid := by
                rw [Timespec.Valid, hnsec]
                omega
              obtain rfl := List.mem_singleton.mp hn
              exact ⟨hearly, hvalid, hns⟩
      · exact ⟨fun _ => Or.inl hneg, fun _ => h⟩

/-- `fixed_loop` divides and makes its calls of `nanosleep` as it should, in the turns of a run. -/
def Safe (rate : UInt64) (turns : List Turn) : Prop :=
  ∃ s, fixedLoop rate = Outcome.ret s ∧
    ∀ fs t, fs <+: turns → Reach step anyStep s fs t → t.Careful

/-- **Safety.**  In a run, all is as it should be exactly if the rate is not zero and every turn is
on time. -/
theorem safe_iff (rate : UInt64) (turns : List Turn)
    (hturns : ∀ s, fixedLoop rate = Outcome.ret s → ∃ t, Reach step anyStep s turns t) :
    Safe rate turns ↔ rate ≠ 0 ∧ ∀ e ∈ turns, OnTime rate e := by
  by_cases hrate : rate = 0
  · subst hrate
    constructor
    · rintro ⟨s, hs, -⟩
      have hzero : fixedLoop 0 = Outcome.panic "attempted to divide by zero" := rfl
      rw [hzero] at hs
      cases hs
    · exact fun h => absurd rfl h.1
  · obtain ⟨s, hs, hloop, -, hnaps, -⟩ := fixedLoop_eq hrate
    obtain ⟨t, ht⟩ := hturns s hs
    have hcareful : s.Careful := by
      rw [Careful, hnaps]
      simp
    -- the calls stay proper exactly as long as the turns are on time
    have halways : (∀ fs u, fs <+: turns → Reach step anyStep s fs u → u.Careful) ↔
        ∀ e ∈ turns, OnTime rate e := by
      rw [← ht.events_iff]
      refine ht.always_iff_within (J := fun u => u.loopTimeNs.toInt = loopTime rate) hloop hcareful
        ?_ fun u e v hu hc hv => hc.step_iff hrate hu hv
      intro u e v hu hv
      rw [(step_frame hv).1, hu]
    constructor
    · rintro ⟨s', hs', hsafe⟩
      obtain rfl : s = s' := Outcome.ret.inj (hs.symm.trans hs')
      exact ⟨hrate, halways.mp hsafe⟩
    · rintro ⟨-, hontime⟩
      exact ⟨s, hs, halways.mpr hontime⟩

/-- A thousand turns a second, and a body that takes `0.4` of its millisecond. -/
theorem safe_millisecond : Safe 1000 [Turn.again 0 400000, Turn.last 1000000] := by
  refine (safe_iff 1000 _ ?_).mpr ⟨by decide, by simp [OnTime, Turn.span]⟩
  intro s hs
  have hfresh : fixedLoop 1000 = Outcome.ret ⟨1000000, true, 0, none, [], []⟩ := by decide
  obtain rfl := Outcome.ret.inj (hs.symm.trans hfresh)
  have hrun : execute step (fun _ _ => true) ⟨1000000, true, 0, none, [], []⟩
      [Turn.again 0 400000, Turn.last 1000000] = some ⟨1000000, false, 1000000, none, [0, 1000000],
        [⟨0, 400000, ⟨0, 600000⟩⟩]⟩ := by decide
  exact ⟨_, reach_of_execute (fun _ _ _ => trivial) hrun⟩

/-- A rate of zero is divided by; and a body that takes two milliseconds of the one it has is
followed by a sleep of minus one. -/
theorem late_turn_sleeps :
    fixedLoop 0 = Outcome.panic "attempted to divide by zero" ∧
    ∃ s t, fixedLoop 1000 = Outcome.ret s ∧ Reach step anyStep s [Turn.again 0 2000000] t ∧
      t.naps = [⟨0, 2000000, ⟨0, -1000000⟩⟩] ∧ ¬ t.Careful := by
  refine ⟨rfl, ⟨1000000, true, 0, none, [], []⟩, ⟨1000000, true, 2000000, some ⟨0, -1000000⟩, [0],
    [⟨0, 2000000, ⟨0, -1000000⟩⟩]⟩, by decide, ?_, rfl, ?_⟩
  · exact Reach.snoc Reach.nil trivial (by decide)
  · intro hcareful
    have hnap := hcareful ⟨0, 2000000, ⟨0, -1000000⟩⟩ (List.mem_singleton_self _)
    exact absurd hnap.valid (by decide)

end FixedLoop

end Rx
