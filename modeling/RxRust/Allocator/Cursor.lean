import RxRust.Allocator.Bounds

/-!
# The cursor

`allocate` computes `offset + size` on machine words before it looks at anything, and moves the
cursor even when it comes back with null.  As long as no request that succeeds carries the cursor
over the top, the cursor only moves forward: once it lies past the end of the file it stays there,
and a new block lies beyond everything handed out before.

* `Heap.NoWrap` — the request whose turn it is does not carry the cursor over the top, or it comes
  back with null and leaves the cursor where it is.
* `Heap.Steady` — the invariant: the blocks, returned or still owed to a thread, lie between the
  header and the cursor and apart from one another, and after a null the cursor lies past the end.
* **`cursor_steady`** — what holds along every run that meets `NoWrap`, and what a request does that
  does not.
-/

namespace Rx

open Core

namespace Heap

variable {n : ℕ} {s t : Heap n} {totalSize : UInt64}

/-- The calls that have come back since the file was made. -/
def results (s : Heap n) : List Returned := s.earlier ++ s.returned

/-- The block that a thread will come back with. -/
def owed (s : Heap n) (i : Fin n) : Option Block :=
  match s.calls i with
  | Call.won size offset =>
      if offset > s.region.totalSize then none else some ⟨offset.toNat, size.toNat⟩
  | _ => none

/-- A request whose compare-and-swap is about to succeed does not carry the cursor over the top; or
the cursor lies past the end, and the size is so close to `2 ^ 64` that the cursor stays. -/
def NoWrap (totalSize : UInt64) (s : Heap n) (e : Event n) : Prop :=
  ∀ i size offset, e = Event.compareAndSwap i → s.calls i = Call.loaded size offset →
    s.file.header.current = offset →
      offset.toNat + size.toNat + 7 < 2 ^ 64 ∨ (totalSize < offset ∧ 2 ^ 64 ≤ size.toNat + 7)

/-! ## Where the cursor goes -/

/-- A request whose size is close to `2 ^ 64` leaves the cursor where it is. -/
lemma alignUp_add_huge {offset size : UInt64} (habove : 24 ≤ offset.toNat)
    (hdvd : 8 ∣ offset.toNat) (hsize : 2 ^ 64 ≤ size.toNat + 7) :
    alignUp (offset + size) = offset := by
  have hoffset := offset.toNat_lt
  have hlt := size.toNat_lt
  have hadd : (offset + size).toNat = offset.toNat + size.toNat - 2 ^ 64 := by
    rw [UInt64.toNat_add, Nat.mod_eq_sub_mod (by omega), Nat.mod_eq_of_lt (by omega)]
  refine UInt64.toNat_inj.mp ?_
  rw [alignUp_toNat (by omega) (by omega), hadd]
  exact roundUp_eq (by decide) hdvd (by omega) (by omega)

/-- A request that carries the cursor over the top, and is not that large, moves it back. -/
lemma alignUp_add_wraps {offset size : UInt64} (habove : 24 ≤ offset.toNat)
    (hdvd : 8 ∣ offset.toNat) (hwrap : 2 ^ 64 ≤ offset.toNat + size.toNat + 7)
    (hsize : size.toNat + 7 < 2 ^ 64) : (alignUp (offset + size)).toNat < offset.toNat := by
  have hoffset := offset.toNat_lt
  by_cases hsum : offset.toNat + size.toNat < 2 ^ 64
  · -- the sum fits, but rounding it up gives zero
    have hadd : (offset + size).toNat = offset.toNat + size.toNat := by
      rw [UInt64.toNat_add, Nat.mod_eq_of_lt hsum]
    have htop : roundUp 8 (offset.toNat + size.toNat) = 2 ^ 64 :=
      roundUp_eq (by decide) (by decide) (by omega) (by omega)
    rw [alignUp_toNat_mod (by omega), hadd, htop, Nat.mod_self]
    omega
  · have hadd : (offset + size).toNat = offset.toNat + size.toNat - 2 ^ 64 := by
      rw [UInt64.toNat_add, Nat.mod_eq_sub_mod (by omega), Nat.mod_eq_of_lt (by omega)]
    by_cases hzero : (offset + size).toNat = 0
    · have h₀ : offset + size = 0 := UInt64.toNat_inj.mp hzero
      rw [h₀]
      have : (alignUp 0).toNat = 0 := by decide
      omega
    · rw [alignUp_toNat (by omega) (by omega), hadd]
      have hround := roundUp_lt (a := 8) (x := offset.toNat + size.toNat - 2 ^ 64) (by decide)
      have hmul := dvd_roundUp 8 (offset.toNat + size.toNat - 2 ^ 64)
      omega

/-! ## The invariant -/

/-- The invariant of the cursor. -/
structure Steady (totalSize : UInt64) (s : Heap n) : Prop where
  sized : s.Sized totalSize
  aligned : 8 ∣ s.file.header.current.toNat
  above : 24 ≤ s.file.header.current.toNat
  inRange : ∀ b ∈ s.blocks, b.InRange s.file.header.current.toNat
  apart : s.blocks.Pairwise Block.Apart
  owedRange : ∀ i b, s.owed i = some b → b.InRange s.file.header.current.toNat
  owedBlocks : ∀ i b, s.owed i = some b → ∀ c ∈ s.blocks, b.Apart c
  owedApart : ∀ i j b c, i ≠ j → s.owed i = some b → s.owed j = some c → b.Apart c
  won : ∀ i size offset, s.calls i = Call.won size offset → offset ≤ s.file.header.current
  null : ∀ r ∈ s.results, r.offset = none → totalSize < s.file.header.current

/-- A thread that goes anywhere but past its compare-and-swap is owed nothing. -/
lemma owed_setCall {i j : Fin n} {c : Call} {b : Block} (hc : ∀ z o, c ≠ Call.won z o)
    (h : (s.setCall i c).owed j = some b) : s.owed j = some b := by
  by_cases hij : j = i
  · subst hij
    rw [owed, calls_setCall] at h
    cases c with
    | won z o => exact absurd rfl (hc z o)
    | _ => cases h
  · rw [owed, calls_setCall_ne s hij] at h
    exact h

lemma Steady.packed (hs : s.Steady totalSize) :
    Packed s.owed s.blocks s.file.header.current.toNat :=
  ⟨hs.inRange, hs.apart, hs.owedRange, hs.owedBlocks, hs.owedApart⟩

lemma Steady.setCall (hs : s.Steady totalSize) {i : Fin n} {c : Call}
    (hc : ∀ z o, c ≠ Call.won z o) : (s.setCall i c).Steady totalSize := by
  have hp : Packed (s.setCall i c).owed s.blocks s.file.header.current.toNat :=
    hs.packed.drop fun j b h => owed_setCall hc h
  refine ⟨⟨hs.sized.magic, hs.sized.file, hs.sized.header, hs.sized.region⟩, hs.aligned, hs.above,
    hs.inRange, hs.apart, hp.heldRange, hp.heldBlocks, hp.heldApart, ?_, hs.null⟩
  intro j z o h
  by_cases hij : j = i
  · subst hij
    rw [calls_setCall] at h
    exact absurd h (hc z o)
  · rw [calls_setCall_ne s hij] at h
    exact hs.won j z o h

/-- A call that has come back. -/
lemma Steady.idle (hs : s.Steady totalSize) (i : Fin n) :
    (s.setCall i Call.idle).Steady totalSize := by
  refine hs.setCall ?_
  intro z o h
  cases h

/-- Where a request that meets the condition moves the cursor: beyond its block, or nowhere, and
then it comes back with null. -/
lemma Steady.next (hs : s.Steady totalSize) {i : Fin n} {size offset : UInt64}
    (hok : NoWrap totalSize s (Event.compareAndSwap i))
    (hcall : s.calls i = Call.loaded size offset)
    (heq : s.file.header.current = offset) :
    8 ∣ (alignUp (offset + size)).toNat ∧ offset.toNat ≤ (alignUp (offset + size)).toNat ∧
      (offset > totalSize ∨ offset.toNat + size.toNat ≤ (alignUp (offset + size)).toNat) := by
  subst heq
  have habove := hs.above
  rcases hok i size _ rfl hcall rfl with hfits | ⟨hpast, hhuge⟩
  · have hcur := alignUp_add_toNat (by omega) hfits hs.aligned
    have hsize : size.toNat ≤ roundUp 8 size.toNat := le_roundUp (by decide)
    rw [hcur]
    exact ⟨Nat.dvd_add hs.aligned (dvd_roundUp 8 _), by omega, Or.inr (by omega)⟩
  · rw [alignUp_add_huge habove hs.aligned hhuge]
    exact ⟨hs.aligned, Nat.le_refl _, Or.inl hpast⟩

/-- **The compare-and-swap.**  The new block starts at the old cursor and ends before the new one,
unless the call will come back with null. -/
lemma Steady.swapped (hs : s.Steady totalSize) {i : Fin n} {size offset : UInt64}
    (hok : NoWrap totalSize s (Event.compareAndSwap i))
    (hcall : s.calls i = Call.loaded size offset)
    (heq : s.file.header.current = offset) : (s.swapped i size offset).Steady totalSize := by
  obtain ⟨hdvd, hle, hend⟩ := hs.next hok hcall heq
  have hcur : s.file.header.current.toNat ≤ (alignUp (offset + size)).toNat := by
    rw [heq]
    exact hle
  have habove : 24 ≤ offset.toNat := heq ▸ hs.above
  have hp : Packed (s.swapped i size offset).owed s.blocks (alignUp (offset + size)).toNat := by
    refine hs.packed.take i hcur ?_ ?_
    · intro b h
      have hregion : (s.swapped i size offset).region.totalSize = totalSize := hs.sized.region
      simp only [owed, calls_swapped, hregion] at h
      split_ifs at h with hpast
      obtain rfl := Option.some.inj h
      exact ⟨by rw [heq], heq ▸ hs.aligned, habove, hend.resolve_left hpast⟩
    · intro j b hij h
      rwa [owed, calls_swapped_ne s hij] at h
  refine ⟨⟨hs.sized.magic, hs.sized.file, hs.sized.header, hs.sized.region⟩, hdvd,
    Nat.le_trans habove hle, hp.inRange, hp.apart, hp.heldRange, hp.heldBlocks, hp.heldApart, ?_, ?_⟩
  · intro j z o h
    show o ≤ alignUp (offset + size)
    rw [UInt64.le_iff_toNat_le]
    by_cases hij : j = i
    · subst hij
      rw [calls_swapped] at h
      obtain ⟨-, rfl⟩ := Call.won.inj h
      exact hle
    · rw [calls_swapped_ne s hij] at h
      exact Nat.le_trans (UInt64.le_iff_toNat_le.mp (hs.won j z o h)) hcur
  · intro r hr hnull
    have := UInt64.lt_iff_toNat_lt.mp (hs.null r hr hnull)
    exact UInt64.lt_iff_toNat_lt.mpr (Nat.lt_of_lt_of_le this hcur)

lemma results_returns (s : Heap n) (i : Fin n) (r : Returned) :
    (s.returns i r).results = s.results ++ [r] := by
  simp [results, returns]

lemma results_reopened (s : Heap n) (region : MappedRegion) :
    (s.reopened region).results = s.results := by
  simp [results, reopened]

/-- A call that comes back with null saw the cursor past the end. -/
lemma Steady.returns_null (hs : s.Steady totalSize) {i : Fin n} {size offset : UInt64}
    (hcall : s.calls i = Call.won size offset) (hpast : offset > totalSize) :
    (s.returns i ⟨size, none⟩).Steady totalSize := by
  have hidle := hs.idle i
  have hblocks := blocks_returns_null s i size
  refine ⟨⟨hs.sized.magic, hs.sized.file, hs.sized.header, hs.sized.region⟩, hs.aligned, hs.above,
    ?_, ?_, hidle.owedRange, ?_, hidle.owedApart, hidle.won, ?_⟩
  · rw [hblocks]
    exact hs.inRange
  · rw [hblocks]
    exact hs.apart
  · rw [hblocks]
    exact hidle.owedBlocks
  · intro r hr hnull
    rw [results_returns] at hr
    rcases List.mem_append.mp hr with hr | -
    · exact hs.null r hr hnull
    · exact UInt64.lt_of_lt_of_le hpast (hs.won i size offset hcall)

lemma owed_of_won {i : Fin n} {size offset : UInt64} (hcall : s.calls i = Call.won size offset)
    (hpast : ¬ offset > s.region.totalSize) :
    s.owed i = some ⟨offset.toNat, size.toNat⟩ := by
  rw [owed, hcall]
  exact if_neg hpast

/-- A call that comes back with a pointer hands its block over to the caller. -/
lemma Steady.returns_block (hs : s.Steady totalSize) {i : Fin n} {size offset : UInt64}
    (hmine : s.owed i = some ⟨offset.toNat, size.toNat⟩) :
    (s.fetchAdd.returns i ⟨size, some offset⟩).Steady totalSize := by
  have hidle := hs.idle i
  have hblocks : (s.fetchAdd.returns i ⟨size, some offset⟩).blocks
      = s.blocks ++ [⟨offset.toNat, size.toNat⟩] := blocks_returns s.fetchAdd i _
  have hp : Packed (s.setCall i Call.idle).owed (s.blocks ++ [⟨offset.toNat, size.toNat⟩])
      s.file.header.current.toNat := by
    refine hs.packed.hand hmine ?_
    intro j b h
    refine ⟨?_, owed_setCall (by intro z o h; cases h) h⟩
    rintro rfl
    rw [owed, calls_setCall] at h
    cases h
  refine ⟨⟨hs.sized.magic, hs.sized.file, hs.sized.header, hs.sized.region⟩, hs.aligned, hs.above,
    ?_, ?_, hp.heldRange, ?_, hp.heldApart, hidle.won, ?_⟩
  · rw [hblocks]
    exact hp.inRange
  · rw [hblocks]
    exact hp.apart
  · rw [hblocks]
    exact hp.heldBlocks
  · intro r hr hnull
    rw [results_returns] at hr
    rcases List.mem_append.mp hr with hr | hr
    · exact hs.null r hr hnull
    · rw [List.mem_singleton.mp hr] at hnull
      cases hnull

/-- **Every event** that meets the condition keeps the invariant. -/
lemma Steady.step (hs : s.Steady totalSize) {e : Event n} (hok : NoWrap totalSize s e)
    (hlong : e = Event.reopen → 17 ≤ totalSize) (h : s.step e = Outcome.ret t) :
    t.Steady totalSize := by
  rcases step_cases h with ⟨i, size, rfl, hc, rfl⟩ | ⟨i, size, rfl, hc, rfl⟩ |
    ⟨i, size, offset, rfl, hc, ⟨heq, rfl⟩ | ⟨-, rfl⟩⟩ | ⟨i, size, offset, rfl, hc, rfl⟩ |
    ⟨rfl, -, region, hload, rfl⟩
  · refine hs.setCall ?_
    intro z o h
    cases h
  · refine hs.setCall ?_
    intro z o h
    cases h
  · exact hs.swapped hok hc heq
  · refine hs.setCall ?_
    intro z o h
    cases h
  · rw [finished, hs.sized.region]
    split_ifs with hpast
    · exact hs.returns_null hc hpast
    · exact hs.returns_block (owed_of_won hc (hs.sized.region.symm ▸ hpast))
  · have hsized := hs.sized.step hlong h
    have hfile : (s.reopened region).file = s.file := hs.sized.dropped (hlong rfl)
    have hblocks := blocks_reopened s region
    have howed : (s.reopened region).owed = s.owed := by
      funext i
      have hregion : (s.reopened region).region.totalSize = s.region.totalSize :=
        hsized.region.trans hs.sized.region.symm
      rw [owed, owed, hregion]
      rfl
    refine ⟨hsized, ?_, ?_, ?_, ?_, ?_, ?_, ?_, ?_, ?_⟩
    · rw [hfile]
      exact hs.aligned
    · rw [hfile]
      exact hs.above
    · rw [hblocks, hfile]
      exact hs.inRange
    · rw [hblocks]
      exact hs.apart
    · rw [howed, hfile]
      exact hs.owedRange
    · rw [howed, hblocks]
      exact hs.owedBlocks
    · rw [howed]
      exact hs.owedApart
    · rw [hfile]
      exact hs.won
    · rw [results_reopened, hfile]
      exact hs.null

lemma steady_start (n : ℕ) (basepath : String) (totalSize : UInt64) :
    (start n basepath totalSize).Steady totalSize := by
  have hcur : (start n basepath totalSize).file.header.current.toNat = 24 := rfl
  refine ⟨⟨rfl, rfl, rfl, rfl⟩, ?_, ?_, ?_, List.Pairwise.nil, ?_, ?_, ?_, ?_, ?_⟩
  · rw [hcur]
    decide
  · exact Nat.le_of_eq hcur.symm
  · intro b hb
    cases hb
  · intro i b h
    cases h
  · intro i b h
    cases h
  · intro i j b c _ h
    cases h
  · intro i size offset h
    cases h
  · intro r hr
    cases hr

lemma steady_reach {basepath : String} {es : List (Event n)}
    (hlong : 17 ≤ totalSize ∨ Event.reopen ∉ es)
    (h : Reach step (NoWrap totalSize) (start n basepath totalSize) es s) : s.Steady totalSize := by
  refine h.invariant_of_mem (forall_reopen hlong) (steady_start n basepath totalSize) ?_
  intro t e u ht hfile hok hstep
  exact ht.step hok hfile hstep

/-! ## Runs -/

/-- The cursor does not move back. -/
lemma Steady.current_le (hs : s.Steady totalSize) {e : Event n} (hok : NoWrap totalSize s e)
    (hlong : e = Event.reopen → 17 ≤ totalSize) (h : s.step e = Outcome.ret t) :
    s.file.header.current ≤ t.file.header.current := by
  rcases step_cases h with ⟨i, size, rfl, hc, rfl⟩ | ⟨i, size, rfl, hc, rfl⟩ |
    ⟨i, size, offset, rfl, hc, ⟨heq, rfl⟩ | ⟨-, rfl⟩⟩ | ⟨i, size, offset, rfl, hc, rfl⟩ |
    ⟨rfl, -, region, hload, rfl⟩
  · exact UInt64.le_refl _
  · exact UInt64.le_refl _
  · rw [heq, UInt64.le_iff_toNat_le]
    exact (hs.next hok hc heq).2.1
  · exact UInt64.le_refl _
  · rw [finished]
    split_ifs
    · exact UInt64.le_refl _
    · exact UInt64.le_refl _
  · have hfile : (s.reopened region).file = s.file := hs.sized.dropped (hlong rfl)
    rw [hfile]
    exact UInt64.le_refl _

/-- What has come back since `s`, when the cursor of `s` lay past the end: nulls, and the blocks of
the calls that were past their compare-and-swap in `s`. -/
structure Spent (totalSize : UInt64) (s t : Heap n) : Prop where
  past : totalSize < t.file.header.current
  results : ∃ later, t.results = s.results ++ later ∧ ∀ r ∈ later, r.offset = none ∨
    ∃ i size offset, s.calls i = Call.won size offset ∧ r = ⟨size, some offset⟩
  won : ∀ i size offset, t.calls i = Call.won size offset →
    totalSize < offset ∨ s.calls i = Call.won size offset

lemma Spent.refl (h : totalSize < s.file.header.current) : Spent totalSize s s := by
  refine ⟨h, ⟨[], (List.append_nil _).symm, ?_⟩, ?_⟩
  · intro r hr
    cases hr
  · intro i size offset hc
    exact Or.inr hc

/-- Moving one thread. -/
lemma Spent.setCall (h : Spent totalSize s t) {i : Fin n} {c : Call}
    (hc : ∀ z o, c = Call.won z o → totalSize < o) : Spent totalSize s (t.setCall i c) := by
  refine ⟨h.past, h.results, ?_⟩
  intro j z o hj
  by_cases hij : j = i
  · subst hij
    rw [calls_setCall] at hj
    exact Or.inl (hc z o hj)
  · rw [calls_setCall_ne t hij] at hj
    exact h.won j z o hj

/-- One more call comes back. -/
lemma Spent.returns (h : Spent totalSize s t) (i : Fin n) {r : Returned}
    (hr : r.offset = none ∨ ∃ i size offset, s.calls i = Call.won size offset ∧
      r = ⟨size, some offset⟩) : Spent totalSize s (t.returns i r) := by
  have hidle : Spent totalSize s (t.setCall i Call.idle) := by
    refine h.setCall ?_
    intro z o hwon
    cases hwon
  obtain ⟨later, hlater, hnull⟩ := h.results
  refine ⟨h.past, ⟨later ++ [r], ?_, ?_⟩, hidle.won⟩
  · rw [results_returns, hlater, List.append_assoc]
  · intro r' hr'
    rcases List.mem_append.mp hr' with hr' | hr'
    · exact hnull r' hr'
    · rw [List.mem_singleton.mp hr']
      exact hr

lemma Spent.step {u : Heap n} (h : Spent totalSize s t) (ht : t.Steady totalSize) {e : Event n}
    (hok : NoWrap totalSize t e) (hlong : e = Event.reopen → 17 ≤ totalSize)
    (hu : t.step e = Outcome.ret u) : Spent totalSize s u := by
  have hpast : totalSize < u.file.header.current :=
    UInt64.lt_of_lt_of_le h.past (ht.current_le hok hlong hu)
  rcases step_cases hu with ⟨i, size, rfl, hc, rfl⟩ | ⟨i, size, rfl, hc, rfl⟩ |
    ⟨i, size, offset, rfl, hc, ⟨heq, rfl⟩ | ⟨-, rfl⟩⟩ | ⟨i, size, offset, rfl, hc, rfl⟩ |
    ⟨rfl, -, region, hload, rfl⟩
  · refine h.setCall ?_
    intro z o hwon
    cases hwon
  · refine h.setCall ?_
    intro z o hwon
    cases hwon
  · have hwon : Spent totalSize s (t.setCall i (Call.won size offset)) := by
      refine h.setCall ?_
      intro z o hwon
      obtain ⟨-, rfl⟩ := Call.won.inj hwon
      exact heq ▸ h.past
    exact ⟨hpast, hwon.results, hwon.won⟩
  · refine h.setCall ?_
    intro z o hwon
    cases hwon
  · rw [finished, ht.sized.region]
    split_ifs with hnull
    · exact h.returns i (Or.inl rfl)
    · have hadd : Spent totalSize s t.fetchAdd := ⟨h.past, h.results, h.won⟩
      have hearlier := (h.won i size offset hc).resolve_left hnull
      exact hadd.returns i (Or.inr ⟨i, size, offset, hearlier, rfl⟩)
  · refine ⟨hpast, ?_, h.won⟩
    rw [results_reopened]
    exact h.results

/-- A request that carries the cursor over the top moves it back, or leaves it in front of the block
that the request gets. -/
lemma Steady.wraps (hs : s.Steady totalSize) {e : Event n} (h : s.step e = Outcome.ret t)
    (hok : ¬ NoWrap totalSize s e) :
    t.file.header.current < s.file.header.current ∨
      ∃ i b, t.owed i = some b ∧ t.file.header.current.toNat < b.offset + b.size := by
  simp only [NoWrap, not_forall, not_or, not_and] at hok
  obtain ⟨i, size, offset, rfl, hc, heq, hover, hhuge⟩ := hok
  have ht : t = s.swapped i size offset := by
    simp only [Heap.step, hc, if_pos heq] at h
    exact (Outcome.ret.inj h).symm
  subst ht
  have habove : 24 ≤ offset.toNat := heq ▸ hs.above
  have hdvd : 8 ∣ offset.toNat := heq ▸ hs.aligned
  by_cases hsize : size.toNat + 7 < 2 ^ 64
  · left
    rw [heq, UInt64.lt_iff_toNat_lt]
    exact alignUp_add_wraps habove hdvd (by omega) hsize
  · right
    have hcur : (s.swapped i size offset).file.header.current = offset :=
      alignUp_add_huge habove hdvd (by omega)
    have hpast : ¬ offset > (s.swapped i size offset).region.totalSize := by
      intro hgt
      exact hhuge (hs.sized.region ▸ hgt) (by omega)
    refine ⟨i, _, owed_of_won (calls_setCall s i _) hpast, ?_⟩
    rw [hcur]
    show offset.toNat < offset.toNat + size.toNat
    omega

/-- **The cursor does not wrap**, along every run of any number of threads with any sizes in which
each request that succeeds has a cursor and a size that stay below `2 ^ 64` when rounded up, or
finds the cursor past the end and asks for `2 ^ 64 - 7` bytes or more.  From any state of such a run
on the cursor does not move back; once a call has come back with null, so does every later one; and
every block handed out lies beyond the header and apart from the others.  A request that is not so
moves the cursor back, or leaves it in front of the block that it gets.  The file may be dropped and
loaded in between if it has 17 bytes or more: a shorter one loses part of its header. -/
theorem cursor_steady (n : ℕ) (basepath : String) (totalSize : UInt64) {es : List (Event n)}
    {s : Heap n} (hlong : 17 ≤ totalSize ∨ Event.reopen ∉ es)
    (h : Reach step (NoWrap totalSize) (start n basepath totalSize) es s) :
    (∀ fs t, (17 ≤ totalSize ∨ Event.reopen ∉ fs) → Reach step (NoWrap totalSize) s fs t →
      s.file.header.current ≤ t.file.header.current ∧
      ((∃ r ∈ s.results, r.offset = none) → ∃ later, t.results = s.results ++ later ∧
        ∀ r ∈ later, r.offset = none ∨
          ∃ i size offset, s.calls i = Call.won size offset ∧ r = ⟨size, some offset⟩) ∧
      (∀ b ∈ t.blocks, 24 ≤ b.offset) ∧ t.blocks.Pairwise Block.Apart) ∧
    ∀ e t, s.step e = Outcome.ret t → ¬ NoWrap totalSize s e →
      t.file.header.current < s.file.header.current ∨
        ∃ i b, t.owed i = some b ∧ t.file.header.current.toNat < b.offset + b.size := by
  have hs : s.Steady totalSize := steady_reach hlong h
  refine ⟨?_, fun e t ht hok => hs.wraps ht hok⟩
  intro fs t hrest ht
  have hsteady : t.Steady totalSize := by
    refine steady_reach ?_ (h.append ht)
    rw [List.mem_append, not_or, or_and_left]
    exact ⟨hlong, hrest⟩
  refine ⟨?_, ?_, ?_, hsteady.apart⟩
  · refine (ht.invariant_of_mem (P := fun u => u.Steady totalSize ∧
      s.file.header.current ≤ u.file.header.current) (forall_reopen hrest)
      ⟨hs, UInt64.le_refl _⟩ ?_).2
    rintro u e v ⟨hu, hle⟩ hfile hok hv
    exact ⟨hu.step hok hfile hv, UInt64.le_trans hle (hu.current_le hok hfile hv)⟩
  · rintro ⟨r, hr, hnull⟩
    have hspent : t.Steady totalSize ∧ Spent totalSize s t := by
      refine ht.invariant_of_mem (P := fun u => u.Steady totalSize ∧ Spent totalSize s u)
        (forall_reopen hrest) ⟨hs, Spent.refl (hs.null r hr hnull)⟩ ?_
      rintro u e v ⟨hu, hspent⟩ hfile hok hv
      exact ⟨hu.step hok hfile hv, hspent.step hu hok hfile hv⟩
    exact hspent.2.results
  · intro b hb
    exact (hsteady.inRange b hb).above

/-- The events of a call of one thread on its own. -/
def oneCall (size : UInt64) : List (Event 1) :=
  [Event.allocate 0 size 8, Event.load 0, Event.compareAndSwap 0, Event.finish 0]

/-- The test of `NoWrap`. -/
def noWrap (totalSize : UInt64) (s : Heap n) : Event n → Bool
  | Event.compareAndSwap i => match s.calls i with
    | Call.loaded size offset => offset.toNat + size.toNat + 7 < 2 ^ 64 ||
        (totalSize < offset && 2 ^ 64 ≤ size.toNat + 7)
    | _ => true
  | _ => true

lemma noWrap_sound {e : Event n} (h : s.noWrap totalSize e = true) : NoWrap totalSize s e := by
  rintro i size offset rfl hc -
  simpa [noWrap, hc] using h

/-- A file of 1024 bytes is used up by a request of 2000; the next request, of 8 bytes, gets null.
The file is dropped and loaded, and a request of `2 ^ 64 - 1` gets null as well. -/
theorem cursor_steady_exhausted :
    ∃ s t : Heap 1, Reach step (NoWrap 1024) (start 1 "data" 1024) (oneCall 2000 ++ oneCall 8) s ∧
      Reach step (NoWrap 1024) s (Event.reopen :: oneCall 18446744073709551615) t ∧
      s.results = [⟨2000, some 24⟩, ⟨8, none⟩] ∧
      t.results = [⟨2000, some 24⟩, ⟨8, none⟩, ⟨18446744073709551615, none⟩] ∧
      s.file.header.current ≤ t.file.header.current := by
  obtain ⟨s, hs, t, ht, hresults, hresults'⟩ : ∃ s : Heap 1,
      execute step (noWrap 1024) (start 1 "data" 1024) (oneCall 2000 ++ oneCall 8) = some s ∧
      ∃ t : Heap 1, execute step (noWrap 1024) s (Event.reopen :: oneCall 18446744073709551615)
        = some t ∧
      s.results = [⟨2000, some 24⟩, ⟨8, none⟩] ∧
      t.results = [⟨2000, some 24⟩, ⟨8, none⟩, ⟨18446744073709551615, none⟩] :=
    ⟨_, rfl, _, rfl, by decide, by decide⟩
  have hlong : (17 : UInt64) ≤ 1024 := by decide
  have hrun : Reach step (NoWrap 1024) (start 1 "data" 1024) _ s :=
    reach_of_execute (fun _ _ => noWrap_sound) hs
  have hrest : Reach step (NoWrap 1024) s _ t := reach_of_execute (fun _ _ => noWrap_sound) ht
  exact ⟨s, t, hrun, hrest, hresults, hresults',
    ((cursor_steady 1 "data" 1024 (Or.inl hlong) hrun).1 _ t (Or.inl hlong) hrest).1⟩

/-- A file of 1024 bytes and requests of 2000, `2 ^ 64 - 2024` and 8 bytes: the second gets null and
moves the cursor from 2024 back to 0, and the third gets the first 8 bytes of the header. -/
theorem cursor_wraps : ∃ s t u : Heap 1,
    Reach step anyStep (start 1 "data" 1024) (oneCall 2000) s ∧
      Reach step anyStep s (oneCall 18446744073709549592) t ∧ Reach step anyStep t (oneCall 8) u ∧
      s.file.header.current = 2024 ∧ t.file.header.current = 0 ∧
      t.results = [⟨2000, some 24⟩, ⟨18446744073709549592, none⟩] ∧
      u.results = t.results ++ [⟨8, some 0⟩] ∧ u.blocks = [⟨24, 2000⟩, ⟨0, 8⟩] := by
  obtain ⟨s, hs, t, ht, u, hu, hrest⟩ : ∃ s : Heap 1,
      execute step (fun _ _ => true) (start 1 "data" 1024) (oneCall 2000) = some s ∧
      ∃ t : Heap 1, execute step (fun _ _ => true) s (oneCall 18446744073709549592) = some t ∧
      ∃ u : Heap 1, execute step (fun _ _ => true) t (oneCall 8) = some u ∧
      s.file.header.current = 2024 ∧ t.file.header.current = 0 ∧
      t.results = [⟨2000, some 24⟩, ⟨18446744073709549592, none⟩] ∧
      u.results = t.results ++ [⟨8, some 0⟩] ∧ u.blocks = [⟨24, 2000⟩, ⟨0, 8⟩] :=
    ⟨_, rfl, _, rfl, _, rfl, by decide, by decide, by decide, by decide, by decide⟩
  exact ⟨s, t, u, reach_of_execute (fun _ _ _ => trivial) hs,
    reach_of_execute (fun _ _ _ => trivial) ht, reach_of_execute (fun _ _ _ => trivial) hu, hrest⟩

end Heap

end Rx
