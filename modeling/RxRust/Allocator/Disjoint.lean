import Mathlib.Algebra.GroupWithZero.Nat
import RxRust.Allocator.MappedRegion

/-!
# Blocks do not overlap

The safety of the allocator under every interleaving of its threads, and across every drop and
`load` of the file.  The compare-and-swap serialises the requests: one that succeeds moves the
cursor from the offset it hands out to beyond the block, so a new block lies beyond every block
handed out before it, whoever has it and whether or not its call has come back.

* `Block`, `Block.Apart` — what a non-null pointer stands for.
* `Packed` — blocks that have been handed out, and blocks that threads still hold, lie between the
  header and the cursor and apart from one another; kept when a thread takes a block at the cursor
  and when it hands its block out.
* `Heap.Inv` — the invariant: where the cursor stands, and that all blocks handed out, returned or
  not, lie between the header and the cursor and apart from one another.
* **`blocks_apart`** — what holds in every run in which no cursor overflows, and in which a file
  that is dropped is long enough to hold the cursor.
-/

namespace Rx

open Core

/-- The bytes from `offset` up to `offset + size`. -/
structure Block where
  offset : ℕ
  size : ℕ
  deriving Repr, DecidableEq

/-- One block ends before the other starts. -/
def Block.Apart (a b : Block) : Prop := a.offset + a.size ≤ b.offset ∨ b.offset + b.size ≤ a.offset

/-- The block lies between the header and the cursor and starts at a multiple of 8. -/
structure Block.InRange (current : ℕ) (b : Block) : Prop where
  aligned : 8 ∣ b.offset
  above : 24 ≤ b.offset
  below : b.offset + b.size ≤ current

lemma Block.InRange.mono {current current' : ℕ} {b : Block} (h : b.InRange current)
    (hle : current ≤ current') : b.InRange current' :=
  ⟨h.aligned, h.above, Nat.le_trans h.below hle⟩

lemma Block.Apart.symm {a b : Block} (h : a.Apart b) : b.Apart a := Or.symm h

/-! ## Packed blocks -/

/-- The blocks of a list and those that threads hold lie between the header and the cursor and apart
from one another. -/
structure Packed {n : ℕ} (held : Fin n → Option Block) (blocks : List Block) (cursor : ℕ) :
    Prop where
  inRange : ∀ b ∈ blocks, b.InRange cursor
  apart : blocks.Pairwise Block.Apart
  heldRange : ∀ i b, held i = some b → b.InRange cursor
  heldBlocks : ∀ i b, held i = some b → ∀ c ∈ blocks, b.Apart c
  heldApart : ∀ i j b c, i ≠ j → held i = some b → held j = some c → b.Apart c

namespace Packed

variable {n : ℕ} {held held' : Fin n → Option Block} {blocks : List Block} {cursor cursor' : ℕ}

/-- Threads may let go of their blocks. -/
lemma drop (h : Packed held blocks cursor) (hheld : ∀ i b, held' i = some b → held i = some b) :
    Packed held' blocks cursor := by
  refine ⟨h.inRange, h.apart, ?_, ?_, ?_⟩
  · intro i b hb
    exact h.heldRange i b (hheld i b hb)
  · intro i b hb
    exact h.heldBlocks i b (hheld i b hb)
  · intro i j b c hij hb hc
    exact h.heldApart i j b c hij (hheld i b hb) (hheld j c hc)

/-- **Taking a block.**  The cursor moves from where the new block starts to beyond it, so the block
lies beyond everything that was there before. -/
lemma take (h : Packed held blocks cursor) (i : Fin n) (hle : cursor ≤ cursor')
    (hmine : ∀ b, held' i = some b → b.offset = cursor ∧ b.InRange cursor')
    (hothers : ∀ j b, j ≠ i → held' j = some b → held j = some b) :
    Packed held' blocks cursor' := by
  have hbefore : ∀ b c : Block, b.offset = cursor → c.InRange cursor → b.Apart c := by
    intro b c hb hc
    exact Or.inr (hb ▸ hc.below)
  refine ⟨?_, h.apart, ?_, ?_, ?_⟩
  · intro b hb
    exact (h.inRange b hb).mono hle
  · intro j b hb
    by_cases hij : j = i
    · subst hij
      exact (hmine b hb).2
    · exact (h.heldRange j b (hothers j b hij hb)).mono hle
  · intro j b hb c hc
    by_cases hij : j = i
    · subst hij
      exact hbefore b c (hmine b hb).1 (h.inRange c hc)
    · exact h.heldBlocks j b (hothers j b hij hb) c hc
  · intro j k b c hjk hb hc
    by_cases hij : j = i
    · subst hij
      exact hbefore b c (hmine b hb).1 (h.heldRange k c (hothers k c (Ne.symm hjk) hc))
    · by_cases hik : k = i
      · subst hik
        exact (hbefore c b (hmine c hc).1 (h.heldRange j b (hothers j b hij hb))).symm
      · exact h.heldApart j k b c hjk (hothers j b hij hb) (hothers k c hik hc)

/-- **Handing a block out.** -/
lemma hand (h : Packed held blocks cursor) {i : Fin n} {b : Block} (hb : held i = some b)
    (hothers : ∀ j c, held' j = some c → j ≠ i ∧ held j = some c) :
    Packed held' (blocks ++ [b]) cursor := by
  have hdrop : Packed held' blocks cursor := h.drop fun j c hc => (hothers j c hc).2
  refine ⟨?_, ?_, hdrop.heldRange, ?_, hdrop.heldApart⟩
  · intro c hc
    rcases List.mem_append.mp hc with hc | hc
    · exact h.inRange c hc
    · rw [List.mem_singleton.mp hc]
      exact h.heldRange i b hb
  · rw [List.pairwise_append]
    refine ⟨h.apart, List.pairwise_singleton _ _, ?_⟩
    intro c hc d hd
    rw [List.mem_singleton.mp hd]
    exact (h.heldBlocks i b hb c hc).symm
  · intro j d hd c hc
    rcases List.mem_append.mp hc with hc | hc
    · exact hdrop.heldBlocks j d hd c hc
    · -- another thread's block, not handed out yet
      rw [List.mem_singleton.mp hc]
      exact h.heldApart j i d b (hothers j d hd).1 (hothers j d hd).2 hb

end Packed

/-- The block of a call that came back with a pointer. -/
def Returned.block (r : Returned) : Option Block :=
  r.offset.map fun o => ⟨o.toNat, r.size.toNat⟩

namespace Heap

variable {n : ℕ} {s t : Heap n}

/-- Every block handed out by a call that has come back, since the file was made. -/
def blocks (s : Heap n) : List Block := (s.earlier ++ s.returned).filterMap Returned.block

/-- How many calls have come back with a pointer since the last `new` or `load`. -/
def nonNull (s : Heap n) : ℕ := (s.returned.filterMap Returned.block).length

/-- The block that a thread has won and not yet returned. -/
def inFlight (s : Heap n) (i : Fin n) : Option Block :=
  match s.calls i with
  | Call.won size offset => some ⟨offset.toNat, size.toNat⟩
  | _ => none

/-- The invariant of the allocator. -/
structure Inv (s : Heap n) : Prop where
  current : s.file.header.current.toNat = 24 + (s.won.map fun z => roundUp 8 z.toNat).sum
  loaded : ∀ i size offset, s.calls i = Call.loaded size offset →
    offset.toNat + size.toNat + 7 < 2 ^ 64
  inRange : ∀ b ∈ s.blocks, b.InRange s.file.header.current.toNat
  apart : s.blocks.Pairwise Block.Apart
  flightRange : ∀ i b, s.inFlight i = some b → b.InRange s.file.header.current.toNat
  flightBlocks : ∀ i b, s.inFlight i = some b → ∀ c ∈ s.blocks, b.Apart c
  flightApart : ∀ i j b c, i ≠ j → s.inFlight i = some b → s.inFlight j = some c → b.Apart c
  count : s.region.count = UInt64.ofNat s.nonNull

/-- No cursor that a thread loads overflows with the size it wants. -/
def NoOverflow (s : Heap n) (e : Event n) : Prop :=
  ∀ i size, e = Event.load i → s.calls i = Call.top size →
    s.file.header.current.toNat + size.toNat + 7 < 2 ^ 64

lemma inv_start (n : ℕ) (basepath : String) (totalSize : UInt64) :
    (start n basepath totalSize).Inv := by
  refine ⟨rfl, ?_, ?_, ?_, ?_, ?_, ?_, rfl⟩
  · intro i size offset h
    cases h
  · intro b hb
    cases hb
  · exact List.Pairwise.nil
  · intro i b h
    cases h
  · intro i b h
    cases h
  · intro i j b c _ h
    cases h

/-! ## Moving one thread -/

lemma calls_setCall (s : Heap n) (i : Fin n) (c : Call) : (s.setCall i c).calls i = c := by
  simp [setCall]

lemma calls_setCall_ne (s : Heap n) {i j : Fin n} (h : j ≠ i) (c : Call) :
    (s.setCall i c).calls j = s.calls j := by
  simp [setCall, h]

lemma calls_swapped (s : Heap n) (i : Fin n) (size offset : UInt64) :
    (s.swapped i size offset).calls i = Call.won size offset := calls_setCall s i _

lemma calls_swapped_ne (s : Heap n) {i j : Fin n} (h : j ≠ i) (size offset : UInt64) :
    (s.swapped i size offset).calls j = s.calls j := calls_setCall_ne s h _

/-- A thread that goes anywhere but past its compare-and-swap has no block in flight. -/
lemma inFlight_setCall {i j : Fin n} {c : Call} {b : Block} (hc : ∀ z o, c ≠ Call.won z o)
    (h : (s.setCall i c).inFlight j = some b) : s.inFlight j = some b := by
  by_cases hij : j = i
  · subst hij
    rw [inFlight, calls_setCall] at h
    cases c with
    | won z o => exact absurd rfl (hc z o)
    | _ => cases h
  · rw [inFlight, calls_setCall_ne s hij] at h
    exact h

lemma Inv.packed (hs : s.Inv) : Packed s.inFlight s.blocks s.file.header.current.toNat :=
  ⟨hs.inRange, hs.apart, hs.flightRange, hs.flightBlocks, hs.flightApart⟩

/-- Moving a thread that has no block, to where it has none, keeps the invariant, if a loaded cursor
does not overflow. -/
lemma Inv.setCall (hs : s.Inv) {i : Fin n} {c : Call} (hc : ∀ z o, c ≠ Call.won z o)
    (hload : ∀ z o, c = Call.loaded z o → o.toNat + z.toNat + 7 < 2 ^ 64) :
    (s.setCall i c).Inv := by
  have hp : Packed (s.setCall i c).inFlight s.blocks s.file.header.current.toNat :=
    hs.packed.drop fun j b h => inFlight_setCall hc h
  refine ⟨hs.current, ?_, hs.inRange, hs.apart, hp.heldRange, hp.heldBlocks, hp.heldApart, hs.count⟩
  intro j size offset h
  by_cases hij : j = i
  · subst hij
    rw [calls_setCall] at h
    exact hload size offset h
  · rw [calls_setCall_ne s hij] at h
    exact hs.loaded j size offset h

/-! ## A request succeeds -/

lemma Inv.dvd_current (hs : s.Inv) : 8 ∣ s.file.header.current.toNat := by
  rw [hs.current]
  refine Nat.dvd_add (by decide) ?_
  induction s.won with
  | nil => exact Nat.dvd_zero 8
  | cons z zs ih =>
      rw [List.map_cons, List.sum_cons]
      exact Nat.dvd_add (dvd_roundUp 8 z.toNat) ih

/-- **The compare-and-swap.**  The new block starts at the old cursor and ends before the new
one. -/
lemma Inv.swapped (hs : s.Inv) {i : Fin n} {size offset : UInt64}
    (hcall : s.calls i = Call.loaded size offset) (heq : s.file.header.current = offset) :
    (s.swapped i size offset).Inv := by
  have hlt := hs.loaded i size offset hcall
  have hoff : offset.toNat = 24 + (s.won.map fun z => roundUp 8 z.toNat).sum :=
    heq ▸ hs.current
  have hcur : (alignUp (offset + size)).toNat = offset.toNat + roundUp 8 size.toNat := by
    refine alignUp_add_toNat ?_ hlt (heq ▸ hs.dvd_current)
    omega
  have hsize : size.toNat ≤ roundUp 8 size.toNat := le_roundUp (by decide)
  have hle : s.file.header.current.toNat ≤ (alignUp (offset + size)).toNat := by
    rw [hcur, heq]
    omega
  have hp : Packed (s.swapped i size offset).inFlight s.blocks (alignUp (offset + size)).toNat := by
    refine hs.packed.take i hle ?_ ?_
    · intro b h
      rw [inFlight, calls_swapped] at h
      obtain rfl := Option.some.inj h
      refine ⟨by rw [heq], heq ▸ hs.dvd_current, ?_, ?_⟩
      · show 24 ≤ offset.toNat
        omega
      · show offset.toNat + size.toNat ≤ (alignUp (offset + size)).toNat
        omega
    · intro j b hij h
      rwa [inFlight, calls_swapped_ne s hij] at h
  refine ⟨?_, ?_, hp.inRange, hp.apart, hp.heldRange, hp.heldBlocks, hp.heldApart, hs.count⟩
  · show (alignUp (offset + size)).toNat
      = 24 + ((s.won ++ [size]).map fun z => roundUp 8 z.toNat).sum
    rw [hcur, List.map_append, List.sum_append, List.map_singleton, List.sum_singleton]
    omega
  · intro j z o h
    by_cases hij : j = i
    · subst hij
      rw [calls_swapped] at h
      cases h
    · rw [calls_swapped_ne s hij] at h
      exact hs.loaded j z o h

/-! ## A call comes back -/

lemma inFlight_of_won {i : Fin n} {size offset : UInt64} (h : s.calls i = Call.won size offset) :
    s.inFlight i = some ⟨offset.toNat, size.toNat⟩ := by
  rw [inFlight, h]

lemma Inv.idle (hs : s.Inv) (i : Fin n) : (s.setCall i Call.idle).Inv := by
  refine hs.setCall ?_ ?_
  · intro z o h
    cases h
  · intro z o h
    cases h

lemma blocks_returns (s : Heap n) (i : Fin n) (r : Returned) :
    (s.returns i r).blocks = s.blocks ++ r.block.toList := by
  cases hb : r.block <;> simp [blocks, returns, hb]

lemma nonNull_returns (s : Heap n) (i : Fin n) (r : Returned) :
    (s.returns i r).nonNull = s.nonNull + r.block.toList.length := by
  cases hb : r.block <;> simp [nonNull, returns, hb]

lemma blocks_returns_null (s : Heap n) (i : Fin n) (size : UInt64) :
    (s.returns i ⟨size, none⟩).blocks = s.blocks := by
  rw [blocks_returns]
  exact List.append_nil _

lemma blocks_reopened (s : Heap n) (region : MappedRegion) :
    (s.reopened region).blocks = s.blocks := by
  simp [blocks, reopened]

/-- A call that comes back with null leaves its block to nobody. -/
lemma Inv.returns_null (hs : s.Inv) (i : Fin n) (size : UInt64) :
    (s.returns i ⟨size, none⟩).Inv := by
  have hidle := hs.idle i
  have hblocks := blocks_returns_null s i size
  refine ⟨hidle.current, hidle.loaded, ?_, ?_, hidle.flightRange, ?_, hidle.flightApart, ?_⟩
  · rw [hblocks]
    exact hidle.inRange
  · rw [hblocks]
    exact hidle.apart
  · rw [hblocks]
    exact hidle.flightBlocks
  · rw [nonNull_returns]
    exact hidle.count

/-- A call that comes back with a pointer hands its block over to the caller. -/
lemma Inv.returns_block (hs : s.Inv) {i : Fin n} {size offset : UInt64}
    (hcall : s.calls i = Call.won size offset) :
    (s.fetchAdd.returns i ⟨size, some offset⟩).Inv := by
  have hidle := hs.idle i
  have hblocks : (s.fetchAdd.returns i ⟨size, some offset⟩).blocks
      = s.blocks ++ [⟨offset.toNat, size.toNat⟩] := blocks_returns s.fetchAdd i _
  have hp : Packed (s.setCall i Call.idle).inFlight (s.blocks ++ [⟨offset.toNat, size.toNat⟩])
      s.file.header.current.toNat := by
    refine hs.packed.hand (inFlight_of_won hcall) ?_
    intro j b h
    refine ⟨?_, inFlight_setCall (by intro z o h; cases h) h⟩
    rintro rfl
    rw [inFlight, calls_setCall] at h
    cases h
  refine ⟨hidle.current, hidle.loaded, ?_, ?_, hp.heldRange, ?_, hp.heldApart, ?_⟩
  · rw [hblocks]
    exact hp.inRange
  · rw [hblocks]
    exact hp.apart
  · rw [hblocks]
    exact hp.heldBlocks
  · show s.region.count + 1 = _
    rw [nonNull_returns, hs.count]
    simp [Returned.block, fetchAdd, nonNull]

lemma Inv.finished (hs : s.Inv) {i : Fin n} {size offset : UInt64}
    (hcall : s.calls i = Call.won size offset) : (s.finished i size offset).Inv := by
  rw [Heap.finished]
  split_ifs
  · exact hs.returns_null i size
  · exact hs.returns_block hcall

/-- The region is dropped and loaded again: a file of 16 bytes keeps the cursor, and the count starts
over. -/
lemma Inv.reopened (hs : s.Inv) {region : MappedRegion} (hsize : 16 ≤ s.file.stSize.toNat)
    (hload : MappedRegion.load s.file.dropped = Except.ok region) : (s.reopened region).Inv := by
  have hblocks := blocks_reopened s region
  have hcurrent : (s.reopened region).file.header.current = s.file.header.current :=
    DataFile.dropped_current hsize
  refine ⟨?_, hs.loaded, ?_, ?_, ?_, ?_, hs.flightApart, ?_⟩
  · rw [hcurrent]
    exact hs.current
  · rw [hblocks, hcurrent]
    exact hs.inRange
  · rw [hblocks]
    exact hs.apart
  · rw [hcurrent]
    exact hs.flightRange
  · rw [hblocks]
    exact hs.flightBlocks
  · obtain ⟨-, rfl⟩ := load_ok_iff.mp hload
    rfl

/-- **Every event keeps the invariant**, as long as no loaded cursor overflows and the file that is
dropped holds the cursor. -/
theorem Inv.step (hs : s.Inv) {e : Event n} (hok : s.NoOverflow e)
    (hfile : e = Event.reopen → 16 ≤ s.file.stSize.toNat) (h : s.step e = Outcome.ret t) :
    t.Inv := by
  rcases step_cases h with ⟨i, size, rfl, hc, rfl⟩ | ⟨i, size, rfl, hc, rfl⟩ |
    ⟨i, size, offset, rfl, hc, ⟨heq, rfl⟩ | ⟨-, rfl⟩⟩ | ⟨i, size, offset, rfl, hc, rfl⟩ |
    ⟨rfl, -, region, hload, rfl⟩
  · refine hs.setCall ?_ ?_
    · intro z o h
      cases h
    · intro z o h
      cases h
  · refine hs.setCall ?_ ?_
    · intro z o h
      cases h
    · intro z o h
      obtain ⟨rfl, rfl⟩ := Call.loaded.inj h
      exact hok i size rfl hc
  · exact hs.swapped hc heq
  · refine hs.setCall ?_ ?_
    · intro z o h
      cases h
    · intro z o h
      cases h
  · exact hs.finished hc
  · exact hs.reopened (hfile rfl) hload

/-- **Blocks do not overlap.**  In every run of any number of threads, with any sizes and any number
of drops and loads of a file that holds its cursor, which takes 16 bytes, in which no offset plus
size plus 7 reaches `2 ^ 64`: every pointer handed out is a multiple of 8 and lies beyond the header,
the blocks are apart from one another, the cursor is the header's size plus the rounded sizes of the
requests that succeeded, and the counter is the number of non-null results since the last `new` or
`load`, as a machine word. -/
theorem blocks_apart (basepath : String) (totalSize : UInt64) {es : List (Event n)}
    (hfile : 16 ≤ totalSize ∨ Event.reopen ∉ es)
    (h : Reach step NoOverflow (start n basepath totalSize) es s) :
    (∀ b ∈ s.blocks, 8 ∣ b.offset ∧ 24 ≤ b.offset) ∧ s.blocks.Pairwise Block.Apart ∧
      s.file.header.current.toNat = 24 + (s.won.map fun z => roundUp 8 z.toNat).sum ∧
      (s.Quiet → s.region.numAllocated = UInt64.ofNat s.nonNull ∧
        (s.nonNull < 2 ^ 64 → s.region.numAllocated.toNat = s.nonNull)) := by
  have hinv : s.Inv := by
    refine (h.invariant_of_mem (P := fun t => t.Inv ∧ t.file.stSize = totalSize)
      (forall_reopen hfile) ⟨inv_start n basepath totalSize, rfl⟩ ?_).1
    rintro t e u ⟨ht, hsize⟩ hlong hok hstep
    refine ⟨ht.step hok ?_ hstep, (stSize_step hstep).trans hsize⟩
    intro he
    rw [hsize]
    exact UInt64.le_iff_toNat_le.mp (hlong he)
  refine ⟨?_, hinv.apart, hinv.current, fun _ => ⟨hinv.count, fun hlt => ?_⟩⟩
  · intro b hb
    exact ⟨(hinv.inRange b hb).aligned, (hinv.inRange b hb).above⟩
  · rw [MappedRegion.numAllocated, hinv.count]
    exact UInt64.toNat_ofNat_of_lt' hlt

/-- The test of `NoOverflow`. -/
def noOverflow (s : Heap n) : Event n → Bool
  | Event.load i => match s.calls i with
    | Call.top size => s.file.header.current.toNat + size.toNat + 7 < 2 ^ 64
    | _ => true
  | _ => true

lemma noOverflow_sound {e : Event n} (h : s.noOverflow e = true) : s.NoOverflow e := by
  rintro i size rfl hc
  simpa [noOverflow, hc] using h

/-- Two threads race for the cursor; the second loses its first attempt, and comes back first.  The
file is dropped and loaded, and a third block goes beyond the two. -/
theorem blocks_apart_race :
    let es : List (Event 2) := [Event.allocate 0 5 8, Event.allocate 1 9 8, Event.load 0,
      Event.load 1, Event.compareAndSwap 0, Event.compareAndSwap 1, Event.load 1,
      Event.compareAndSwap 1, Event.finish 1, Event.finish 0, Event.reopen, Event.allocate 0 8 8,
      Event.load 0, Event.compareAndSwap 0, Event.finish 0]
    ∃ s, Reach step NoOverflow (start 2 "data" 1024) es s ∧
      s.blocks = [⟨32, 9⟩, ⟨24, 5⟩, ⟨48, 8⟩] ∧ s.region.numAllocated = 1 ∧
      s.blocks.Pairwise Block.Apart := by
  intro es
  obtain ⟨s, hexec, hblocks, hcount⟩ : ∃ s,
      execute step noOverflow (start 2 "data" 1024) es = some s ∧
      s.blocks = [⟨32, 9⟩, ⟨24, 5⟩, ⟨48, 8⟩] ∧ s.region.numAllocated = 1 :=
    ⟨_, rfl, by decide, by decide⟩
  have hrun : Reach step NoOverflow (start 2 "data" 1024) es s :=
    reach_of_execute (fun _ _ => noOverflow_sound) hexec
  exact ⟨s, hrun, hblocks, hcount, (blocks_apart "data" 1024 (Or.inl (by decide)) hrun).2.1⟩

/-! ### A counter that wraps -/

/-- One thread after `k` requests of size zero: the cursor has not moved. -/
def afterZeros (k : ℕ) : Heap 1 :=
  { start 1 "data" 1024 with
    region := ⟨1024, UInt64.ofNat k⟩
    won := List.replicate k 0
    returned := List.replicate k ⟨0, some 24⟩ }

lemma reach_afterZeros (k : ℕ) :
    ∃ es, Reach step NoOverflow (start 1 "data" 1024) es (afterZeros k) := by
  induction k with
  | zero => exact ⟨[], Reach.nil⟩
  | succ k ih =>
      obtain ⟨es, hes⟩ := ih
      have hround : execute step noOverflow (afterZeros k) [Event.allocate 0 0 8, Event.load 0,
          Event.compareAndSwap 0, Event.finish 0] = some (afterZeros (k + 1)) := by
        have hcomputed : execute step noOverflow (afterZeros k) [Event.allocate 0 0 8, Event.load 0,
            Event.compareAndSwap 0, Event.finish 0]
            = some (((((afterZeros k).setCall 0 (Call.top 0)).setCall 0 (Call.loaded 0 24)).swapped
                0 0 24).fetchAdd.returns 0 ⟨0, some 24⟩) := rfl
        rw [hcomputed]
        have hcursor : alignUp (24 + 0) = alignUp headerSize := rfl
        simp [setCall, swapped, fetchAdd, returns, afterZeros, start, List.replicate_succ',
          MappedRegion.new, ← hcursor]
      exact ⟨_, hes.append (reach_of_execute (fun _ _ => noOverflow_sound) hround)⟩

lemma numAllocated_afterZeros (k : ℕ) :
    (afterZeros k).region.numAllocated = UInt64.ofNat k := rfl

lemma nonNull_afterZeros (k : ℕ) : (afterZeros k).nonNull = k := by
  simp [nonNull, afterZeros, Returned.block]

/-- After `2 ^ 64` of them the counter stands at zero again. -/
lemma count_wraps :
    ¬ ∀ es (s : Heap 1), Reach step NoOverflow (start 1 "data" 1024) es s → s.Quiet →
      s.region.numAllocated.toNat = s.nonNull := by
  intro h
  obtain ⟨k, hk⟩ : ∃ k : ℕ, k = 2 ^ 64 := ⟨_, rfl⟩
  obtain ⟨es, hes⟩ := reach_afterZeros k
  have hcount := h es _ hes fun _ => rfl
  rw [numAllocated_afterZeros, nonNull_afterZeros, UInt64.toNat_ofNat', hk, Nat.mod_self] at hcount
  omega

/-- **What fails.**  The counter is a machine word; and a file of 8 bytes that has been dropped and
loaded has its cursor at zero, so that the next request gets the header. -/
theorem not_blocks_apart :
    (¬ ∀ es (s : Heap 1), Reach step NoOverflow (start 1 "data" 1024) es s → s.Quiet →
      s.region.numAllocated.toNat = s.nonNull) ∧
    ∃ s : Heap 1, Reach step NoOverflow (start 1 "data" 8)
        [Event.reopen, Event.allocate 0 8 8, Event.load 0, Event.compareAndSwap 0, Event.finish 0]
        s ∧
      s.blocks = [⟨0, 8⟩] ∧ s.file.header.current = 8 := by
  refine ⟨count_wraps, ?_⟩
  obtain ⟨s, hexec, hblocks, hcurrent⟩ : ∃ s : Heap 1, execute step noOverflow (start 1 "data" 8)
      [Event.reopen, Event.allocate 0 8 8, Event.load 0, Event.compareAndSwap 0, Event.finish 0]
        = some s ∧ s.blocks = [⟨0, 8⟩] ∧ s.file.header.current = 8 := ⟨_, rfl, by decide, by decide⟩
  exact ⟨s, reach_of_execute (fun _ _ => noOverflow_sound) hexec, hblocks, hcurrent⟩

end Heap

end Rx
