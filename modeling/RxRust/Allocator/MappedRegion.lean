import Mathlib.Logic.Function.Basic
import Mathlib.Tactic.SplitIfs
import RxRust.Core.RoundUp
import RxRust.Core.Runs

/-!
# The mmap allocator

`mmap_allocator.rs` on a 64-bit target.  The data file starts with an `MMapHeader`, whose `current`
is the cursor of a bump allocator; the header lives in the mapped file, so it outlives the
`MappedRegion` and is found again by `load`, as far as it lies in the file: `new` takes any size, and
a file can be shorter than its header.  A pointer handed out is its offset from `addr`, and `none` is
the null pointer.  Machine words are 64-bit and wrap.

`allocate` is taken apart at its atomic operations, so that the calls of any number of threads can
be interleaved at each of them.

* `MappedRegion.new`, `MappedRegion.load` — making the file, and finding it again.
* `DataFile.dropped` — what a file still holds once nothing maps it; `dropped_eq` says that a file of
  17 bytes or more that names its own size loses nothing.
* `Call` — where a thread stands inside `allocate`.
* `Heap`, `Heap.step` — the file, the region, the threads, and one atomic operation of one of them.
  `won`, `earlier` and `returned` record what happened and are read by no code.
* `alignUp_add_toNat` — what the cursor becomes, as long as nothing overflows.
-/

namespace Rx

open Core

/-! ## The file and the region -/

/-- `*ALIGN` -/
def ALIGN : UInt64 := 8

/-- `*MAGIC` -/
def MAGIC : UInt64 := 0x42424242

/-- `mem::size_of::<MMapHeader>()` -/
def headerSize : UInt64 := 24

@[ext]
structure MMapHeader where
  magic : UInt64
  current : UInt64
  totalSize : UInt64
  deriving Repr, DecidableEq

/-- The data file: its name, its size, and the header in its first bytes. -/
@[ext]
structure DataFile where
  path : String
  stSize : UInt64
  header : MMapHeader
  deriving Repr, DecidableEq

/-- The parts of a `MappedRegion` that are its own; `addr`, `fd` and `header` lead to the file. -/
structure MappedRegion where
  totalSize : UInt64
  count : UInt64
  deriving Repr, DecidableEq

/-! ### What is left of the header

A mapping reaches to the end of its last page.  The bytes past the end of the file can be written to
like the others; they do not go into the file, and read as zero in the next mapping. -/

/-- The lowest `k` bytes of a word. -/
def lowBytes (k : ℕ) (w : UInt64) : UInt64 := UInt64.ofNat (w.toNat % 256 ^ min k 8)

/-- The header as its first `len` bytes give it: the fields lie in the order of their declaration,
each with its lowest byte first. -/
def MMapHeader.cut (len : ℕ) (h : MMapHeader) : MMapHeader :=
  ⟨lowBytes len h.magic, lowBytes (len - 8) h.current, lowBytes (len - 16) h.totalSize⟩

/-- The file after the drop of its region: what lay past its end is gone. -/
def DataFile.dropped (file : DataFile) : DataFile :=
  { file with header := file.header.cut file.stSize.toNat }

lemma lowBytes_toNat_le (k : ℕ) (w : UInt64) : (lowBytes k w).toNat ≤ w.toNat := by
  have hle := Nat.mod_le w.toNat (256 ^ min k 8)
  rw [lowBytes, UInt64.toNat_ofNat_of_lt' (Nat.lt_of_le_of_lt hle w.toNat_lt)]
  exact hle

lemma lowBytes_eq {k : ℕ} {w : UInt64} (h : w.toNat < 256 ^ min k 8) : lowBytes k w = w := by
  rw [lowBytes, Nat.mod_eq_of_lt h, UInt64.ofNat_toNat]

lemma lowBytes_eq_of_le {k : ℕ} (h : 8 ≤ k) (w : UInt64) : lowBytes k w = w := by
  refine lowBytes_eq ?_
  rw [Nat.min_eq_right h]
  exact w.toNat_lt

namespace DataFile

variable {file : DataFile}

/-- A file of 8 bytes holds the magic number. -/
lemma dropped_magic (h : 8 ≤ file.stSize.toNat) :
    file.dropped.header.magic = file.header.magic := lowBytes_eq_of_le h _

/-- A file of 16 bytes holds the cursor. -/
lemma dropped_current (h : 16 ≤ file.stSize.toNat) :
    file.dropped.header.current = file.header.current := lowBytes_eq_of_le (by omega) _

/-- A file of 17 bytes or more holds its own size: one byte is enough for a size of less than 24. -/
lemma dropped_totalSize (h : 17 ≤ file.stSize.toNat)
    (hsize : file.header.totalSize = file.stSize) :
    file.dropped.header.totalSize = file.header.totalSize := by
  refine lowBytes_eq ?_
  rw [hsize]
  by_cases hlong : 8 ≤ file.stSize.toNat - 16
  · rw [Nat.min_eq_right hlong]
    exact file.stSize.toNat_lt
  · have hpow : 256 ^ 1 ≤ 256 ^ min (file.stSize.toNat - 16) 8 :=
      Nat.pow_le_pow_right (by decide) (by omega)
    omega

/-- **Nothing is lost** of a file of 17 bytes or more that names its own size. -/
lemma dropped_eq (h : 17 ≤ file.stSize.toNat) (hsize : file.header.totalSize = file.stSize) :
    file.dropped = file := by
  have hheader : file.dropped.header = file.header := by
    have hmagic : file.dropped.header.magic = file.header.magic := dropped_magic (by omega)
    have hcurrent : file.dropped.header.current = file.header.current := dropped_current (by omega)
    have htotal := dropped_totalSize h hsize
    exact MMapHeader.ext hmagic hcurrent htotal
  exact DataFile.ext rfl rfl hheader

end DataFile

/-- `((n - 1) | (*ALIGN - 1)) + 1` -/
def alignUp (n : UInt64) : UInt64 := ((n - 1) ||| (ALIGN - 1)) + 1

namespace MappedRegion

/-- `new`: every system call is taken to succeed, as each of them is unwrapped. -/
def new (basepath : String) (totalSize : UInt64) : DataFile × MappedRegion :=
  let offset := alignUp headerSize
  (⟨basepath, totalSize, ⟨MAGIC, offset, totalSize⟩⟩, ⟨totalSize, 0⟩)

/-- `load` -/
def load (file : DataFile) : Except String MappedRegion :=
  if file.header.magic ≠ MAGIC ∧ file.header.totalSize ≠ file.stSize then
    Except.error ("Failed to load data file, " ++ file.path.quote
      ++ ". Reported sizes do not match: file size: " ++ toString file.stSize
      ++ ", header size " ++ toString file.header.totalSize)
  else Except.ok ⟨file.header.totalSize, 0⟩

/-- `num_allocated` -/
def numAllocated (self : MappedRegion) : UInt64 := self.count

end MappedRegion

/-- The file is accepted if one of the two checks passes. -/
lemma load_ok_iff {file : DataFile} {region : MappedRegion} :
    MappedRegion.load file = Except.ok region ↔
      (file.header.magic = MAGIC ∨ file.header.totalSize = file.stSize) ∧
        region = ⟨file.header.totalSize, 0⟩ := by
  rw [MappedRegion.load]
  split_ifs with h
  · simp [h.1, h.2]
  · have haccepted : file.header.magic = MAGIC ∨ file.header.totalSize = file.stSize := by
      rw [not_and_or, not_not, not_not] at h
      exact h
    constructor
    · intro hok
      exact ⟨haccepted, (Except.ok.inj hok).symm⟩
    · rintro ⟨-, rfl⟩
      rfl

/-! ## Calls in flight -/

/-- A thread and `allocate`: not in it, at the top of the loop, between the load and the
compare-and-swap, or past the compare-and-swap that succeeded. -/
inductive Call where
  | idle
  | top (size : UInt64)
  | loaded (size offset : UInt64)
  | won (size offset : UInt64)
  deriving Repr, DecidableEq

/-- A call that has come back: the size asked for and the pointer. -/
structure Returned where
  size : UInt64
  offset : Option UInt64
  deriving Repr, DecidableEq

/-- The allocator and its `n` threads.  `won` are the sizes of the requests whose compare-and-swap
succeeded, `returned` the calls that came back since the last `new` or `load`, and `earlier` those
before it. -/
structure Heap (n : ℕ) where
  file : DataFile
  region : MappedRegion
  calls : Fin n → Call
  won : List UInt64
  earlier : List Returned
  returned : List Returned

namespace Heap

variable {n : ℕ}

/-- One atomic operation of one thread, or the drop of the region and its `load`. -/
inductive Event (n : ℕ) where
  | allocate (i : Fin n) (size align : UInt64)
  | load (i : Fin n)
  | compareAndSwap (i : Fin n)
  | finish (i : Fin n)
  | reopen
  deriving Repr, DecidableEq

/-- The region as `new` makes it. -/
def start (n : ℕ) (basepath : String) (totalSize : UInt64) : Heap n where
  file := (MappedRegion.new basepath totalSize).1
  region := (MappedRegion.new basepath totalSize).2
  calls := fun _ => Call.idle
  won := []
  earlier := []
  returned := []

/-- Thread `i` goes to `c`. -/
def setCall (s : Heap n) (i : Fin n) (c : Call) : Heap n :=
  { s with calls := Function.update s.calls i c }

/-- The compare-and-swap of thread `i` succeeds. -/
def swapped (s : Heap n) (i : Fin n) (size offset : UInt64) : Heap n :=
  { s.setCall i (Call.won size offset) with
    file := { s.file with
      header := { s.file.header with current := alignUp (offset + size) } }
    won := s.won ++ [size] }

/-- Thread `i` comes back. -/
def returns (s : Heap n) (i : Fin n) (r : Returned) : Heap n :=
  { s with
    calls := Function.update s.calls i Call.idle
    returned := s.returned ++ [r] }

/-- `count.fetch_add(1)` -/
def fetchAdd (s : Heap n) : Heap n :=
  { s with region := { s.region with count := s.region.count + 1 } }

/-- What is left of `allocate` after the loop: the check of the offset, the counter, the pointer. -/
def finished (s : Heap n) (i : Fin n) (size offset : UInt64) : Heap n :=
  if offset > s.region.totalSize then s.returns i ⟨size, none⟩
  else s.fetchAdd.returns i ⟨size, some offset⟩

/-- The region was dropped and `load` has found the file again. -/
def reopened (s : Heap n) (region : MappedRegion) : Heap n :=
  { s with
    file := s.file.dropped
    region := region
    earlier := s.earlier ++ s.returned
    returned := [] }

/-- No call is in flight. -/
def Quiet (s : Heap n) : Prop := ∀ i, s.calls i = Call.idle

instance (s : Heap n) : Decidable s.Quiet := inferInstanceAs (Decidable (∀ i, s.calls i = Call.idle))

/-- One event; an event that cannot happen now is `stuck`. -/
def step (s : Heap n) : Event n → Outcome (Heap n)
  | Event.allocate i size align =>
      match s.calls i with
      | Call.idle =>
          if align ≠ ALIGN then
            Outcome.panic ("User requested alignment of " ++ toString align
              ++ " but we only have " ++ toString ALIGN)
          else pure (s.setCall i (Call.top size))
      | _ => Outcome.stuck
  | Event.load i =>
      match s.calls i with
      | Call.top size => pure (s.setCall i (Call.loaded size s.file.header.current))
      | _ => Outcome.stuck
  | Event.compareAndSwap i =>
      match s.calls i with
      | Call.loaded size offset =>
          if s.file.header.current = offset then pure (s.swapped i size offset)
          else pure (s.setCall i (Call.top size))
      | _ => Outcome.stuck
  | Event.finish i =>
      match s.calls i with
      | Call.won size offset => pure (s.finished i size offset)
      | _ => Outcome.stuck
  | Event.reopen =>
      if s.Quiet then
        match MappedRegion.load s.file.dropped with
        | Except.ok region => pure (s.reopened region)
        | Except.error _ => Outcome.stuck
      else Outcome.stuck

/-! ## What one event does -/

/-- **The events.**  Everything a step can do, with what it finds. -/
theorem step_cases {s t : Heap n} {e : Event n} (h : s.step e = Outcome.ret t) :
    (∃ i size, e = Event.allocate i size ALIGN ∧ s.calls i = Call.idle ∧
      t = s.setCall i (Call.top size)) ∨
    (∃ i size, e = Event.load i ∧ s.calls i = Call.top size ∧
      t = s.setCall i (Call.loaded size s.file.header.current)) ∨
    (∃ i size offset, e = Event.compareAndSwap i ∧ s.calls i = Call.loaded size offset ∧
      ((s.file.header.current = offset ∧ t = s.swapped i size offset) ∨
        (s.file.header.current ≠ offset ∧ t = s.setCall i (Call.top size)))) ∨
    (∃ i size offset, e = Event.finish i ∧ s.calls i = Call.won size offset ∧
      t = s.finished i size offset) ∨
    (e = Event.reopen ∧ s.Quiet ∧ ∃ region, MappedRegion.load s.file.dropped = Except.ok region ∧
      t = s.reopened region) := by
  cases e with
  | allocate i size align =>
      cases hc : s.calls i with
      | idle =>
          simp only [step, hc] at h
          split_ifs at h with halign
          · obtain rfl := Outcome.ret.inj h
            exact Or.inl ⟨i, size, by rw [not_not.mp halign], hc, rfl⟩
      | _ => simp [step, hc] at h
  | load i =>
      cases hc : s.calls i with
      | top size =>
          simp only [step, hc] at h
          obtain rfl := Outcome.ret.inj h
          exact Or.inr (Or.inl ⟨i, size, rfl, hc, rfl⟩)
      | _ => simp [step, hc] at h
  | compareAndSwap i =>
      cases hc : s.calls i with
      | loaded size offset =>
          simp only [step, hc] at h
          refine Or.inr (Or.inr (Or.inl ⟨i, size, offset, rfl, hc, ?_⟩))
          split_ifs at h with heq
          · obtain rfl := Outcome.ret.inj h
            exact Or.inl ⟨heq, rfl⟩
          · obtain rfl := Outcome.ret.inj h
            exact Or.inr ⟨heq, rfl⟩
      | _ => simp [step, hc] at h
  | finish i =>
      cases hc : s.calls i with
      | won size offset =>
          simp only [step, hc] at h
          obtain rfl := Outcome.ret.inj h
          exact Or.inr (Or.inr (Or.inr (Or.inl ⟨i, size, offset, rfl, hc, rfl⟩)))
      | _ => simp [step, hc] at h
  | reopen =>
      simp only [step] at h
      split_ifs at h with hquiet
      cases hload : MappedRegion.load s.file.dropped with
      | ok region =>
          rw [hload] at h
          obtain rfl := Outcome.ret.inj h
          exact Or.inr (Or.inr (Or.inr (Or.inr ⟨rfl, hquiet, region, rfl, rfl⟩)))
      | error e =>
          rw [hload] at h
          cases h

/-- A run whose file is long enough, or never dropped: a drop finds the file long enough. -/
lemma forall_reopen {p : Prop} {es : List (Event n)} (h : p ∨ Event.reopen ∉ es) :
    ∀ e ∈ es, e = Event.reopen → p := by
  rintro e he rfl
  exact h.resolve_right fun hnot => hnot he

/-- No event changes the size of the file. -/
lemma stSize_step {s t : Heap n} {e : Event n} (h : s.step e = Outcome.ret t) :
    t.file.stSize = s.file.stSize := by
  rcases step_cases h with ⟨i, size, rfl, hc, rfl⟩ | ⟨i, size, rfl, hc, rfl⟩ |
    ⟨i, size, offset, rfl, hc, ⟨heq, rfl⟩ | ⟨-, rfl⟩⟩ | ⟨i, size, offset, rfl, hc, rfl⟩ |
    ⟨rfl, -, region, hload, rfl⟩
  · rfl
  · rfl
  · rfl
  · rfl
  · rw [finished]
    split_ifs
    · rfl
    · rfl
  · rfl

end Heap

/-! ## The cursor -/

/-- Rounding up on machine words, which wraps. -/
lemma alignUp_toNat_mod {m : UInt64} (hpos : 0 < m.toNat) :
    (alignUp m).toNat = roundUp 8 m.toNat % 2 ^ 64 := by
  have hsub : (m - 1).toNat = m.toNat - 1 := by
    rw [UInt64.toNat_sub_of_le]
    · rfl
    · rw [UInt64.le_iff_toNat_le]
      exact hpos
  have hor : ((m - 1) ||| (ALIGN - 1)).toNat = (m.toNat - 1 ||| (2 ^ 3 - 1)) := by
    rw [UInt64.toNat_or, hsub]
    rfl
  have htrick := or_pred_add_one 3 hpos
  have hone : (1 : UInt64).toNat = 1 := rfl
  rw [alignUp, UInt64.toNat_add, hor, hone, htrick]
  rfl

/-- Rounding up on machine words, when nothing overflows. -/
lemma alignUp_toNat {m : UInt64} (hpos : 0 < m.toNat) (hlt : m.toNat + 7 < 2 ^ 64) :
    (alignUp m).toNat = roundUp 8 m.toNat := by
  have hbound := roundUp_lt (a := 8) (x := m.toNat) (by decide)
  rw [alignUp_toNat_mod hpos, Nat.mod_eq_of_lt (by omega)]

/-- The cursor after a request: further on by the size rounded up to a multiple of 8. -/
theorem alignUp_add_toNat {offset size : UInt64} (hpos : 0 < offset.toNat)
    (hlt : offset.toNat + size.toNat + 7 < 2 ^ 64) (hdvd : 8 ∣ offset.toNat) :
    (alignUp (offset + size)).toNat = offset.toNat + roundUp 8 size.toNat := by
  have hadd : (offset + size).toNat = offset.toNat + size.toNat := by
    rw [UInt64.toNat_add, Nat.mod_eq_of_lt (by omega)]
  rw [alignUp_toNat (by omega) (by omega), hadd, roundUp_add (by decide) hdvd]

end Rx
