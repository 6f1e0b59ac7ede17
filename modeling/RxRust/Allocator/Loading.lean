import RxRust.Allocator.Bounds

/-!
# Files that `load` accepts

`load` refuses a file when its magic number is wrong *and* the size in its header is not the size of
the file; one of the two is enough to be accepted.  So it lets through a truncated or grown file of
its own and a foreign file that happens to name its size, and takes the size in the header for the
length of the mapping.  `new` in its turn makes a file of any size, also one that does not hold the
header.

* `intact_of_load_iff` — for which files `load` can be relied on.
* `Heap.Sized.leavesIntact`, `Heap.not_intact_of_short` — what `load` finds when a region has been
  dropped, whose file is long enough for the header or is not.
* **`load_intact_iff`** — for which files `load` can be relied on, and for which sizes it can be
  relied on to accept what was written by `new` and `allocate`.
-/

namespace Rx

open Core

/-- An accepted file is intact: it is marked as a region file, the size in its header is its size,
and the region goes by that size. -/
def Intact (file : DataFile) (region : MappedRegion) : Prop :=
  file.header.magic = MAGIC ∧ file.header.totalSize = file.stSize ∧ region.totalSize = file.stSize

lemma intact_of_load_iff (file : DataFile) :
    (∀ region, MappedRegion.load file = Except.ok region → Intact file region) ↔
      (file.header.magic = MAGIC ↔ file.header.totalSize = file.stSize) := by
  constructor
  · intro h
    constructor
    · intro hmagic
      exact (h _ (load_ok_iff.mpr ⟨Or.inl hmagic, rfl⟩)).2.1
    · intro hsize
      exact (h _ (load_ok_iff.mpr ⟨Or.inr hsize, rfl⟩)).1
  · intro hboth region hload
    obtain ⟨haccepted, rfl⟩ := load_ok_iff.mp hload
    have hmagic : file.header.magic = MAGIC := haccepted.elim id hboth.mpr
    exact ⟨hmagic, hboth.mp hmagic, hboth.mp hmagic⟩

namespace Heap

variable {n : ℕ} {s t : Heap n}

/-- The file that the region leaves when it is dropped is accepted and intact, and has the cursor
that the region had. -/
def LeavesIntact (s : Heap n) : Prop :=
  ∃ region, MappedRegion.load s.file.dropped = Except.ok region ∧ Intact s.file.dropped region ∧
    ∃ t, s.step Event.reopen = Outcome.ret t ∧ t.region = region ∧
      t.file.header.current = s.file.header.current

lemma Sized.leavesIntact {totalSize : UInt64} (hs : s.Sized totalSize) (hlong : 17 ≤ totalSize)
    (hquiet : s.Quiet) : s.LeavesIntact := by
  have hfile := hs.dropped hlong
  have hsize : s.file.header.totalSize = s.file.stSize := hs.header.trans hs.file.symm
  have hload : MappedRegion.load s.file.dropped = Except.ok ⟨s.file.header.totalSize, 0⟩ := by
    rw [hfile]
    exact load_ok_iff.mpr ⟨Or.inl hs.magic, rfl⟩
  refine ⟨_, hload, ?_, s.reopened ⟨s.file.header.totalSize, 0⟩, ?_, rfl, ?_⟩
  · rw [hfile]
    exact ⟨hs.magic, hsize, hsize⟩
  · simp [Heap.step, if_pos hquiet, hload]
  · exact congrArg (fun f => f.header.current) hfile

/-- A file of 16 bytes or less has no room for the size in its header. -/
lemma not_intact_of_short {basepath : String} {totalSize : UInt64} (hmapped : 0 < totalSize)
    (hshort : totalSize.toNat < 17) (region : MappedRegion) :
    ¬ Intact (start n basepath totalSize).file.dropped region := by
  rintro ⟨-, hsize, -⟩
  have hzero : lowBytes 0 totalSize = 0 := by
    rw [lowBytes, Nat.min_eq_left (by decide), pow_zero, Nat.mod_one]
    rfl
  have htotal : lowBytes (totalSize.toNat - 16) totalSize = totalSize := hsize
  rw [Nat.sub_eq_zero_of_le (by omega), hzero] at htotal
  rw [← htotal] at hmapped
  exact absurd hmapped (by decide)

end Heap

/-- **What `load` accepts.**  A file that `load` accepts is intact, whatever its size and its
header, exactly if the file is marked just when the size in its header is its size.  And the file of
a region made by `new` and used by any calls of any threads, dropped and loaded any number of times,
is accepted once more when the region is dropped, intact and with the cursor it had, exactly if `new`
was given 17 bytes at least: a shorter file does not hold the size in its header, and of no bytes at
all `new` makes no region, as `mmap` refuses them. -/
theorem load_intact_iff (file : DataFile) {totalSize : UInt64} (hmapped : 0 < totalSize) :
    ((∀ region, MappedRegion.load file = Except.ok region → Intact file region) ↔
      (file.header.magic = MAGIC ↔ file.header.totalSize = file.stSize)) ∧
    ((∀ n basepath es (s : Heap n),
      Reach Heap.step anyStep (Heap.start n basepath totalSize) es s → s.Quiet →
        s.LeavesIntact) ↔ 17 ≤ totalSize) := by
  refine ⟨intact_of_load_iff file, ?_, ?_⟩
  · intro h
    by_contra hshort
    obtain ⟨region, -, hintact, -⟩ := h 0 "" [] _ Reach.nil fun i => i.elim0
    refine Heap.not_intact_of_short hmapped ?_ region hintact
    rw [UInt64.le_iff_toNat_le] at hshort
    exact Nat.lt_of_not_le hshort
  · intro hlong n basepath es s h hquiet
    exact (Heap.sized_of_reach (Or.inl hlong) h).leavesIntact hlong hquiet

/-- A file of 1024 bytes with one block in it. -/
theorem load_intact_one_block :
    ∃ s : Heap 1, Reach Heap.step anyStep (Heap.start 1 "data" 1024)
        [Heap.Event.allocate 0 40 8, Heap.Event.load 0, Heap.Event.compareAndSwap 0,
          Heap.Event.finish 0] s ∧
      s.file.header.current = 64 ∧ s.LeavesIntact := by
  obtain ⟨s, hexec, hcursor, hquiet⟩ : ∃ s : Heap 1, execute Heap.step (fun _ _ => true)
      (Heap.start 1 "data" 1024) [Heap.Event.allocate 0 40 8, Heap.Event.load 0,
        Heap.Event.compareAndSwap 0, Heap.Event.finish 0] = some s ∧
      s.file.header.current = 64 ∧ s.Quiet := ⟨_, rfl, by decide, by decide⟩
  have hrun : Reach Heap.step anyStep (Heap.start 1 "data" 1024) _ s :=
    reach_of_execute (fun _ _ _ => trivial) hexec
  exact ⟨s, hrun, hcursor,
    (load_intact_iff s.file (by decide)).2.mpr (by decide) 1 "data" _ s hrun hquiet⟩

/-- A file of 1024 bytes that has been cut to 512: the region loaded from it goes by 1024. -/
theorem truncated_file_accepted :
    ¬ ∀ file region, MappedRegion.load file = Except.ok region →
      file.header.magic = MAGIC ∧ file.header.totalSize = file.stSize := by
  intro h
  have hsize := (h ⟨"data", 512, ⟨MAGIC, 24, 1024⟩⟩ _ rfl).2
  exact absurd hsize (by decide)

end Rx
