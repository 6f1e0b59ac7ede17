import RxRust.Allocator.Disjoint

/-!
# Blocks and the end of the mapping

`allocate` hands out null once its offset lies past the end of the file.  The check looks at the
offset alone: a request whose offset is not past the end gets a pointer, however large it is.  So a
block stays inside the mapping exactly when no request that succeeds straddles the end.

* `Heap.InBounds` — every block handed out lies inside the mapping.
* `Heap.RoomLeft` — the request whose turn it is finds room for its block, or the cursor past the
  end.
* **`inBounds_of_roomLeft`** — in a run whose requests all find room or the end, every block is
  inside the mapping; and a request that does neither gets a block that is not.
-/

namespace Rx

open Core

namespace Heap

variable {n : ℕ} {s t : Heap n}

/-- Every block handed out since the file was made ends before the mapping does. -/
def InBounds (totalSize : UInt64) (s : Heap n) : Prop :=
  ∀ b ∈ s.blocks, b.offset + b.size ≤ totalSize.toNat

/-- A request whose compare-and-swap is about to succeed finds the cursor past the end, or room for
its block. -/
def RoomLeft (totalSize : UInt64) (s : Heap n) (e : Event n) : Prop :=
  ∀ i size offset, e = Event.compareAndSwap i → s.calls i = Call.loaded size offset →
    s.file.header.current = offset →
      totalSize < offset ∨ offset.toNat + size.toNat ≤ totalSize.toNat

/-- The size given to `new` is the size of the file, the size in the header, and the size of every
region loaded later. -/
structure Sized (totalSize : UInt64) (s : Heap n) : Prop where
  magic : s.file.header.magic = MAGIC
  file : s.file.stSize = totalSize
  header : s.file.header.totalSize = totalSize
  region : s.region.totalSize = totalSize

/-- A file that is long enough to be dropped loses nothing. -/
lemma Sized.dropped {totalSize : UInt64} (hs : s.Sized totalSize) (h : 17 ≤ totalSize) :
    s.file.dropped = s.file := by
  refine DataFile.dropped_eq ?_ (hs.header.trans hs.file.symm)
  rw [hs.file]
  exact UInt64.le_iff_toNat_le.mp h

lemma Sized.step {totalSize : UInt64} (hs : s.Sized totalSize) {e : Event n}
    (hlong : e = Event.reopen → 17 ≤ totalSize) (h : s.step e = Outcome.ret t) :
    t.Sized totalSize := by
  rcases step_cases h with ⟨i, size, rfl, hc, rfl⟩ | ⟨i, size, rfl, hc, rfl⟩ |
    ⟨i, size, offset, rfl, hc, ⟨heq, rfl⟩ | ⟨-, rfl⟩⟩ | ⟨i, size, offset, rfl, hc, rfl⟩ |
    ⟨rfl, -, region, hload, rfl⟩
  · exact ⟨hs.magic, hs.file, hs.header, hs.region⟩
  · exact ⟨hs.magic, hs.file, hs.header, hs.region⟩
  · exact ⟨hs.magic, hs.file, hs.header, hs.region⟩
  · exact ⟨hs.magic, hs.file, hs.header, hs.region⟩
  · rw [finished]
    split_ifs
    · exact ⟨hs.magic, hs.file, hs.header, hs.region⟩
    · exact ⟨hs.magic, hs.file, hs.header, hs.region⟩
  · have hfile : (s.reopened region).file = s.file := hs.dropped (hlong rfl)
    obtain ⟨-, rfl⟩ := load_ok_iff.mp hload
    refine ⟨?_, hs.file, ?_, ?_⟩
    · rw [hfile]
      exact hs.magic
    · rw [hfile]
      exact hs.header
    · exact (congrArg (fun f => f.header.totalSize) hfile).trans hs.header

lemma sized_of_reach {basepath : String} {totalSize : UInt64} {ok : Heap n → Event n → Prop}
    {es : List (Event n)} (hlong : 17 ≤ totalSize ∨ Event.reopen ∉ es)
    (h : Reach step ok (start n basepath totalSize) es s) : s.Sized totalSize := by
  refine h.invariant_of_mem (forall_reopen hlong) ⟨rfl, rfl, rfl, rfl⟩ ?_
  intro t e u ht hfile _ hstep
  exact ht.step hfile hstep

/-- The requests that have succeeded, with the offsets they got: those that have come back are in
bounds, those that have not will be, or will come back with null.  A header that was cut names a
smaller size, and the check of the offset is only the stricter for it. -/
structure Bounded (totalSize : UInt64) (s : Heap n) : Prop where
  header : s.file.header.totalSize ≤ totalSize
  region : s.region.totalSize ≤ totalSize
  blocks : s.InBounds totalSize
  flight : ∀ i size offset, s.calls i = Call.won size offset →
    totalSize < offset ∨ offset.toNat + size.toNat ≤ totalSize.toNat

lemma Bounded.setCall {totalSize : UInt64} (hs : s.Bounded totalSize) {i : Fin n} {c : Call}
    (hc : ∀ z o, c = Call.won z o → totalSize < o ∨ o.toNat + z.toNat ≤ totalSize.toNat) :
    (s.setCall i c).Bounded totalSize := by
  refine ⟨hs.header, hs.region, hs.blocks, ?_⟩
  intro j size offset h
  by_cases hij : j = i
  · subst hij
    rw [calls_setCall] at h
    exact hc size offset h
  · rw [calls_setCall_ne s hij] at h
    exact hs.flight j size offset h

/-- **A call comes back in bounds**, if its block is. -/
lemma Bounded.finished {totalSize : UInt64} (hs : s.Bounded totalSize) {i : Fin n}
    {size offset : UInt64} (hcall : s.calls i = Call.won size offset) :
    (s.finished i size offset).Bounded totalSize := by
  have hidle : (s.setCall i Call.idle).Bounded totalSize := by
    refine hs.setCall ?_
    intro z o h
    cases h
  rw [Heap.finished]
  split_ifs with hpast
  · refine ⟨hs.header, hs.region, ?_, hidle.flight⟩
    intro b hb
    rw [blocks_returns_null] at hb
    exact hs.blocks b hb
  · refine ⟨hs.header, hs.region, ?_, hidle.flight⟩
    intro b hb
    rw [blocks_returns] at hb
    rcases List.mem_append.mp hb with hb | hb
    · exact hs.blocks b hb
    · obtain rfl : b = ⟨offset.toNat, size.toNat⟩ := by simpa [Returned.block] using hb
      rcases hs.flight i size offset hcall with h | h
      · exact absurd (UInt64.lt_of_le_of_lt hs.region h) hpast
      · exact h

lemma Bounded.step {totalSize : UInt64} (hs : s.Bounded totalSize) {e : Event n}
    (hok : RoomLeft totalSize s e) (h : s.step e = Outcome.ret t) : t.Bounded totalSize := by
  rcases step_cases h with ⟨i, size, rfl, hc, rfl⟩ | ⟨i, size, rfl, hc, rfl⟩ |
    ⟨i, size, offset, rfl, hc, ⟨heq, rfl⟩ | ⟨-, rfl⟩⟩ | ⟨i, size, offset, rfl, hc, rfl⟩ |
    ⟨rfl, -, region, hload, rfl⟩
  · refine hs.setCall ?_
    intro z o h
    cases h
  · refine hs.setCall ?_
    intro z o h
    cases h
  · have hwon : (s.setCall i (Call.won size offset)).Bounded totalSize := by
      refine hs.setCall ?_
      intro z o h
      obtain ⟨rfl, rfl⟩ := Call.won.inj h
      exact hok i size offset rfl hc heq
    exact ⟨hwon.header, hwon.region, hwon.blocks, hwon.flight⟩
  · refine hs.setCall ?_
    intro z o h
    cases h
  · exact hs.finished hc
  · have hcut : s.file.dropped.header.totalSize ≤ totalSize :=
      UInt64.le_trans (UInt64.le_iff_toNat_le.mpr (lowBytes_toNat_le _ _)) hs.header
    obtain ⟨-, rfl⟩ := load_ok_iff.mp hload
    refine ⟨hcut, hcut, ?_, hs.flight⟩
    rw [InBounds, blocks_reopened]
    exact hs.blocks

/-- A request that straddles the end gets its block nevertheless, as soon as its call comes back. -/
lemma not_inBounds_of_straddle {totalSize : UInt64} (hs : s.Sized totalSize) {e : Event n}
    (h : s.step e = Outcome.ret t) (hroom : ¬ RoomLeft totalSize s e) :
    ∃ i u, t.step (Event.finish i) = Outcome.ret u ∧ ¬ u.InBounds totalSize := by
  simp only [RoomLeft, not_forall, not_or] at hroom
  obtain ⟨i, size, offset, rfl, hc, heq, hpast, hend⟩ := hroom
  have ht : t = s.swapped i size offset := by
    simp only [step, hc, if_pos heq] at h
    exact (Outcome.ret.inj h).symm
  subst ht
  have hcall : (s.swapped i size offset).calls i = Call.won size offset := calls_setCall s i _
  refine ⟨i, (s.swapped i size offset).finished i size offset, by simp [step, hcall], ?_⟩
  intro hbounds
  have hregion : (s.swapped i size offset).region.totalSize = totalSize := hs.region
  rw [finished, hregion, if_neg hpast] at hbounds
  refine hend (hbounds ⟨offset.toNat, size.toNat⟩ ?_)
  rw [blocks_returns]
  simp [Returned.block]

/-- **The end of the mapping.**  In every run, of any number of threads with any sizes and any
number of drops and loads of the file, in which each request that succeeds finds the cursor past the
end or room for its block, every block handed out lies inside the mapping.  The condition is exact:
whenever a request that does neither succeeds, its call comes back with a block that is not
inside; a file that is dropped must have 17 bytes at least for that, as the region loaded from a
shorter one goes by a smaller size. -/
theorem inBounds_of_roomLeft (n : ℕ) (basepath : String) (totalSize : UInt64) :
    (∀ es s, Reach step (RoomLeft totalSize) (start n basepath totalSize) es s →
      s.InBounds totalSize) ∧
    ∀ es s e t, (17 ≤ totalSize ∨ Event.reopen ∉ es) →
      Reach step anyStep (start n basepath totalSize) es s → s.step e = Outcome.ret t →
      ¬ RoomLeft totalSize s e →
        ∃ i u, t.step (Event.finish i) = Outcome.ret u ∧ ¬ u.InBounds totalSize := by
  refine ⟨?_, ?_⟩
  · intro es s h
    have hbounded : s.Bounded totalSize := by
      refine h.invariant ⟨UInt64.le_refl _, UInt64.le_refl _, ?_, ?_⟩ ?_
      · intro b hb
        cases hb
      · intro i size offset hc
        cases hc
      · intro t e u ht hok hstep
        exact ht.step hok hstep
    exact hbounded.blocks
  · intro es s e t hlong h hstep hroom
    exact not_inBounds_of_straddle (sized_of_reach hlong h) hstep hroom

/-- A file of 1024 bytes and one request of 1008: the block starts at 24 and ends at 1032. -/
theorem straddling_block :
    ¬ ∀ es (s : Heap 1), Reach step anyStep (start 1 "data" 1024) es s → s.InBounds 1024 := by
  intro h
  obtain ⟨s, hexec, hblocks⟩ : ∃ s : Heap 1, execute step (fun _ _ => true) (start 1 "data" 1024)
      [Event.allocate 0 1008 8, Event.load 0, Event.compareAndSwap 0, Event.finish 0] = some s ∧
      s.blocks = [⟨24, 1008⟩] := ⟨_, rfl, by decide⟩
  have hbounds := h _ s (reach_of_execute (fun _ _ _ => trivial) hexec) ⟨24, 1008⟩
    (by rw [hblocks]; exact List.mem_singleton.mpr rfl)
  exact absurd hbounds (by decide)

/-- The test of `RoomLeft`. -/
def roomLeft (totalSize : UInt64) (s : Heap n) : Event n → Bool
  | Event.compareAndSwap i => match s.calls i with
    | Call.loaded size offset =>
        totalSize < offset || offset.toNat + size.toNat ≤ totalSize.toNat
    | _ => true
  | _ => true

lemma roomLeft_sound {totalSize : UInt64} {e : Event n} (h : s.roomLeft totalSize e = true) :
    RoomLeft totalSize s e := by
  rintro i size offset rfl hc -
  simpa [roomLeft, hc] using h

/-- One request of 1000 bytes fills the file, and the next finds the cursor at its very end: of size
zero, it still gets a pointer. -/
theorem inBounds_full_file :
    ∃ es, ∃ s : Heap 1, Reach step (RoomLeft 1024) (start 1 "data" 1024) es s ∧
      s.blocks = [⟨24, 1000⟩, ⟨1024, 0⟩] ∧ s.InBounds 1024 := by
  obtain ⟨s, hexec, hblocks⟩ : ∃ s : Heap 1, execute step (roomLeft 1024) (start 1 "data" 1024)
      [Event.allocate 0 1000 8, Event.load 0, Event.compareAndSwap 0, Event.finish 0,
        Event.allocate 0 0 8, Event.load 0, Event.compareAndSwap 0, Event.finish 0] = some s ∧
      s.blocks = [⟨24, 1000⟩, ⟨1024, 0⟩] := ⟨_, rfl, by decide⟩
  have hrun : Reach step (RoomLeft 1024) (start 1 "data" 1024) _ s :=
    reach_of_execute (fun _ _ => roomLeft_sound) hexec
  exact ⟨_, s, hrun, hblocks, (inBounds_of_roomLeft 1 "data" 1024).1 _ s hrun⟩

end Heap

end Rx
