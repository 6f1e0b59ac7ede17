import Mathlib.Data.List.DropRight
import Mathlib.Data.List.GetD
import RxRust.Core.Words
import RxRust.Allocator.Disjoint

/-!
# The mapped file, byte by byte

`Heap` keeps the header as a record of its own.  In the program it is the first bytes of the mapped
file, and the blocks are the bytes after it: the code reads and moves the cursor in the memory that
the callers write to through the pointers they got.  Here the file is only bytes, and the callers do
write to it.

* `Layout` — how the fields of the header lie in its 24 bytes; this is the compiler's business, and
  all that is used is that what is written is read back.  `Layout.declared` is the order of the
  declaration, lowest byte first.
* `Image`, `Image.step` — the bytes and the threads; the operations of `allocate` find the header in
  the bytes, and `poke` writes a byte of a block that was handed out.  A mapping ends with its last
  page: a block that straddles the end of the file can be written to there, and what is written past
  the end is lost when the file is dropped.
* `Image.view` — the `Heap` that an image shows.
* `Image.Intact` — what the bytes are: nothing but the pokes touches what lies beyond the header.
* **`peek_eq_last_poke`** — on a file that holds its header the callers cannot harm the allocator,
  nor one another: every run leaves a run of `Heap`, and a byte of a block is what was last written
  to that place of that block, if it lies in the file in whichever session, and past the end of the
  file since it was last dropped.
-/

namespace Rx

open Core

/-! ## The header in memory -/

/-- How the header lies in its bytes. -/
structure Layout where
  write : MMapHeader → ℕ → UInt8
  read : (ℕ → UInt8) → MMapHeader
  read_write : ∀ h bytes, (∀ p < 24, bytes p = write h p) → read bytes = h
  write_read : ∀ bytes, ∀ p < 24, write (read bytes) p = bytes p

namespace Layout

/-- The header is read from its own bytes only. -/
lemma read_congr (L : Layout) {f g : ℕ → UInt8} (h : ∀ p < 24, f p = g p) : L.read f = L.read g := by
  refine L.read_write (L.read g) f ?_
  intro p hp
  rw [L.write_read g p hp, h p hp]

/-- The word at an address, lowest byte first. -/
def wordAt (bytes : ℕ → UInt8) (p : ℕ) : UInt64 :=
  UInt64.ofNat (ofBytes ((List.range 8).map fun i => bytes (p + i)))

lemma toBytes_wordAt (bytes : ℕ → UInt8) (p : ℕ) :
    toBytes 8 (wordAt bytes p).toNat = (List.range 8).map fun i => bytes (p + i) := by
  have hlt := ofBytes_lt ((List.range 8).map fun i => bytes (p + i))
  have hlen : ((List.range 8).map fun i => bytes (p + i)).length = 8 := by simp
  rw [hlen] at hlt
  rw [wordAt, UInt64.toNat_ofNat_of_lt' hlt]
  exact (congrArg (fun n => toBytes n _) hlen).symm.trans (toBytes_ofBytes _)

lemma wordAt_of_eq {bytes : ℕ → UInt8} {p : ℕ} {w : UInt64}
    (h : ∀ i < 8, bytes (p + i) = (toBytes 8 w.toNat).getD i 0) : wordAt bytes p = w := by
  have hbytes : ((List.range 8).map fun i => bytes (p + i)) = toBytes 8 w.toNat := by
    refine List.ext_getElem (by simp) fun i hi hi' => ?_
    have hlt : i < 8 := by simpa using hi
    rw [List.getElem_map, List.getElem_range, h i hlt, List.getD_eq_getElem _ _ hi']
  have hfit : w.toNat < 256 ^ 8 := w.toNat_lt
  rw [wordAt, hbytes, ofBytes_toBytes hfit, UInt64.ofNat_toNat]

/-- The fields one after the other, lowest byte first. -/
def declared : Layout where
  write h p :=
    if p < 8 then (toBytes 8 h.magic.toNat).getD p 0
    else if p < 16 then (toBytes 8 h.current.toNat).getD (p - 8) 0
    else (toBytes 8 h.totalSize.toNat).getD (p - 16) 0
  read bytes := ⟨wordAt bytes 0, wordAt bytes 8, wordAt bytes 16⟩
  read_write := by
    intro h bytes hbytes
    have hmagic : wordAt bytes 0 = h.magic := by
      refine wordAt_of_eq fun i hi => ?_
      rw [hbytes (0 + i) (by omega), if_pos (by omega), Nat.zero_add]
    have hcurrent : wordAt bytes 8 = h.current := by
      refine wordAt_of_eq fun i hi => ?_
      rw [hbytes (8 + i) (by omega), if_neg (by omega), if_pos (by omega), Nat.add_sub_cancel_left]
    have htotal : wordAt bytes 16 = h.totalSize := by
      refine wordAt_of_eq fun i hi => ?_
      rw [hbytes (16 + i) (by omega), if_neg (by omega), if_neg (by omega),
        Nat.add_sub_cancel_left]
    rw [hmagic, hcurrent, htotal]
  write_read := by
    intro bytes p hp
    simp only [toBytes_wordAt]
    split_ifs with h₁ h₂
    · rw [List.getD_eq_getElem _ _ (by simpa using h₁), List.getElem_map, List.getElem_range,
        Nat.zero_add]
    · rw [List.getD_eq_getElem _ _ (by simp; omega), List.getElem_map, List.getElem_range,
        Nat.add_sub_cancel' (by omega)]
    · rw [List.getD_eq_getElem _ _ (by simp; omega), List.getElem_map, List.getElem_range,
        Nat.add_sub_cancel' (by omega)]

end Layout

/-! ## The image -/

/-- The mapped file and the threads; what is not in the file is as in `Heap`. -/
structure Image (n : ℕ) where
  path : String
  stSize : UInt64
  bytes : ℕ → UInt8
  region : MappedRegion
  calls : Fin n → Call
  won : List UInt64
  earlier : List Returned
  returned : List Returned

namespace Image

variable {n : ℕ} {L : Layout} {m m' : Image n}

/-- An operation of the allocator, or a write of one byte through a pointer: to the place `pos` of
the `k`-th block that was handed out. -/
inductive Event (n : ℕ) where
  | allocator (e : Heap.Event n)
  | poke (k pos : ℕ) (v : UInt8)
  deriving Repr, DecidableEq

/-- What the allocator finds: the header is in the first bytes. -/
def view (L : Layout) (m : Image n) : Heap n where
  file := ⟨m.path, m.stSize, L.read m.bytes⟩
  region := m.region
  calls := m.calls
  won := m.won
  earlier := m.earlier
  returned := m.returned

/-- The header goes into the first bytes, and the others stay. -/
def store (L : Layout) (bytes : ℕ → UInt8) (s : Heap n) : Image n where
  path := s.file.path
  stSize := s.file.stSize
  bytes := fun p => if p < 24 then L.write s.file.header p else bytes p
  region := s.region
  calls := s.calls
  won := s.won
  earlier := s.earlier
  returned := s.returned

/-- What a file of `len` bytes holds; past its end a mapping reads zero. -/
def inFile (len : UInt64) (bytes : ℕ → UInt8) (p : ℕ) : UInt8 :=
  if p < len.toNat then bytes p else 0

/-- `new`, on a file that may hold anything. -/
def start (L : Layout) (n : ℕ) (basepath : String) (totalSize : UInt64) (contents : ℕ → UInt8) :
    Image n :=
  store L (inFile totalSize contents) (Heap.start n basepath totalSize)

/-- The byte at `p` becomes `v`. -/
def setByte (m : Image n) (p : ℕ) (v : UInt8) : Image n :=
  { m with bytes := Function.update m.bytes p v }

/-- The drop comes first: of the bytes it leaves those in the file. -/
def unmapped (m : Image n) : Heap.Event n → Image n
  | Heap.Event.reopen => { m with bytes := inFile m.stSize m.bytes }
  | _ => m

/-- One event.  A write to a place that is not in the block, or beyond the last page of the file, is
no step. -/
def step (L : Layout) (page : ℕ) (m : Image n) : Event n → Outcome (Image n)
  | Event.allocator e => do
      let s ← ((m.unmapped e).view L).step e
      pure (store L (m.unmapped e).bytes s)
  | Event.poke k pos v =>
      match (m.view L).blocks[k]? with
      | some b =>
          if pos < b.size ∧ b.offset + pos < roundUp page m.stSize.toNat then
            pure (m.setByte (b.offset + pos) v)
          else Outcome.stuck
      | none => Outcome.stuck

/-- No cursor that a thread loads overflows with the size it wants. -/
def NoOverflow (L : Layout) (m : Image n) (e : Event n) : Prop :=
  ∀ f, e = Event.allocator f → (m.view L).NoOverflow f

/-- The operations of the allocator among the events. -/
def Event.allocator? : Event n → Option (Heap.Event n)
  | Event.allocator e => some e
  | Event.poke _ _ _ => none

/-- What an event writes to a place of a block. -/
def Event.pokes (k pos : ℕ) : Event n → Option UInt8
  | Event.poke k' pos' v => if k' = k ∧ pos' = pos then some v else none
  | Event.allocator _ => none

/-- What was written last to a place of a block. -/
def lastPoke (k pos : ℕ) (es : List (Event n)) : Option UInt8 :=
  (es.filterMap (Event.pokes k pos)).getLast?

/-- The file is dropped and loaded. -/
def Event.isReopen : Event n → Bool
  | Event.allocator Heap.Event.reopen => true
  | _ => false

/-- The events that an address remembers: all of them if it lies in the file, and otherwise those
since the file was last dropped. -/
def remembered (len : UInt64) (p : ℕ) (es : List (Event n)) : List (Event n) :=
  if p < len.toNat then es else es.rtakeWhile fun e => !e.isReopen

/-! ## What one event does -/

lemma view_store (L : Layout) (bytes : ℕ → UInt8) (s : Heap n) : (store L bytes s).view L = s := by
  have hheader : L.read (store L bytes s).bytes = s.file.header := by
    refine L.read_write _ _ fun p hp => ?_
    simp [store, hp]
  simp only [view, hheader]
  rfl

/-- A write beyond the header is not noticed by the allocator. -/
lemma view_setByte (L : Layout) (m : Image n) {p : ℕ} (hp : 24 ≤ p) (v : UInt8) :
    (m.setByte p v).view L = m.view L := by
  have hread : L.read (Function.update m.bytes p v) = L.read m.bytes := by
    refine L.read_congr fun q hq => ?_
    rw [Function.update_of_ne (by omega)]
  simp only [view, setByte, hread]

lemma setByte_bytes (m : Image n) (p : ℕ) (v : UInt8) : (m.setByte p v).bytes p = v := by
  simp [setByte]

lemma setByte_bytes_ne (m : Image n) {p q : ℕ} (h : q ≠ p) (v : UInt8) :
    (m.setByte p v).bytes q = m.bytes q := by
  simp [setByte, h]

/-- Everything a step can do, with what it finds. -/
lemma step_cases {page : ℕ} {e : Event n} (h : m.step L page e = Outcome.ret m') :
    (∃ f s, e = Event.allocator f ∧ ((m.unmapped f).view L).step f = Outcome.ret s ∧
      m' = store L (m.unmapped f).bytes s) ∨
    (∃ k pos v b, e = Event.poke k pos v ∧ (m.view L).blocks[k]? = some b ∧ pos < b.size ∧
      m' = m.setByte (b.offset + pos) v) := by
  cases e with
  | allocator f =>
      obtain ⟨s, hs, hm⟩ := Outcome.bind_eq_ret.mp h
      exact Or.inl ⟨f, s, rfl, hs, (Outcome.ret.inj hm).symm⟩
  | poke k pos v =>
      cases hb : (m.view L).blocks[k]? with
      | none => simp [step, hb] at h
      | some b =>
          simp only [step, hb] at h
          obtain ⟨hpos, hm⟩ := Outcome.guard_eq_ret.mp h
          exact Or.inr ⟨k, pos, v, b, rfl, hb, hpos.1, (Outcome.ret.inj hm).symm⟩

lemma unmapped_of_ne {f : Heap.Event n} (h : f ≠ Heap.Event.reopen) (m : Image n) :
    m.unmapped f = m := by
  cases f with
  | reopen => exact absurd rfl h
  | _ => rfl

lemma bytes_unmapped_of_lt (m : Image n) (f : Heap.Event n) {p : ℕ} (hp : p < m.stSize.toNat) :
    (m.unmapped f).bytes p = m.bytes p := by
  cases f with
  | reopen => simp [unmapped, inFile, hp]
  | _ => rfl

/-- A file that holds the header is found as it was left. -/
lemma view_unmapped (L : Layout) (m : Image n) (f : Heap.Event n) (hlong : 24 ≤ m.stSize.toNat) :
    (m.unmapped f).view L = m.view L := by
  have hread : L.read (m.unmapped f).bytes = L.read m.bytes := by
    refine L.read_congr fun p hp => ?_
    exact bytes_unmapped_of_lt m f (Nat.lt_of_lt_of_le hp hlong)
  cases f with
  | reopen =>
      simp only [view, hread]
      rfl
  | _ => rfl

/-! ## What the bytes are -/

lemma lastPoke_snoc_allocator (k pos : ℕ) (es : List (Event n)) (f : Heap.Event n) :
    lastPoke k pos (es ++ [Event.allocator f]) = lastPoke k pos es := by
  simp [lastPoke, Event.pokes]

lemma lastPoke_snoc_poke_ne {k pos k' pos' : ℕ} (h : ¬ (k' = k ∧ pos' = pos)) (es : List (Event n))
    (v : UInt8) : lastPoke k pos (es ++ [Event.poke k' pos' v]) = lastPoke k pos es := by
  simp [lastPoke, Event.pokes, h]

lemma lastPoke_snoc_poke (k pos : ℕ) (es : List (Event n)) (v : UInt8) :
    lastPoke k pos (es ++ [Event.poke k pos v]) = some v := by
  simp [lastPoke, Event.pokes]

lemma lastPoke_nil (k pos : ℕ) : lastPoke k pos ([] : List (Event n)) = none := rfl

/-- An event is remembered where it happened, unless it is the drop and the address is past the
end. -/
lemma remembered_snoc {len : UInt64} {p : ℕ} {e : Event n}
    (h : p < len.toNat ∨ e.isReopen = false) (es : List (Event n)) :
    remembered len p (es ++ [e]) = remembered len p es ++ [e] := by
  unfold remembered
  split_ifs with hp
  · rfl
  · rw [List.rtakeWhile_concat_pos]
    simpa [hp] using h

/-- The drop makes the bytes past the end forget. -/
lemma remembered_snoc_reopen {len : UInt64} {p : ℕ} (hp : ¬ p < len.toNat) (es : List (Event n)) :
    remembered len p (es ++ [Event.allocator Heap.Event.reopen]) = [] := by
  rw [remembered, if_neg hp, List.rtakeWhile_concat_neg]
  simp [Event.isReopen]

lemma lastPoke_remembered_eq_none {k pos : ℕ} {es : List (Event n)} (h : lastPoke k pos es = none)
    (len : UInt64) (p : ℕ) : lastPoke k pos (remembered len p es) = none := by
  simp only [lastPoke, List.getLast?_eq_none_iff, List.filterMap_eq_nil_iff] at h ⊢
  intro e he
  refine h e ?_
  unfold remembered at he
  split_ifs at he
  · exact he
  · exact List.IsSuffix.subset (List.rtakeWhile_suffix _ _) he

/-- The address lies in none of the blocks. -/
def Outside (blocks : List Block) (p : ℕ) : Prop :=
  ∀ b ∈ blocks, p < b.offset ∨ b.offset + b.size ≤ p

/-- The allocator is in order; the bytes that nobody has are those the file came with; and a byte of
a block is what was last written to it, as far as it remembers. -/
structure Intact (L : Layout) (totalSize : UInt64) (contents : ℕ → UInt8) (es : List (Event n))
    (m : Image n) : Prop where
  inv : (m.view L).Inv
  size : m.stSize = totalSize
  fresh : ∀ p, 24 ≤ p → Outside (m.view L).blocks p → m.bytes p = inFile totalSize contents p
  unpoked : ∀ k pos, (m.view L).blocks.length ≤ k → lastPoke k pos es = none
  held : ∀ k pos b, (m.view L).blocks[k]? = some b → pos < b.size →
    m.bytes (b.offset + pos) = (lastPoke k pos (remembered totalSize (b.offset + pos) es)).getD
      (inFile totalSize contents (b.offset + pos))

lemma intact_start (L : Layout) (n : ℕ) (basepath : String) (totalSize : UInt64)
    (contents : ℕ → UInt8) :
    (start L n basepath totalSize contents).Intact L totalSize contents [] := by
  have hview : (start L n basepath totalSize contents).view L = Heap.start n basepath totalSize :=
    view_store L _ _
  refine ⟨?_, rfl, ?_, ?_, ?_⟩
  · rw [hview]
    exact Heap.inv_start n basepath totalSize
  · intro p hp _
    simp [start, store, Nat.not_lt.mpr hp]
  · intro k pos _
    rfl
  · intro k pos b hb
    rw [hview] at hb
    simp [Heap.blocks, Heap.start] at hb

end Image

namespace Heap

/-- Blocks are only ever handed out. -/
lemma blocks_step {n : ℕ} {s t : Heap n} {e : Event n} (h : s.step e = Outcome.ret t) :
    ∃ bs, t.blocks = s.blocks ++ bs := by
  rcases step_cases h with ⟨i, size, -, -, rfl⟩ | ⟨i, size, -, -, rfl⟩ |
    ⟨i, size, offset, -, -, ⟨-, rfl⟩ | ⟨-, rfl⟩⟩ | ⟨i, size, offset, -, -, rfl⟩ |
    ⟨-, -, region, -, rfl⟩
  · exact ⟨[], (List.append_nil _).symm⟩
  · exact ⟨[], (List.append_nil _).symm⟩
  · exact ⟨[], (List.append_nil _).symm⟩
  · exact ⟨[], (List.append_nil _).symm⟩
  · rw [finished]
    split_ifs
    · exact ⟨_, blocks_returns s i _⟩
    · exact ⟨_, blocks_returns s.fetchAdd i _⟩
  · exact ⟨[], by rw [blocks_reopened, List.append_nil]⟩

end Heap

namespace Image

variable {n : ℕ} {L : Layout} {m m' : Image n} {totalSize : UInt64} {contents : ℕ → UInt8}
variable {es : List (Event n)} {page : ℕ}

/-- What an operation of the allocator does to a byte beyond the header: nothing, or it is the drop
and the byte lies past the end of the file. -/
lemma bytes_store_unmapped (h : m.Intact L totalSize contents es) (f : Heap.Event n) (s : Heap n)
    {p : ℕ} (hp : 24 ≤ p) :
    ((store L (m.unmapped f).bytes s).bytes p = m.bytes p ∧
      remembered totalSize p (es ++ [Event.allocator f])
        = remembered totalSize p es ++ [Event.allocator f]) ∨
    ((store L (m.unmapped f).bytes s).bytes p = inFile totalSize contents p ∧
      remembered totalSize p (es ++ [Event.allocator f]) = []) := by
  have hstore : (store L (m.unmapped f).bytes s).bytes p = (m.unmapped f).bytes p := by
    simp [store, Nat.not_lt.mpr hp]
  rw [hstore]
  by_cases hin : p < totalSize.toNat
  · left
    exact ⟨bytes_unmapped_of_lt m f (h.size.symm ▸ hin), remembered_snoc (Or.inl hin) es⟩
  · by_cases hf : f = Heap.Event.reopen
    · right
      subst hf
      refine ⟨?_, remembered_snoc_reopen hin es⟩
      simp [unmapped, inFile, h.size, hin]
    · left
      rw [unmapped_of_ne hf]
      refine ⟨rfl, remembered_snoc (Or.inr ?_) es⟩
      cases f with
      | reopen => exact absurd rfl hf
      | _ => rfl

/-- A block that is handed out is made of bytes that nobody had. -/
lemma outside_of_new {blocks bs : List Block} (h : (blocks ++ bs).Pairwise Block.Apart) {b : Block}
    (hnew : b ∈ bs) {pos : ℕ} (hpos : pos < b.size) : Outside blocks (b.offset + pos) := by
  rw [List.pairwise_append] at h
  intro c hc
  rcases h.2.2 c hc b hnew with hend | hend
  · exact Or.inr (by omega)
  · exact Or.inl (by omega)

/-- **The allocator moves.**  It writes to the header only, and a new block holds what the file came
with. -/
lemma Intact.allocator (h : m.Intact L totalSize contents es) (hlong : 24 ≤ totalSize.toNat)
    {f : Heap.Event n} {s : Heap n} (hok : (m.view L).NoOverflow f)
    (hs : (m.view L).step f = Outcome.ret s) :
    (store L (m.unmapped f).bytes s).Intact L totalSize contents (es ++ [Event.allocator f]) := by
  have hview := view_store L (m.unmapped f).bytes s
  have hsize : (m.view L).file.stSize = totalSize := h.size
  have hinv : s.Inv := by
    refine h.inv.step hok ?_ hs
    intro _
    rw [hsize]
    omega
  obtain ⟨bs, hbs⟩ := Heap.blocks_step hs
  have houter : ∀ p, Outside s.blocks p → Outside (m.view L).blocks p := by
    intro p hp b hb
    exact hp b (by rw [hbs]; exact List.mem_append_left bs hb)
  refine ⟨hview.symm ▸ hinv, (Heap.stSize_step hs).trans hsize, ?_, ?_, ?_⟩
  · intro p hp hout
    rw [hview] at hout
    rcases bytes_store_unmapped h f s hp with ⟨hbytes, -⟩ | ⟨hbytes, -⟩
    · rw [hbytes]
      exact h.fresh p hp (houter p hout)
    · exact hbytes
  · intro k pos hk
    rw [hview, hbs, List.length_append] at hk
    rw [lastPoke_snoc_allocator]
    exact h.unpoked k pos (by omega)
  · intro k pos b hb hpos
    rw [hview] at hb
    have habove : 24 ≤ b.offset := (hinv.inRange b (List.mem_of_getElem? hb)).above
    rcases bytes_store_unmapped h f s (Nat.le_add_right_of_le habove) with
      ⟨hbytes, hrem⟩ | ⟨hbytes, hrem⟩
    · rw [hbytes, hrem, lastPoke_snoc_allocator]
      by_cases hk : k < (m.view L).blocks.length
      · refine h.held k pos b ?_ hpos
        rw [hbs, List.getElem?_append_left hk] at hb
        exact hb
      · have hnew : b ∈ bs := by
          rw [hbs, List.getElem?_append_right (by omega)] at hb
          exact List.mem_of_getElem? hb
        rw [lastPoke_remembered_eq_none (h.unpoked k pos (by omega)), Option.getD_none]
        exact h.fresh _ (by omega) (outside_of_new (hbs ▸ hinv.apart) hnew hpos)
    · rw [hbytes, hrem, lastPoke_nil, Option.getD_none]

lemma apart_of_ne {blocks : List Block} (h : blocks.Pairwise Block.Apart) {k k' : ℕ} {b c : Block}
    (hne : k ≠ k') (hb : blocks[k]? = some b) (hc : blocks[k']? = some c) : b.Apart c := by
  obtain ⟨hk, rfl⟩ := List.getElem?_eq_some_iff.mp hb
  obtain ⟨hk', rfl⟩ := List.getElem?_eq_some_iff.mp hc
  rw [List.pairwise_iff_getElem] at h
  rcases Nat.lt_or_gt_of_ne hne with hlt | hgt
  · exact h k k' hk hk' hlt
  · exact (h k' k hk' hk hgt).symm

/-- **A caller writes.**  The byte lies beyond the header, and in no other block. -/
lemma Intact.poke (h : m.Intact L totalSize contents es) {k pos : ℕ} {v : UInt8} {b : Block}
    (hb : (m.view L).blocks[k]? = some b) (hpos : pos < b.size) :
    (m.setByte (b.offset + pos) v).Intact L totalSize contents (es ++ [Event.poke k pos v]) := by
  have habove : 24 ≤ b.offset := (h.inv.inRange b (List.mem_of_getElem? hb)).above
  have hview := view_setByte L m (Nat.le_add_right_of_le habove : 24 ≤ b.offset + pos) v
  have hk : k < (m.view L).blocks.length := (List.getElem?_eq_some_iff.mp hb).1
  refine ⟨hview.symm ▸ h.inv, h.size, ?_, ?_, ?_⟩
  · intro p hp hout
    rw [hview] at hout
    have hne : p ≠ b.offset + pos := by
      have hp' := hout b (List.mem_of_getElem? hb)
      omega
    rw [setByte_bytes_ne m hne]
    exact h.fresh p hp hout
  · intro k' pos' hk'
    rw [hview] at hk'
    rw [lastPoke_snoc_poke_ne (by omega)]
    exact h.unpoked k' pos' hk'
  · intro k' pos' c hc hpos'
    rw [hview] at hc
    rw [remembered_snoc (Or.inr rfl)]
    by_cases hsame : k = k' ∧ pos = pos'
    · obtain ⟨rfl, rfl⟩ := hsame
      obtain rfl : b = c := Option.some.inj (hb.symm.trans hc)
      rw [lastPoke_snoc_poke, setByte_bytes, Option.getD_some]
    · have hne : c.offset + pos' ≠ b.offset + pos := by
        by_cases hkk : k = k'
        · subst hkk
          obtain rfl : b = c := Option.some.inj (hb.symm.trans hc)
          have hpp : pos ≠ pos' := fun heq => hsame ⟨rfl, heq⟩
          omega
        · rcases apart_of_ne h.inv.apart hkk hb hc with hend | hend
          · omega
          · omega
      rw [lastPoke_snoc_poke_ne hsame, setByte_bytes_ne m hne]
      exact h.held k' pos' c hc hpos'

/-- The operations of the allocator alone are a run of it. -/
lemma reach_view {basepath : String} (hlong : 24 ≤ totalSize)
    (h : Reach (step L page) (NoOverflow L) (start L n basepath totalSize contents) es m) :
    m.Intact L totalSize contents es ∧
      Reach Heap.step Heap.NoOverflow (Heap.start n basepath totalSize)
        (es.filterMap Event.allocator?) (m.view L) := by
  have hheader : 24 ≤ totalSize.toNat := UInt64.le_iff_toNat_le.mp hlong
  induction h with
  | nil =>
      refine ⟨intact_start L n basepath totalSize contents, ?_⟩
      rw [start, view_store]
      exact Reach.nil
  | @snoc es m m' e _ hok hs ih =>
      obtain ⟨hintact, hrun⟩ := ih
      rw [List.filterMap_append]
      rcases step_cases hs with ⟨f, s, rfl, hstep, rfl⟩ | ⟨k, pos, v, b, rfl, hb, hpos, rfl⟩
      · rw [view_unmapped L m f (hintact.size.symm ▸ hheader)] at hstep
        refine ⟨hintact.allocator hheader (hok f rfl) hstep, ?_⟩
        rw [view_store]
        exact Reach.snoc hrun (hok f rfl) hstep
      · refine ⟨hintact.poke hb hpos, ?_⟩
        have habove := (hintact.inv.inRange b (List.mem_of_getElem? hb)).above
        have hnone : [(Event.poke k pos v : Event n)].filterMap Event.allocator? = [] := rfl
        rw [view_setByte L m (by omega), hnone, List.append_nil]
        exact hrun

/-- **The callers cannot harm the allocator, nor one another.**  In every run on a file of 24 bytes
or more, of any number of threads and with any writes through the pointers they got, in which no
offset plus size plus 7 reaches `2 ^ 64`: the operations of the allocator are a run of it as if
nobody had written anything.  A byte of a block that lies in the file, whoever got the block and in
whichever session, is what was last written to that place of that block, or what the file held to
begin with; one that lies past the end of the file is what was last written to it since the file was
last dropped, or zero. -/
theorem peek_eq_last_poke (L : Layout) (page : ℕ) (basepath : String) (hlong : 24 ≤ totalSize)
    (h : Reach (step L page) (NoOverflow L) (start L n basepath totalSize contents) es m) :
    Reach Heap.step Heap.NoOverflow (Heap.start n basepath totalSize)
        (es.filterMap Event.allocator?) (m.view L) ∧
      ∀ k pos b, (m.view L).blocks[k]? = some b → pos < b.size →
        (b.offset + pos < totalSize.toNat →
          m.bytes (b.offset + pos) = (lastPoke k pos es).getD (contents (b.offset + pos))) ∧
        (totalSize.toNat ≤ b.offset + pos →
          m.bytes (b.offset + pos)
            = (lastPoke k pos (es.rtakeWhile fun e => !e.isReopen)).getD 0) := by
  obtain ⟨hintact, hrun⟩ := reach_view hlong h
  refine ⟨hrun, ?_⟩
  intro k pos b hb hpos
  have hheld := hintact.held k pos b hb hpos
  refine ⟨?_, ?_⟩
  · intro hin
    rwa [remembered, if_pos hin, inFile, if_pos hin] at hheld
  · intro hout
    rwa [remembered, if_neg (Nat.not_lt.mpr hout), inFile, if_neg (Nat.not_lt.mpr hout)] at hheld

/-- The test of `NoOverflow`. -/
def noOverflow (L : Layout) (m : Image n) : Event n → Bool
  | Event.allocator f => (m.view L).noOverflow f
  | Event.poke _ _ _ => true

lemma noOverflow_sound {e : Event n} (h : m.noOverflow L e = true) : m.NoOverflow L e := by
  rintro f rfl
  exact Heap.noOverflow_sound h

/-- A file of 1024 bytes and a block that straddles its end: the byte at 28 is still there when the
file has been dropped and loaded, and the one at 1030 is not. -/
theorem peek_eq_last_poke_reopened :
    let es : List (Event 1) := [Event.allocator (Heap.Event.allocate 0 1008 8),
      Event.allocator (Heap.Event.load 0), Event.allocator (Heap.Event.compareAndSwap 0),
      Event.allocator (Heap.Event.finish 0), Event.poke 0 4 7, Event.poke 0 1006 9,
      Event.allocator Heap.Event.reopen]
    ∃ m, Reach (step Layout.declared 4096) (NoOverflow Layout.declared)
        (start Layout.declared 1 "data" 1024 fun _ => 0) es m ∧
      (m.view Layout.declared).blocks = [⟨24, 1008⟩] ∧ m.bytes (24 + 4) = 7 ∧
      m.bytes (24 + 1006) = 0 := by
  intro es
  obtain ⟨m, hexec, hblocks⟩ : ∃ m,
      execute (step Layout.declared 4096) (noOverflow Layout.declared)
        (start Layout.declared 1 "data" 1024 fun _ => 0) es = some m ∧
      (m.view Layout.declared).blocks = [⟨24, 1008⟩] := ⟨_, rfl, by decide⟩
  have hrun : Reach (step Layout.declared 4096) (NoOverflow Layout.declared)
      (start Layout.declared 1 "data" 1024 fun _ => 0) es m :=
    reach_of_execute (fun _ _ => noOverflow_sound) hexec
  have hpeek := (peek_eq_last_poke Layout.declared 4096 "data" (by decide) hrun).2 0
  have hblock : (m.view Layout.declared).blocks[0]? = some ⟨24, 1008⟩ := by
    rw [hblocks]
    rfl
  exact ⟨m, hrun, hblocks, (hpeek 4 _ hblock (by decide)).1 (by decide),
    (hpeek 1006 _ hblock (by decide)).2 (by decide)⟩

end Image

end Rx
