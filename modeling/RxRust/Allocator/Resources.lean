import RxRust.Allocator.Loading

/-!
# The mapping and the descriptor

What `new`, `load`, `allocate` and `drop` do to the two things the operating system keeps for a
region: the open descriptor and the live mapping.  `World` holds both, and a ledger of how they were
given back; each function is the sequence of its system calls and of its accesses to the header, in
the order of the source.

Two error branches give both back and go on: `new`, when `madvise` fails, writes the header into the
mapping that is gone and returns the region all the same; `load`, when it refuses a file, reads the
size out of the header once more for its message.  And `drop` unmaps the size in the header, which
need not be the length that was mapped.

* `World`, `Sys` — the two resources with the ledger, and calls that work on them.
* `World.new`, `World.load`, `World.allocate`, `World.drop` — the code.
* `Life`, `Life.Sound` — a region from its making to its drop, and the protocol.
* **`sound_iff`** — exactly when a life keeps to the protocol.
-/

namespace Rx

open Core

/-- The descriptor and the mapping of a region.  `unmaps` and `closes` count how often they were
given back, `wrong` the calls of `munmap` and `close` for something else, and `stale` the accesses
to a mapping that is not there. -/
structure World where
  file : DataFile
  fdOpen : Bool
  mapped : Option ℕ
  unmaps : ℕ
  closes : ℕ
  wrong : ℕ
  stale : ℕ
  deriving Repr, DecidableEq

/-- A call that works on the resources. -/
abbrev Sys := StateM World

/-- The pages that a length takes. -/
def pages (page : ℕ) (len : UInt64) : ℕ := (len.toNat + (page - 1)) / page

namespace World

/-- Nothing has been opened yet. -/
def start (file : DataFile) : World := ⟨file, false, none, 0, 0, 0, 0⟩

/-! ## System calls -/

/-- `open` -/
def openFd : Sys Unit := modify fun w => { w with fdOpen := true }

/-- `ftruncate` -/
def ftruncate (len : UInt64) : Sys Unit :=
  modify fun w => { w with file := { w.file with stSize := len } }

/-- `fstat`, the field `st_size`. -/
def fstat : Sys UInt64 := do return (← get).file.stSize

/-- `mmap` -/
def mmap (page : ℕ) (len : UInt64) : Sys Unit :=
  modify fun w => { w with mapped := some (pages page len) }

/-- `munmap`.  Other pages than those of the mapping are a part of it, or more than it. -/
def munmap (page : ℕ) (len : UInt64) : Sys Unit := modify fun w =>
  if w.mapped = some (pages page len) then { w with mapped := none, unmaps := w.unmaps + 1 }
  else { w with wrong := w.wrong + 1 }

/-- `close` -/
def close : Sys Unit := modify fun w =>
  if w.fdOpen then { w with fdOpen := false, closes := w.closes + 1 }
  else { w with wrong := w.wrong + 1 }

/-- An access to the mapping. -/
def touch : Sys Unit := modify fun w =>
  if w.mapped.isSome then w else { w with stale := w.stale + 1 }

/-- `*headerptr` is read. -/
def readHeader : Sys MMapHeader := do
  touch
  return (← get).file.header

/-- `*headerptr` is written. -/
def writeHeader (header : MMapHeader) : Sys Unit := do
  touch
  modify fun w => { w with file := { w.file with header := header } }

/-! What the calls do to the resources; results of `Sys` are pairs. -/

section Runs

variable {α β : Type}

lemma run_bind (x : Sys α) (f : α → Sys β) (w : World) :
    (x >>= f).run w = (f (x.run w).1).run (x.run w).2 := rfl

lemma run_pure (a : α) (w : World) : (pure a : Sys α).run w = (a, w) := rfl

lemma run_get (w : World) : (get : Sys World).run w = (w, w) := rfl

lemma run_ite (c : Prop) [Decidable c] (x y : Sys α) (w : World) :
    (if c then x else y).run w = if c then x.run w else y.run w := by
  split_ifs <;> rfl

lemma run_openFd (w : World) : openFd.run w = ((), { w with fdOpen := true }) := rfl

lemma run_fstat (w : World) : fstat.run w = (w.file.stSize, w) := rfl

lemma run_mmap (page : ℕ) (len : UInt64) (w : World) :
    (mmap page len).run w = ((), { w with mapped := some (pages page len) }) := rfl

lemma run_munmap (page : ℕ) (len : UInt64) (w : World) : (munmap page len).run w
    = ((), if w.mapped = some (pages page len) then
        { w with mapped := none, unmaps := w.unmaps + 1 } else { w with wrong := w.wrong + 1 }) := rfl

lemma run_close (w : World) : close.run w
    = ((), if w.fdOpen then { w with fdOpen := false, closes := w.closes + 1 }
        else { w with wrong := w.wrong + 1 }) := rfl

lemma run_readHeader (w : World) : readHeader.run w
    = (w.file.header, if w.mapped.isSome then w else { w with stale := w.stale + 1 }) := by
  show ((if w.mapped.isSome = true then w else { w with stale := w.stale + 1 }).file.header,
    if w.mapped.isSome = true then w else { w with stale := w.stale + 1 }) = _
  split_ifs <;> rfl

lemma run_writeHeader (header : MMapHeader) (w : World) : (writeHeader header).run w
    = ((), { (if w.mapped.isSome then w else { w with stale := w.stale + 1 }) with
        file := { w.file with header := header } }) := by
  show ((), { (if w.mapped.isSome = true then w else { w with stale := w.stale + 1 }) with
    file := { (if w.mapped.isSome = true then w else { w with stale := w.stale + 1 }).file with
      header := header } }) = _
  split_ifs <;> rfl

end Runs

/-! ## The code -/

/-- `MappedRegion::new` -/
def new (page : ℕ) (totalSize : UInt64) (madvised : Except String Unit) :
    Sys (Except String MappedRegion) := do
  openFd
  ftruncate totalSize
  mmap page totalSize
  match madvised with
  | Except.ok () => pure ()
  | Except.error _ =>
      munmap page totalSize
      close
  let offset := alignUp headerSize
  writeHeader ⟨MAGIC, offset, totalSize⟩
  return Except.ok ⟨totalSize, 0⟩

/-- `MappedRegion::load` -/
def load (page : ℕ) : Sys (Except String MappedRegion) := do
  openFd
  let stSize ← fstat
  mmap page stSize
  let header ← readHeader
  if header.magic ≠ MAGIC ∧ header.totalSize ≠ stSize then
    munmap page stSize
    close
    -- the message is made from the mapped header
    let header ← readHeader
    return Except.error ("Failed to load data file, " ++ (← get).file.path.quote
      ++ ". Reported sizes do not match: file size: " ++ toString stSize
      ++ ", header size " ++ toString header.totalSize)
  else return Except.ok ⟨header.totalSize, 0⟩

/-- `allocate`, when nobody else is in it: the compare-and-swap succeeds. -/
def allocate (self : MappedRegion) (size align : UInt64) :
    Sys (Outcome (MappedRegion × Option UInt64)) := do
  if align ≠ ALIGN then
    return Outcome.panic ("User requested alignment of " ++ toString align ++ " but we only have "
      ++ toString ALIGN)
  else
    let header ← readHeader
    let offset := header.current
    writeHeader { header with current := alignUp (offset + size) }
    if offset > self.totalSize then return Outcome.ret (self, none)
    else return Outcome.ret ({ self with count := self.count + 1 }, some offset)

/-- `drop`; what its calls answer is ignored. -/
def drop (page : ℕ) (self : MappedRegion) : Sys Unit := do
  -- `msync` comes first; it leaves mapping and descriptor alone
  munmap page self.totalSize
  close

/-- Calls of `allocate` with their sizes and alignments, up to the first that panics: the stack is
then unwound, and the region dropped. -/
def allocateAll (self : MappedRegion) : List (UInt64 × UInt64) → Sys MappedRegion
  | [] => return self
  | (size, align) :: calls => do
      match ← allocate self size align with
      | Outcome.ret (self, _) => allocateAll self calls
      | _ => return self

end World

/-- The life of a region: what making it returned, and the resources then and at the end. -/
structure Life where
  result : Except String MappedRegion
  made : World
  done : World

/-- A region is made, used and dropped; if it is refused there is nothing to drop. -/
def World.live (page : ℕ) (make : Sys (Except String MappedRegion)) (calls : List (UInt64 × UInt64))
    (w : World) : Life :=
  match make.run w with
  | (Except.ok region, made) =>
      let (last, used) := (World.allocateAll region calls).run made
      ⟨Except.ok region, made, ((World.drop page last).run used).2⟩
  | (Except.error e, made) => ⟨Except.error e, made, made⟩

/-- The protocol: what is returned is live, what is refused has been given back; the mapping is not
touched without being there, and mapping and descriptor are given back once. -/
structure Life.Sound (l : Life) : Prop where
  returned : ∀ region, l.result = Except.ok region → l.made.mapped ≠ none ∧ l.made.fdOpen = true
  refused : ∀ e, l.result = Except.error e → l.made.mapped = none ∧ l.made.fdOpen = false
  stale : l.done.stale = 0
  unmaps : l.done.unmaps = 1
  closes : l.done.closes = 1
  wrong : l.done.wrong = 0

namespace World

/-! ## Making a region -/

/-- `new` when `madvise` succeeds. -/
lemma new_ok (page : ℕ) (totalSize : UInt64) (w : World) :
    (new page totalSize (Except.ok ())).run w = (Except.ok ⟨totalSize, 0⟩,
      { w with
        file := ⟨w.file.path, totalSize, ⟨MAGIC, alignUp headerSize, totalSize⟩⟩
        fdOpen := true
        mapped := some (pages page totalSize) }) := rfl

/-- The file is the one `MappedRegion.new` makes. -/
lemma new_file (page : ℕ) (totalSize : UInt64) (w : World) :
    ((new page totalSize (Except.ok ())).run w).2.file = (MappedRegion.new w.file.path totalSize).1 :=
  rfl

/-- `new` when `madvise` fails: the region is returned without its mapping. -/
lemma new_error (page : ℕ) (totalSize : UInt64) (e : String) (w : World) :
    ∃ made, (new page totalSize (Except.error e)).run w = (Except.ok ⟨totalSize, 0⟩, made) ∧
      made.mapped = none := by
  refine ⟨_, rfl, ?_⟩
  simp

/-- `load` when it accepts the file. -/
lemma load_accepted (page : ℕ) {w : World}
    (h : w.file.header.magic = MAGIC ∨ w.file.header.totalSize = w.file.stSize) :
    (load page).run w = (Except.ok ⟨w.file.header.totalSize, 0⟩,
      { w with fdOpen := true, mapped := some (pages page w.file.stSize) }) := by
  have hcheck : ¬ (w.file.header.magic ≠ MAGIC ∧ w.file.header.totalSize ≠ w.file.stSize) := by
    rintro ⟨hmagic, hsize⟩
    exact h.elim hmagic hsize
  simp only [load, run_bind, run_openFd, run_fstat, run_mmap, run_readHeader, Option.isSome_some,
    if_true, if_neg hcheck, run_pure]

/-- `load` when it refuses the file: the header is read once more when the mapping is gone. -/
lemma load_refused (page : ℕ) {w : World}
    (h : ¬ (w.file.header.magic = MAGIC ∨ w.file.header.totalSize = w.file.stSize)) :
    ∃ made, (load page).run w = (MappedRegion.load w.file, made) ∧ made.stale = w.stale + 1 := by
  obtain ⟨hmagic, hsize⟩ := not_or.mp h
  have hrefused : MappedRegion.load w.file = Except.error ("Failed to load data file, "
      ++ w.file.path.quote ++ ". Reported sizes do not match: file size: " ++ toString w.file.stSize
      ++ ", header size " ++ toString w.file.header.totalSize) := if_pos ⟨hmagic, hsize⟩
  refine ⟨{ w with
    fdOpen := false
    mapped := none
    unmaps := w.unmaps + 1
    closes := w.closes + 1
    stale := w.stale + 1 }, ?_, rfl⟩
  rw [hrefused]
  have hcheck : w.file.header.magic ≠ MAGIC ∧ w.file.header.totalSize ≠ w.file.stSize :=
    ⟨hmagic, hsize⟩
  simp only [load, run_bind, run_openFd, run_fstat, run_mmap, run_readHeader, Option.isSome_some,
    if_true, if_pos hcheck, run_munmap, run_close, Option.isSome_none, Bool.false_eq_true, if_false,
    run_get, run_pure]

/-- What is returned is what `MappedRegion.load` returns. -/
lemma load_result (page : ℕ) (w : World) :
    ((load page).run w).1 = MappedRegion.load w.file := by
  by_cases h : w.file.header.magic = MAGIC ∨ w.file.header.totalSize = w.file.stSize
  · rw [load_accepted page h]
    exact (load_ok_iff.mpr ⟨h, rfl⟩).symm
  · obtain ⟨made, hrun, -⟩ := load_refused page h
    rw [hrun]

/-! ## Using and dropping it -/

/-- The resources are as before. -/
structure Held (w w' : World) : Prop where
  fdOpen : w'.fdOpen = w.fdOpen
  mapped : w'.mapped = w.mapped
  unmaps : w'.unmaps = w.unmaps
  closes : w'.closes = w.closes
  wrong : w'.wrong = w.wrong
  stale : w'.stale = w.stale

lemma Held.refl (w : World) : Held w w := ⟨rfl, rfl, rfl, rfl, rfl, rfl⟩

lemma Held.trans {u v w : World} (h : Held u v) (h' : Held v w) : Held u w :=
  ⟨h'.fdOpen.trans h.fdOpen, h'.mapped.trans h.mapped, h'.unmaps.trans h.unmaps,
    h'.closes.trans h.closes, h'.wrong.trans h.wrong, h'.stale.trans h.stale⟩

/-- `allocate` on a live mapping gives nothing back and touches nothing that is gone. -/
lemma allocate_held {w : World} (hlive : w.mapped.isSome = true) (self : MappedRegion)
    (size align : UInt64) :
    ∃ r w', (allocate self size align).run w = (r, w') ∧ Held w w' ∧
      ∀ region p, r = Outcome.ret (region, p) → region.totalSize = self.totalSize := by
  by_cases halign : align = ALIGN
  · -- the header is read and written, and nothing else
    refine ⟨if w.file.header.current > self.totalSize then Outcome.ret (self, none)
      else Outcome.ret ({ self with count := self.count + 1 }, some w.file.header.current),
      { w with file := { w.file with header := { w.file.header with
        current := alignUp (w.file.header.current + size) } } }, ?_, ⟨rfl, rfl, rfl, rfl, rfl, rfl⟩, ?_⟩
    · have halign' : ¬ align ≠ ALIGN := not_not.mpr halign
      simp only [allocate, run_ite, if_neg halign', run_bind, run_readHeader, run_writeHeader, hlive,
        if_true, run_pure]
      split_ifs <;> rfl
    · intro region p hr
      split_ifs at hr
      · cases hr
        rfl
      · cases hr
        rfl
  · refine ⟨Outcome.panic ("User requested alignment of " ++ toString align
      ++ " but we only have " ++ toString ALIGN), w, ?_, Held.refl w, ?_⟩
    · simp only [allocate, if_pos halign, run_pure]
    · intro region p hr
      cases hr

/-- Any number of calls. -/
lemma allocateAll_held {w : World} (hlive : w.mapped.isSome = true) (self : MappedRegion)
    (calls : List (UInt64 × UInt64)) :
    ∃ region w', (allocateAll self calls).run w = (region, w') ∧ Held w w' ∧
      region.totalSize = self.totalSize := by
  induction calls generalizing self w with
  | nil => exact ⟨self, w, rfl, Held.refl w, rfl⟩
  | cons call calls ih =>
      obtain ⟨size, align⟩ := call
      obtain ⟨r, w', hrun, hheld, hsize⟩ := allocate_held hlive self size align
      cases r with
      | ret p =>
          obtain ⟨region, ptr⟩ := p
          have hlive' : w'.mapped.isSome = true := hheld.mapped ▸ hlive
          obtain ⟨region', w'', hrun', hheld', hsize'⟩ := ih hlive' region
          refine ⟨region', w'', ?_, hheld.trans hheld', hsize'.trans (hsize region ptr rfl)⟩
          rw [allocateAll, StateT.run_bind, hrun]
          exact hrun'
      | panic msg =>
          refine ⟨self, w', ?_, hheld, rfl⟩
          rw [allocateAll, StateT.run_bind, hrun]
          rfl
      | stuck =>
          refine ⟨self, w', ?_, hheld, rfl⟩
          rw [allocateAll, StateT.run_bind, hrun]
          rfl

/-- `drop` on a live mapping and an open descriptor: both are given back if the size is that of the
mapping, and otherwise the descriptor only. -/
lemma drop_run (page : ℕ) {self : MappedRegion} {w : World} (hfd : w.fdOpen = true) :
    ((drop page self).run w).2 =
      if w.mapped = some (pages page self.totalSize) then
        { w with mapped := none, unmaps := w.unmaps + 1, fdOpen := false, closes := w.closes + 1 }
      else { w with wrong := w.wrong + 1, fdOpen := false, closes := w.closes + 1 } := by
  simp only [drop, run_bind, run_munmap, run_close]
  by_cases hpages : w.mapped = some (pages page self.totalSize)
  · simp [hpages, hfd]
  · simp [hpages, hfd]

/-! ## Whole lives -/

/-- A region that was made with its mapping and its descriptor, and nothing given back: its life is
sound exactly if its size takes the pages of the mapping. -/
lemma sound_of_made (page : ℕ) {make : Sys (Except String MappedRegion)} {w made : World}
    {region : MappedRegion} {k : ℕ} (calls : List (UInt64 × UInt64))
    (hmake : make.run w = (Except.ok region, made)) (hmapped : made.mapped = some k)
    (hfd : made.fdOpen = true)
    (hledger : made.unmaps = 0 ∧ made.closes = 0 ∧ made.wrong = 0 ∧ made.stale = 0) :
    (live page make calls w).Sound ↔ pages page region.totalSize = k := by
  have hlive : made.mapped.isSome = true := by rw [hmapped]; rfl
  obtain ⟨last, used, hrun, hheld, hsize⟩ := allocateAll_held hlive region calls
  have hfd' : used.fdOpen = true := hheld.fdOpen.trans hfd
  have hlife : live page make calls w
      = ⟨Except.ok region, made, ((drop page last).run used).2⟩ := by
    rw [live, hmake]
    simp only [hrun]
  rw [hlife, drop_run page hfd', hheld.mapped, hmapped, hsize]
  constructor
  · intro h
    by_contra hne
    have hwrong := h.wrong
    rw [if_neg (by simpa using Ne.symm hne)] at hwrong
    simp at hwrong
  · rintro rfl
    rw [if_pos rfl]
    refine ⟨?_, ?_, ?_, ?_, ?_, ?_⟩
    · intro r _
      exact ⟨by rw [hmapped]; simp, hfd⟩
    · intro e he
      cases he
    · exact hheld.stale.trans hledger.2.2.2
    · exact congrArg (· + 1) (hheld.unmaps.trans hledger.1)
    · exact congrArg (· + 1) (hheld.closes.trans hledger.2.1)
    · exact hheld.wrong.trans hledger.2.2.1

/-- **The protocol.**  For any page size, any calls of `allocate` and then `drop`: a region made by
`new` keeps to the protocol exactly if `madvise` succeeds, whatever the size; and a region loaded
from a file, whatever its size and header, exactly if the file is accepted and the size in its
header takes as many pages as the file. -/
theorem sound_iff (page : ℕ) (calls : List (UInt64 × UInt64)) (file : DataFile) :
    (∀ totalSize madvised, (live page (new page totalSize madvised) calls (start file)).Sound ↔
      madvised = Except.ok ()) ∧
    ((live page (load page) calls (start file)).Sound ↔
      (file.header.magic = MAGIC ∨ file.header.totalSize = file.stSize) ∧
        pages page file.header.totalSize = pages page file.stSize) := by
  refine ⟨?_, ?_⟩
  · intro totalSize madvised
    cases madvised with
    | ok _ =>
        have h := sound_of_made page calls (new_ok page totalSize (start file)) rfl rfl
          ⟨rfl, rfl, rfl, rfl⟩
        exact iff_of_true (h.mpr rfl) rfl
    | error e =>
        obtain ⟨made, hmake, hgone⟩ := new_error page totalSize e (start file)
        refine iff_of_false ?_ (by simp)
        intro h
        have hlife : ∃ region done, live page (new page totalSize (Except.error e)) calls (start file)
            = ⟨Except.ok region, made, done⟩ := by
          rw [live, hmake]
          exact ⟨_, _, rfl⟩
        obtain ⟨region, done, hlife⟩ := hlife
        rw [hlife] at h
        exact (h.returned region rfl).1 hgone
  · by_cases haccepted : file.header.magic = MAGIC ∨ file.header.totalSize = file.stSize
    · have h := sound_of_made page calls (load_accepted page (w := start file) haccepted) rfl rfl
        ⟨rfl, rfl, rfl, rfl⟩
      exact h.trans (and_iff_right haccepted).symm
    · refine iff_of_false ?_ (fun h => haccepted h.1)
      intro h
      obtain ⟨made, hrun, hstale⟩ := load_refused page (w := start file) haccepted
      have hload : MappedRegion.load (start file).file = Except.error _ :=
        if_pos (not_or.mp haccepted)
      rw [live, hrun, hload] at h
      have := h.stale
      simp only [hstale] at this
      omega

/-- A file of 1024 bytes for which `madvise` fails, and a foreign file: neither keeps to the
protocol. -/
theorem unsound_lives :
    ¬ (live 4096 (new 4096 1024 (Except.error "EAGAIN")) [] (start ⟨"data", 0, ⟨0, 0, 0⟩⟩)).Sound ∧
      ¬ (live 4096 (load 4096) [] (start ⟨"data", 512, ⟨0, 0, 0⟩⟩)).Sound := by
  refine ⟨?_, ?_⟩
  · intro h
    exact absurd (h.returned _ rfl).1 (by decide)
  · intro h
    exact absurd h.stale (by decide)

end World

end Rx
