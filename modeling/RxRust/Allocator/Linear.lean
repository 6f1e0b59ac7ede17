import Mathlib.Algebra.BigOperators.Group.Finset.Basic
import Mathlib.Data.Fintype.BigOperators
import RxRust.Core.Refine
import RxRust.Allocator.Disjoint

/-!
# One call at a time

Seen from outside, an `allocate` is a call and, later, an answer.  What the threads do between the
two is interleaved operation by operation; this file shows that nobody can tell.  The specification
is `Atomic`, in which the whole of a call happens at one instant.

* `Atomic`, `Atomic.step` — the allocator in which `serve` reads the cursor, moves it and decides
  the answer, all at once, at some point between the call and the answer.
* `Heap.Seen` — what an outside observer sees: calls, answers, and the drop and `load` of the file.
* `Heap.atomic` — the atomic allocator that a state stands for.  A call takes effect where its
  compare-and-swap succeeds; before that it has done nothing, however often it went round.
* **`histories_eq_atomic`** — the histories of the interleaved code on a file that holds its header
  are exactly those of `Atomic`, with no condition on the sizes asked for or on the cursor, which may
  wrap.
* **`attempts_le`** — the loop is lock-free: a stretch of a run with `w` successful
  compare-and-swaps has at most `(n - 1) * (w + 1)` that failed, and hardly more loads than
  compare-and-swaps.

`num_allocated` is not part of a history: the counter is raised after the compare-and-swap and
lags behind it.
-/

namespace Rx

open Core

/-! ## The specification -/

/-- A caller and the atomic allocator: no call, a call that has not taken effect, or one that has
and whose answer is ready. -/
inductive Ticket where
  | idle
  | asked (size : UInt64)
  | served (r : Returned)
  deriving Repr, DecidableEq

/-- The allocator whose calls take effect at once. -/
structure Atomic (n : ℕ) where
  current : UInt64
  totalSize : UInt64
  tickets : Fin n → Ticket

/-- The pointer for a block at `offset`: null if it starts beyond the end. -/
def pointer (totalSize offset : UInt64) : Option UInt64 :=
  if offset > totalSize then none else some offset

namespace Heap

/-- What is seen from outside. -/
inductive Seen (n : ℕ) where
  | called (i : Fin n) (size : UInt64)
  | cameBack (i : Fin n) (r : Returned)
  | reopened
  deriving Repr, DecidableEq

end Heap

namespace Atomic

variable {n : ℕ}

inductive Event (n : ℕ) where
  | ask (i : Fin n) (size : UInt64)
  | serve (i : Fin n)
  | answer (i : Fin n)
  | reopen
  deriving Repr, DecidableEq

def start (n : ℕ) (totalSize : UInt64) : Atomic n where
  current := alignUp headerSize
  totalSize := totalSize
  tickets := fun _ => Ticket.idle

/-- The ticket of caller `i` becomes `r`. -/
def setTicket (a : Atomic n) (i : Fin n) (r : Ticket) : Atomic n :=
  { a with tickets := Function.update a.tickets i r }

/-- The whole of a call. -/
def served (a : Atomic n) (i : Fin n) (size : UInt64) : Atomic n :=
  { a.setTicket i (Ticket.served ⟨size, pointer a.totalSize a.current⟩) with
    current := alignUp (a.current + size) }

/-- One event; the file can be dropped and loaded only while no call is in flight. -/
def step (a : Atomic n) : Event n → Outcome (Atomic n)
  | Event.ask i size =>
      match a.tickets i with
      | Ticket.idle => pure (a.setTicket i (Ticket.asked size))
      | _ => Outcome.stuck
  | Event.serve i =>
      match a.tickets i with
      | Ticket.asked size => pure (a.served i size)
      | _ => Outcome.stuck
  | Event.answer i =>
      match a.tickets i with
      | Ticket.served _ => pure (a.setTicket i Ticket.idle)
      | _ => Outcome.stuck
  | Event.reopen => if ∀ i, a.tickets i = Ticket.idle then pure a else Outcome.stuck

/-- `serve` is the step nobody sees. -/
def shows (a : Atomic n) : Event n → Option (Heap.Seen n)
  | Event.ask i size => some (Heap.Seen.called i size)
  | Event.serve _ => none
  | Event.answer i =>
      match a.tickets i with
      | Ticket.served r => some (Heap.Seen.cameBack i r)
      | _ => none
  | Event.reopen => some Heap.Seen.reopened

/-- Everything a step can do, with what it shows. -/
lemma step_cases {a b : Atomic n} {e : Event n} (h : a.step e = Outcome.ret b) :
    (∃ i size, e = Event.ask i size ∧ a.tickets i = Ticket.idle ∧
      b = a.setTicket i (Ticket.asked size) ∧ a.shows e = some (Heap.Seen.called i size)) ∨
    (∃ i size, e = Event.serve i ∧ a.tickets i = Ticket.asked size ∧ b = a.served i size ∧
      a.shows e = none) ∨
    (∃ i r, e = Event.answer i ∧ a.tickets i = Ticket.served r ∧
      b = a.setTicket i Ticket.idle ∧ a.shows e = some (Heap.Seen.cameBack i r)) ∨
    (e = Event.reopen ∧ (∀ i, a.tickets i = Ticket.idle) ∧ b = a ∧
      a.shows e = some Heap.Seen.reopened) := by
  cases e with
  | ask i size =>
      cases hr : a.tickets i with
      | idle =>
          simp only [step, hr] at h
          obtain rfl := Outcome.ret.inj h
          exact Or.inl ⟨i, size, rfl, hr, rfl, rfl⟩
      | _ => simp [step, hr] at h
  | serve i =>
      cases hr : a.tickets i with
      | asked size =>
          simp only [step, hr] at h
          obtain rfl := Outcome.ret.inj h
          exact Or.inr (Or.inl ⟨i, size, rfl, hr, rfl, rfl⟩)
      | _ => simp [step, hr] at h
  | answer i =>
      cases hr : a.tickets i with
      | served r =>
          simp only [step, hr] at h
          obtain rfl := Outcome.ret.inj h
          exact Or.inr (Or.inr (Or.inl ⟨i, r, rfl, hr, rfl, by simp [shows, hr]⟩))
      | _ => simp [step, hr] at h
  | reopen =>
      obtain ⟨hidle, hb⟩ := Outcome.guard_eq_ret.mp h
      exact Or.inr (Or.inr (Or.inr ⟨rfl, hidle, (Outcome.ret.inj hb).symm, rfl⟩))

end Atomic

namespace Heap

variable {n : ℕ} {s t : Heap n}

/-! ## What the code shows -/

/-- What an event shows: the answer of a call is what `finish` adds to the calls that came back. -/
def shows (s : Heap n) : Event n → Option (Seen n)
  | Event.allocate i size _ => some (Seen.called i size)
  | Event.load _ => none
  | Event.compareAndSwap _ => none
  | Event.finish i =>
      match s.calls i with
      | Call.won size offset =>
          (s.finished i size offset).returned.getLast?.map fun r => Seen.cameBack i r
      | _ => none
  | Event.reopen => some Seen.reopened

/-- The ticket that a call stands for: it has taken effect once its compare-and-swap succeeded. -/
def ticket (totalSize : UInt64) : Call → Ticket
  | Call.idle => Ticket.idle
  | Call.top size => Ticket.asked size
  | Call.loaded size _ => Ticket.asked size
  | Call.won size offset => Ticket.served ⟨size, pointer totalSize offset⟩

/-- The atomic allocator that a state stands for. -/
def atomic (s : Heap n) : Atomic n where
  current := s.file.header.current
  totalSize := s.region.totalSize
  tickets := fun i => ticket s.region.totalSize (s.calls i)

/-- The file can be dropped and loaded again, and the region has its size. -/
structure Loadable (s : Heap n) : Prop where
  magic : s.file.header.magic = MAGIC
  totalSize : s.region.totalSize = s.file.header.totalSize
  header : s.file.header.totalSize = s.file.stSize
  long : 17 ≤ s.file.stSize.toNat

lemma finished_eq (s : Heap n) (i : Fin n) (size offset : UInt64) :
    (s.finished i size offset).returned
        = s.returned ++ [⟨size, pointer s.region.totalSize offset⟩] ∧
      (s.finished i size offset).file = s.file ∧
      (s.finished i size offset).region.totalSize = s.region.totalSize ∧
      (s.finished i size offset).calls = Function.update s.calls i Call.idle := by
  unfold finished pointer
  split_ifs
  · exact ⟨rfl, rfl, rfl, rfl⟩
  · exact ⟨rfl, rfl, rfl, rfl⟩

lemma shows_finish {i : Fin n} {size offset : UInt64} (h : s.calls i = Call.won size offset) :
    s.shows (Event.finish i)
      = some (Seen.cameBack i ⟨size, pointer s.region.totalSize offset⟩) := by
  simp [shows, h, (finished_eq s i size offset).1]

lemma Loadable.dropped (h : s.Loadable) : s.file.dropped = s.file :=
  DataFile.dropped_eq h.long h.header

lemma load_of_loadable (h : s.Loadable) :
    MappedRegion.load s.file.dropped = Except.ok ⟨s.file.header.totalSize, 0⟩ := by
  rw [h.dropped]
  exact load_ok_iff.mpr ⟨Or.inl h.magic, rfl⟩

/-! ### How the operations look from above -/

lemma atomic_update (s : Heap n) (i : Fin n) (c : Call) :
    (fun j => ticket s.region.totalSize (Function.update s.calls i c j))
      = Function.update s.atomic.tickets i (ticket s.region.totalSize c) := by
  funext j
  by_cases hij : j = i
  · subst hij
    simp
  · simp [Function.update_of_ne hij, atomic]

lemma atomic_setCall (s : Heap n) (i : Fin n) (c : Call) :
    (s.setCall i c).atomic = s.atomic.setTicket i (ticket s.region.totalSize c) := by
  simp only [atomic, setCall, Atomic.setTicket]
  rw [atomic_update]
  rfl

lemma atomic_setCall_same {i : Fin n} {c : Call}
    (h : ticket s.region.totalSize c = ticket s.region.totalSize (s.calls i)) :
    (s.setCall i c).atomic = s.atomic := by
  rw [atomic_setCall, h, Atomic.setTicket]
  have hsame : Function.update s.atomic.tickets i (ticket s.region.totalSize (s.calls i))
      = s.atomic.tickets := Function.update_eq_self i s.atomic.tickets
  rw [hsame]

lemma atomic_swapped {i : Fin n} {size offset : UInt64} (h : s.file.header.current = offset) :
    (s.swapped i size offset).atomic = s.atomic.served i size := by
  subst h
  simp only [atomic, swapped, setCall, Atomic.served, Atomic.setTicket]
  rw [atomic_update]
  rfl

lemma atomic_finished (s : Heap n) (i : Fin n) (size offset : UInt64) :
    (s.finished i size offset).atomic = s.atomic.setTicket i Ticket.idle := by
  obtain ⟨-, hfile, htotal, hcalls⟩ := finished_eq s i size offset
  simp only [atomic, Atomic.setTicket, hfile, htotal, hcalls]
  rw [atomic_update]
  rfl

lemma atomic_reopened (h : s.Loadable) :
    (s.reopened ⟨s.file.header.totalSize, 0⟩).atomic = s.atomic := by
  simp [atomic, reopened, h.totalSize, h.dropped]

lemma ticket_eq_idle {totalSize : UInt64} {c : Call} :
    ticket totalSize c = Ticket.idle ↔ c = Call.idle := by
  cases c <;> simp [ticket]

/-- The region keeps what it needs to be loaded again. -/
lemma Loadable.step {e : Event n} (h : s.Loadable) (hs : s.step e = Outcome.ret t) :
    t.Loadable := by
  rcases step_cases hs with ⟨i, size, -, -, rfl⟩ | ⟨i, size, -, -, rfl⟩ |
    ⟨i, size, offset, -, -, ⟨-, rfl⟩ | ⟨-, rfl⟩⟩ | ⟨i, size, offset, -, -, rfl⟩ |
    ⟨-, -, region, hload, rfl⟩
  · exact ⟨h.magic, h.totalSize, h.header, h.long⟩
  · exact ⟨h.magic, h.totalSize, h.header, h.long⟩
  · exact ⟨h.magic, h.totalSize, h.header, h.long⟩
  · exact ⟨h.magic, h.totalSize, h.header, h.long⟩
  · obtain ⟨-, hfile, htotal, -⟩ := finished_eq s i size offset
    refine ⟨?_, ?_, ?_, ?_⟩
    · rw [hfile]
      exact h.magic
    · rw [htotal, hfile]
      exact h.totalSize
    · rw [hfile]
      exact h.header
    · rw [hfile]
      exact h.long
  · rw [load_of_loadable h] at hload
    obtain rfl := Except.ok.inj hload
    have hfile : (s.reopened ⟨s.file.header.totalSize, 0⟩).file = s.file := h.dropped
    refine ⟨?_, ?_, ?_, ?_⟩
    · rw [hfile]
      exact h.magic
    · rw [hfile]
      rfl
    · rw [hfile]
      exact h.header
    · rw [hfile]
      exact h.long

/-! ## The code refines the specification -/

/-- **One operation of the code** is one instant of the specification, or none. -/
lemma step_refines {e : Event n} (h : s.Loadable) (hs : s.step e = Outcome.ret t) :
    ∃ fs, Shown Atomic.step Atomic.shows s.atomic fs (s.shows e).toList t.atomic := by
  rcases step_cases hs with ⟨i, size, rfl, hc, rfl⟩ | ⟨i, size, rfl, hc, rfl⟩ |
    ⟨i, size, offset, rfl, hc, ⟨heq, rfl⟩ | ⟨-, rfl⟩⟩ | ⟨i, size, offset, rfl, hc, rfl⟩ |
    ⟨rfl, hquiet, region, hload, rfl⟩
  · refine ⟨[Atomic.Event.ask i size], ?_⟩
    rw [atomic_setCall]
    refine Shown.single ?_
    simp [Atomic.step, atomic, hc, ticket]
  · -- the load is not noticed
    refine ⟨[], ?_⟩
    rw [atomic_setCall_same (by rw [hc]; rfl)]
    exact Shown.nil
  · -- the call takes effect
    refine ⟨[Atomic.Event.serve i], ?_⟩
    rw [atomic_swapped heq]
    refine Shown.single ?_
    simp [Atomic.step, atomic, hc, ticket]
  · refine ⟨[], ?_⟩
    rw [atomic_setCall_same (by rw [hc]; rfl)]
    exact Shown.nil
  · refine ⟨[Atomic.Event.answer i], ?_⟩
    have hreq : s.atomic.tickets i
        = Ticket.served ⟨size, pointer s.region.totalSize offset⟩ := by
      simp [atomic, hc, ticket]
    have hshow : s.shows (Event.finish i) = s.atomic.shows (Atomic.Event.answer i) := by
      rw [shows_finish hc]
      simp [Atomic.shows, hreq]
    rw [atomic_finished, hshow]
    refine Shown.single ?_
    simp [Atomic.step, hreq]
  · refine ⟨[Atomic.Event.reopen], ?_⟩
    rw [load_of_loadable h] at hload
    obtain rfl := Except.ok.inj hload
    rw [atomic_reopened h]
    refine Shown.single ?_
    have hidle : ∀ i, s.atomic.tickets i = Ticket.idle :=
      fun i => ticket_eq_idle.mpr (hquiet i)
    simp [Atomic.step, hidle]

/-! ## The specification is no wider than the code -/

/-- No thread stands between its load and its compare-and-swap. -/
def Rests (s : Heap n) : Prop := ∀ i size offset, s.calls i ≠ Call.loaded size offset

lemma rests_update {i : Fin n} {c : Call} {calls : Fin n → Call}
    (h : ∀ j size offset, calls j ≠ Call.loaded size offset)
    (hc : ∀ size offset, c ≠ Call.loaded size offset) :
    ∀ j size offset, Function.update calls i c j ≠ Call.loaded size offset := by
  intro j size offset
  by_cases hij : j = i
  · subst hij
    simpa using hc size offset
  · simpa [Function.update_of_ne hij] using h j size offset

/-- **One instant of the specification** is carried out by the code: a call that takes effect is a
load and a compare-and-swap with nothing between them. -/
lemma atomic_step_carried {e : Atomic.Event n} {b : Atomic n} (h : s.Loadable) (hrest : s.Rests)
    (hs : s.atomic.step e = Outcome.ret b) :
    ∃ fs t, Shown Heap.step Heap.shows s fs (s.atomic.shows e).toList t ∧
      t.Loadable ∧ t.Rests ∧ t.atomic = b := by
  rcases Atomic.step_cases hs with ⟨i, size, rfl, hr, rfl, hshow⟩ | ⟨i, size, rfl, hr, rfl, hshow⟩ |
    ⟨i, r, rfl, hr, rfl, hshow⟩ | ⟨rfl, hidle, rfl, hshow⟩
  · have hc : s.calls i = Call.idle := ticket_eq_idle.mp hr
    have hstep : s.step (Event.allocate i size ALIGN)
        = Outcome.ret (s.setCall i (Call.top size)) := by
      simp [step, hc]
    refine ⟨[Event.allocate i size ALIGN], _, ?_, h.step hstep, ?_, atomic_setCall s i _⟩
    · rw [hshow]
      exact Shown.single hstep
    · exact rests_update hrest (by simp)
  · have hc : s.calls i = Call.top size := by
      cases hc : s.calls i with
      | loaded size' offset => exact absurd hc (hrest i size' offset)
      | _ => simp_all [atomic, ticket]
    have hload : s.step (Event.load i)
        = Outcome.ret (s.setCall i (Call.loaded size s.file.header.current)) := by
      simp [step, hc]
    have hswap : (s.setCall i (Call.loaded size s.file.header.current)).step
          (Event.compareAndSwap i)
        = Outcome.ret ((s.setCall i (Call.loaded size s.file.header.current)).swapped i size
            s.file.header.current) := by
      simp only [step, calls_setCall]
      exact if_pos rfl
    refine ⟨[Event.load i] ++ [Event.compareAndSwap i], _, ?_, (h.step hload).step hswap, ?_, ?_⟩
    · rw [hshow]
      have hfirst : Shown Heap.step Heap.shows s [Event.load i] [] _ := Shown.single hload
      exact hfirst.append (Shown.single hswap)
    · intro j size' offset
      by_cases hij : j = i
      · subst hij
        simp [calls_swapped]
      · rw [calls_swapped_ne _ hij, calls_setCall_ne _ hij]
        exact hrest j size' offset
    · have hcurrent : (s.setCall i (Call.loaded size s.file.header.current)).file.header.current
          = s.file.header.current := rfl
      rw [atomic_swapped hcurrent, atomic_setCall_same (by rw [hc]; rfl)]
  · obtain ⟨size, offset, hc, rfl⟩ : ∃ size offset, s.calls i = Call.won size offset ∧
        r = ⟨size, pointer s.region.totalSize offset⟩ := by
      cases hc : s.calls i with
      | won size offset =>
          refine ⟨size, offset, rfl, ?_⟩
          simp only [atomic, hc, ticket] at hr
          exact (Ticket.served.inj hr).symm
      | _ => simp [atomic, hc, ticket] at hr
    have hstep : s.step (Event.finish i) = Outcome.ret (s.finished i size offset) := by
      simp [step, hc]
    refine ⟨[Event.finish i], _, ?_, h.step hstep, ?_, atomic_finished s i size offset⟩
    · rw [hshow, ← shows_finish hc]
      exact Shown.single hstep
    · intro j size' offset'
      rw [(finished_eq s i size offset).2.2.2]
      exact rests_update hrest (by simp) j size' offset'
  · have hquiet : s.Quiet := fun i => ticket_eq_idle.mp (hidle i)
    have hstep : s.step Event.reopen
        = Outcome.ret (s.reopened ⟨s.file.header.totalSize, 0⟩) := by
      simp [step, hquiet, load_of_loadable h]
    refine ⟨[Event.reopen], _, ?_, h.step hstep, hrest, atomic_reopened h⟩
    rw [hshow]
    exact Shown.single hstep

lemma loadable_start (n : ℕ) (basepath : String) {totalSize : UInt64} (hlong : 17 ≤ totalSize) :
    (start n basepath totalSize).Loadable := ⟨rfl, rfl, rfl, UInt64.le_iff_toNat_le.mp hlong⟩

/-- **The allocator is linearizable**, and nothing is lost by looking at it so: if the file has 17
bytes at least, and so is found again as it was dropped, then the histories of the allocator, over
all interleavings of its atomic operations, are exactly the histories of the allocator whose calls
happen at one instant each. -/
theorem histories_eq_atomic (n : ℕ) (basepath : String) {totalSize : UInt64}
    (hlong : 17 ≤ totalSize) (history : List (Seen n)) :
    (∃ es t, Shown Heap.step Heap.shows (start n basepath totalSize) es history t) ↔
      ∃ es b, Shown Atomic.step Atomic.shows (Atomic.start n totalSize) es history b := by
  constructor
  · rintro ⟨es, t, h⟩
    have hsim : ∃ fs b, Shown Atomic.step Atomic.shows (Atomic.start n totalSize) fs history b ∧
        t.Loadable ∧ t.atomic = b := by
      refine h.simulate (R := fun s a => s.Loadable ∧ s.atomic = a)
        ⟨loadable_start n basepath hlong, rfl⟩ ?_
      rintro s a e t ⟨hload, rfl⟩ hs
      obtain ⟨fs, hfs⟩ := step_refines hload hs
      exact ⟨fs, t.atomic, hfs, hload.step hs, rfl⟩
    obtain ⟨fs, b, hb, -⟩ := hsim
    exact ⟨fs, b, hb⟩
  · rintro ⟨es, b, h⟩
    have hsim : ∃ fs t, Shown Heap.step Heap.shows (start n basepath totalSize) fs history t ∧
        t.Loadable ∧ t.Rests ∧ t.atomic = b := by
      have hrests : (start n basepath totalSize).Rests := by
        intro i size offset hc
        cases hc
      refine h.simulate (R := fun (a : Atomic n) (s : Heap n) =>
        s.Loadable ∧ s.Rests ∧ s.atomic = a)
        ⟨loadable_start n basepath hlong, hrests, rfl⟩ ?_
      rintro a s e b ⟨hload, hrest, rfl⟩ hs
      exact atomic_step_carried hload hrest hs
    obtain ⟨fs, t, ht, -⟩ := hsim
    exact ⟨fs, t, ht⟩

/-- Two threads load the same cursor; the one that loses goes round once more and comes back first,
and the file is dropped and loaded. -/
theorem histories_eq_atomic_race :
    let history : List (Seen 2) := [Seen.called 0 8, Seen.called 1 16, Seen.cameBack 0 ⟨8, some 40⟩,
      Seen.cameBack 1 ⟨16, some 24⟩, Seen.reopened]
    (17 : UInt64) ≤ 1024 ∧
      ∃ es b, Shown Atomic.step Atomic.shows (Atomic.start 2 1024) es history b := by
  intro history
  have hlong : (17 : UInt64) ≤ 1024 := by decide
  obtain ⟨t, ht⟩ : ∃ t, watch step shows (start 2 "data" 1024)
      [Event.allocate 0 8 8, Event.allocate 1 16 8, Event.load 0, Event.load 1,
        Event.compareAndSwap 1, Event.compareAndSwap 0, Event.load 0, Event.compareAndSwap 0,
        Event.finish 0, Event.finish 1, Event.reopen] = some (history, t) := ⟨_, rfl⟩
  exact ⟨hlong, (histories_eq_atomic 2 "data" hlong history).mp ⟨_, t, shown_of_watch ht⟩⟩

/-! ## The loop is lock-free -/

/-- How many threads stand at a place of the kind. -/
def standing (p : Call → Bool) (calls : Fin n → Call) : ℕ :=
  (Finset.univ.filter fun i => p (calls i) = true).card

/-- Between the load and the compare-and-swap. -/
def isLoaded : Call → Bool
  | Call.loaded _ _ => true
  | _ => false

/-- Between the load and a compare-and-swap that is bound to fail. -/
def isStale (current : UInt64) : Call → Bool
  | Call.loaded _ offset => offset != current
  | _ => false

def Event.isLoad : Event n → Bool
  | Event.load _ => true
  | _ => false

def Event.isCompareAndSwap : Event n → Bool
  | Event.compareAndSwap _ => true
  | _ => false

/-- The threads whose compare-and-swap is bound to fail. -/
def stale (s : Heap n) : ℕ := standing (isStale s.file.header.current) s.calls

lemma standing_le (p : Call → Bool) (calls : Fin n → Call) : standing p calls ≤ n := by
  simpa [standing] using (Finset.univ.filter fun i => p (calls i) = true).card_le_univ

/-- One thread moves. -/
lemma standing_update (p : Call → Bool) (calls : Fin n → Call) (i : Fin n) (c : Call) :
    standing p (Function.update calls i c) + (p (calls i)).toNat
      = standing p calls + (p c).toNat := by
  have hsum : ∀ f : Fin n → Call, standing p f
      = (p (f i)).toNat + ∑ j ∈ {i}ᶜ, (p (f j)).toNat := by
    intro f
    rw [standing, Finset.card_filter, Fintype.sum_eq_add_sum_compl i]
    simp [Bool.toNat, Bool.cond_eq_ite]
  have hrest : ∑ j ∈ {i}ᶜ, (p (Function.update calls i c j)).toNat
      = ∑ j ∈ {i}ᶜ, (p (calls j)).toNat := by
    refine Finset.sum_congr rfl fun j hj => ?_
    rw [Function.update_of_ne (by simpa using hj)]
  rw [hsum, hsum calls, hrest, Function.update_self]
  omega

/-- One thread at least stands elsewhere. -/
lemma standing_le_pred {p : Call → Bool} {calls : Fin n → Call} {i : Fin n}
    (h : p (calls i) = false) : standing p calls ≤ n - 1 := by
  have hsub : (Finset.univ.filter fun j => p (calls j) = true) ⊆ Finset.univ.erase i := by
    intro j hj
    have hj' := (Finset.mem_filter.mp hj).2
    refine Finset.mem_erase.mpr ⟨?_, Finset.mem_univ j⟩
    rintro rfl
    rw [h] at hj'
    cases hj'
  simpa [standing] using Finset.card_le_card hsub

/-- A thread that moves without the cursor leaves as many that are bound to fail, less itself. -/
lemma stale_move {i : Fin n} {c : Call} (hfile : t.file.header.current = s.file.header.current)
    (hcalls : t.calls = Function.update s.calls i c)
    (hc : isStale s.file.header.current c = false) :
    t.stale + (isStale s.file.header.current (s.calls i)).toNat = s.stale := by
  have hmove := standing_update (isStale s.file.header.current) s.calls i c
  rw [hc] at hmove
  rw [stale, stale, hfile, hcalls]
  simpa using hmove

lemma stale_setCall {i : Fin n} {c : Call} (hc : isStale s.file.header.current c = false) :
    (s.setCall i c).stale + (isStale s.file.header.current (s.calls i)).toNat = s.stale :=
  stale_move rfl rfl hc

/-- No call is in flight, so none is bound to fail. -/
lemma stale_of_quiet (h : s.Quiet) : s.stale = 0 := by
  simp [stale, standing, h _, isStale]

/-- **What an attempt costs.**  A compare-and-swap that fails uses up one thread that was bound to
fail; only one that succeeds makes new ones, and its own thread is not among them. -/
lemma stale_step {e : Event n} (hs : s.step e = Outcome.ret t) :
    t.stale + e.isCompareAndSwap.toNat + s.won.length * n ≤ s.stale + t.won.length * n := by
  rcases step_cases hs with ⟨i, size, rfl, hc, rfl⟩ | ⟨i, size, rfl, hc, rfl⟩ |
    ⟨i, size, offset, rfl, hc, ⟨heq, rfl⟩ | ⟨hne, rfl⟩⟩ | ⟨i, size, offset, rfl, hc, rfl⟩ |
    ⟨rfl, hquiet, region, hload, rfl⟩
  · have hmove : (s.setCall i (Call.top size)).stale + _ = s.stale := stale_setCall rfl
    exact Nat.add_le_add_right (Nat.le_of_add_right_le hmove.le) _
  · have hmove : (s.setCall i (Call.loaded size s.file.header.current)).stale + _ = s.stale :=
      stale_setCall (by simp [isStale])
    exact Nat.add_le_add_right (Nat.le_of_add_right_le hmove.le) _
  · have hothers : (s.swapped i size offset).stale ≤ n - 1 := by
      refine standing_le_pred (i := i) ?_
      rw [calls_swapped]
      rfl
    have hpos : 0 < n := Nat.lt_of_le_of_lt (Nat.zero_le _) i.isLt
    have hwon : (s.swapped i size offset).won.length = s.won.length + 1 := by
      simp [swapped]
    rw [hwon, Nat.add_mul]
    simp only [Event.isCompareAndSwap, Bool.toNat_true]
    omega
  · have hmove : (s.setCall i (Call.top size)).stale + _ = s.stale := stale_setCall rfl
    have hstale : isStale s.file.header.current (s.calls i) = true := by
      rw [hc]
      simpa [isStale] using Ne.symm hne
    rw [hstale] at hmove
    exact Nat.add_le_add_right hmove.le _
  · obtain ⟨-, hfile, -, hcalls⟩ := finished_eq s i size offset
    have hmove := stale_move (by rw [hfile]) hcalls rfl
    have hwon : (s.finished i size offset).won = s.won := by
      unfold finished
      split_ifs
      · rfl
      · rfl
    rw [hwon]
    simp only [Event.isCompareAndSwap, Bool.toNat_false]
    omega
  · rw [stale_of_quiet (s := s.reopened region) hquiet]
    show 0 + 0 + s.won.length * n ≤ s.stale + s.won.length * n
    omega

/-- The thread that moved last is not bound to fail, so one at least is not. -/
lemma stale_le_pred {es : List (Event n)} {basepath : String} {totalSize : UInt64}
    (h : Reach step anyStep (start n basepath totalSize) es s) : s.stale ≤ n - 1 := by
  refine h.invariant (P := fun s : Heap n => s.stale ≤ n - 1) ?_ ?_
  · have hzero : (start n basepath totalSize).stale = 0 := stale_of_quiet fun _ => rfl
    omega
  · intro s e t hle _ hs
    rcases step_cases hs with ⟨i, size, -, -, rfl⟩ | ⟨i, size, -, -, rfl⟩ |
      ⟨i, size, offset, -, -, ⟨-, rfl⟩ | ⟨-, rfl⟩⟩ | ⟨i, size, offset, -, -, rfl⟩ |
      ⟨-, hquiet, region, -, rfl⟩
    · exact standing_le_pred (i := i) (by rw [calls_setCall]; rfl)
    · exact standing_le_pred (i := i) (by rw [calls_setCall]; simp [isStale, setCall])
    · exact standing_le_pred (i := i) (by rw [calls_swapped]; rfl)
    · exact standing_le_pred (i := i) (by rw [calls_setCall]; rfl)
    · refine standing_le_pred (i := i) ?_
      rw [(finished_eq s i size offset).2.2.2, Function.update_self]
      rfl
    · rw [stale_of_quiet (s := s.reopened region) hquiet]
      exact Nat.zero_le _

/-- Every load but the last of each thread is followed by its compare-and-swap. -/
lemma loaded_step {e : Event n} (hs : s.step e = Outcome.ret t) :
    standing isLoaded t.calls + e.isCompareAndSwap.toNat
      = standing isLoaded s.calls + e.isLoad.toNat := by
  rcases step_cases hs with ⟨i, size, rfl, hc, rfl⟩ | ⟨i, size, rfl, hc, rfl⟩ |
    ⟨i, size, offset, rfl, hc, ⟨-, rfl⟩ | ⟨-, rfl⟩⟩ | ⟨i, size, offset, rfl, hc, rfl⟩ |
    ⟨rfl, -, region, -, rfl⟩
  · have hmove := standing_update isLoaded s.calls i (Call.top size)
    rw [hc] at hmove
    exact hmove
  · have hmove := standing_update isLoaded s.calls i (Call.loaded size s.file.header.current)
    rw [hc] at hmove
    exact hmove
  · have hmove := standing_update isLoaded s.calls i (Call.won size offset)
    rw [hc] at hmove
    exact hmove
  · have hmove := standing_update isLoaded s.calls i (Call.top size)
    rw [hc] at hmove
    exact hmove
  · have hmove := standing_update isLoaded s.calls i Call.idle
    rw [hc] at hmove
    rw [(finished_eq s i size offset).2.2.2]
    exact hmove
  · rfl

/-- Both counts along a run. -/
lemma attempts_run {es : List (Event n)} (h : Reach step anyStep s es t) :
    t.stale + es.countP Event.isCompareAndSwap + s.won.length * n
        ≤ s.stale + t.won.length * n ∧
      standing isLoaded t.calls + es.countP Event.isCompareAndSwap
        = standing isLoaded s.calls + es.countP Event.isLoad := by
  induction h with
  | nil => exact ⟨Nat.le_refl _, rfl⟩
  | @snoc es t u e _ _ hs ih =>
      have hstale := stale_step hs
      have hloaded := loaded_step hs
      obtain ⟨hle, heq⟩ := ih
      rw [List.countP_append, List.countP_append, List.countP_singleton, List.countP_singleton]
      rw [Bool.toNat, Bool.cond_eq_ite] at hstale
      rw [Bool.toNat, Bool.cond_eq_ite, Bool.toNat, Bool.cond_eq_ite] at hloaded
      exact ⟨by omega, by omega⟩

lemma won_length_le {es : List (Event n)} (h : Reach step anyStep s es t) :
    s.won.length ≤ t.won.length := by
  refine h.invariant (P := fun u : Heap n => s.won.length ≤ u.won.length) (Nat.le_refl _) ?_
  intro u e v hle _ hs
  rcases step_cases hs with ⟨i, size, -, -, rfl⟩ | ⟨i, size, -, -, rfl⟩ |
    ⟨i, size, offset, -, -, ⟨-, rfl⟩ | ⟨-, rfl⟩⟩ | ⟨i, size, offset, -, -, rfl⟩ |
    ⟨-, -, region, -, rfl⟩
  · exact hle
  · exact hle
  · simpa [swapped] using Nat.le_succ_of_le hle
  · exact hle
  · rw [finished]
    split_ifs
    · exact hle
    · exact hle
  · exact hle

/-- **The loop is lock-free.**  Take any stretch of any run, with `w` compare-and-swaps in it that
succeed.  Then at most `(n - 1) * (w + 1)` of its compare-and-swaps fail, so that of any `n` in a row
one at least succeeds; and there are at most `n` loads more than compare-and-swaps. -/
theorem attempts_le {basepath : String} {totalSize : UInt64} {es fs : List (Event n)}
    (h : Reach step anyStep (start n basepath totalSize) es s)
    (hfs : Reach step anyStep s fs t) :
    ∃ w, t.won.length = s.won.length + w ∧
      fs.countP Event.isCompareAndSwap ≤ w + (n - 1) * (w + 1) ∧
      fs.countP Event.isLoad ≤ fs.countP Event.isCompareAndSwap + n := by
  obtain ⟨hle, heq⟩ := attempts_run hfs
  have hstale := stale_le_pred h
  have hloaded := standing_le isLoaded t.calls
  obtain ⟨w, hw⟩ := Nat.exists_eq_add_of_le (won_length_le hfs)
  refine ⟨w, hw, ?_, by omega⟩
  rw [hw, Nat.add_mul] at hle
  have hwn : w * n ≤ w + (n - 1) * w := by
    cases n with
    | zero => simp
    | succ m =>
        rw [Nat.add_sub_cancel, Nat.mul_succ, Nat.mul_comm, Nat.add_comm]
  rw [Nat.mul_add, Nat.mul_one]
  omega

/-- Two threads load the same cursor; one wins, and the other one's attempt, all there is in the
stretch, is wasted. -/
theorem attempts_le_two_threads :
    ∃ s t : Heap 2,
      Reach step anyStep (start 2 "data" 4096) [Event.allocate 0 8 8, Event.allocate 1 8 8,
        Event.load 0, Event.load 1, Event.compareAndSwap 0] s ∧
      Reach step anyStep s [Event.compareAndSwap 1] t ∧
      ∃ w, t.won.length = s.won.length + w ∧
        [(Event.compareAndSwap 1 : Event 2)].countP Event.isCompareAndSwap
          ≤ w + (2 - 1) * (w + 1) ∧
        [(Event.compareAndSwap 1 : Event 2)].countP Event.isLoad
          ≤ [(Event.compareAndSwap 1 : Event 2)].countP Event.isCompareAndSwap + 2 := by
  obtain ⟨s, hs⟩ : ∃ s, execute step (fun _ _ => true) (start 2 "data" 4096)
      [Event.allocate 0 8 8, Event.allocate 1 8 8, Event.load 0, Event.load 1,
        Event.compareAndSwap 0] = some s := ⟨_, rfl⟩
  obtain ⟨t, ht⟩ : ∃ t, execute step (fun _ _ => true) s [Event.compareAndSwap 1] = some t := by
    obtain rfl := Option.some.inj hs
    exact ⟨_, rfl⟩
  have h₁ : Reach step anyStep _ _ s := reach_of_execute (fun _ _ _ => trivial) hs
  have h₂ : Reach step anyStep s _ t := reach_of_execute (fun _ _ _ => trivial) ht
  exact ⟨s, t, h₁, h₂, attempts_le h₁ h₂⟩

end Heap

end Rx
