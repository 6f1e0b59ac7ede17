import Mathlib.Algebra.Group.Nat.Defs
import RxRust.Core.Outcome

/-!
# Buffers of the reactor

The part of the `iobuf` crate that `reactor.rs` and `protocol.rs` use, as far as the code relies on
it. Lengths in `iobuf` are 32-bit, and the structures say so.

* `AROIobuf` — a read-only view of the bytes of some buffer, which starts `lo` bytes after the
  buffer's beginning; it can be split and advanced.
* `AppendBuf` — a buffer that is filled from its beginning; what is not filled yet is its window.
* `StreamBuf` — a message with its address.  `owner` is the socket the sender meant, which no code
  reads: the address is the token.
-/

namespace Rx

open Core

/-- The number of a slot in one of the engine's slabs. -/
abbrev Token := ℕ

/-! ## Views -/

/-- A view of bytes that start at `lo` in their buffer. -/
structure AROIobuf where
  lo : ℕ
  window : List UInt8
  small : window.length < 2 ^ 32

namespace AROIobuf

def len (self : AROIobuf) : ℕ := self.window.length

/-- `split_at`: the first `n` bytes and the rest. -/
def splitAt (self : AROIobuf) (n : ℕ) : Option (AROIobuf × AROIobuf) :=
  if n ≤ self.len then
    some (⟨self.lo, self.window.take n, by
        have := self.small
        rw [List.length_take]
        omega⟩,
      ⟨self.lo + n, self.window.drop n, by
        have := self.small
        rw [List.length_drop]
        omega⟩)
  else none

/-- `advance` -/
def advance (self : AROIobuf) (n : ℕ) : Option AROIobuf := (self.splitAt n).map Prod.snd

lemma splitAt_eq {self : AROIobuf} {n : ℕ} (h : n ≤ self.len) :
    ∃ a b, self.splitAt n = some (a, b) ∧ a.window = self.window.take n ∧
      b.window = self.window.drop n ∧ b.lo = self.lo + n := by
  refine ⟨_, _, if_pos h, rfl, rfl, rfl⟩

lemma advance_eq {self : AROIobuf} {n : ℕ} (h : n ≤ self.len) :
    ∃ b, self.advance n = some b ∧ b.window = self.window.drop n := by
  obtain ⟨a, b, hs, -, hb, -⟩ := splitAt_eq h
  exact ⟨b, by rw [advance, hs]; rfl, hb⟩

end AROIobuf

/-! ## Read buffers -/

/-- A buffer of `cap` bytes, of which `bytes` have been filled. -/
structure AppendBuf where
  cap : ℕ
  bytes : List UInt8
  small : cap < 2 ^ 32
  fits : bytes.length ≤ cap

namespace AppendBuf

/-- `AppendBuf::new` -/
def new (sz : ℕ) (h : sz < 2 ^ 32) : AppendBuf := ⟨sz, [], h, Nat.zero_le _⟩

/-- `len`: the room that is left. -/
def len (self : AppendBuf) : ℕ := self.cap - self.bytes.length

/-- `fill`: writes at the start of the window and advances it; without the room it does nothing. -/
def fill (self : AppendBuf) (src : List UInt8) : AppendBuf :=
  if h : src.length ≤ self.len then
    { self with
      bytes := self.bytes ++ src
      fits := by
        have := self.fits
        rw [len] at h
        rw [List.length_append]
        omega }
  else self

/-- `atomic_slice_pos_from_begin`: the `n` bytes that start `pos` bytes after the beginning. -/
def atomicSlicePosFromBegin (self : AppendBuf) (pos n : ℕ) : Option AROIobuf :=
  if pos + n ≤ self.bytes.length then
    some ⟨pos, (self.bytes.drop pos).take n, by
      have h₁ := self.small
      have h₂ := self.fits
      simp only [List.length_take, List.length_drop]
      omega⟩
  else none

lemma fill_bytes {self : AppendBuf} {src : List UInt8} (h : src.length ≤ self.len) :
    (self.fill src).bytes = self.bytes ++ src := by
  rw [fill, dif_pos h]

lemma fill_cap (self : AppendBuf) (src : List UInt8) : (self.fill src).cap = self.cap := by
  rw [fill]
  split <;> rfl

/-- Within what has been filled there is a view. -/
lemma atomicSlicePosFromBegin_eq {self : AppendBuf} {pos n : ℕ} (h : pos + n ≤ self.bytes.length) :
    ∃ a, self.atomicSlicePosFromBegin pos n = some a ∧ a.window = (self.bytes.drop pos).take n :=
  ⟨_, if_pos h, rfl⟩

end AppendBuf

/-! ## Messages -/

/-- `StreamBuf`, with the socket its sender meant. -/
structure StreamBuf where
  buf : AROIobuf
  tok : Token
  owner : ℕ

namespace StreamBuf

def remaining (self : StreamBuf) : ℕ := self.buf.len

def bytes (self : StreamBuf) : List UInt8 := self.buf.window

/-- `Buf::advance`: `cnt as u32`, and an `unwrap`. -/
def advance (self : StreamBuf) (cnt : ℕ) : Outcome StreamBuf :=
  match self.buf.advance (cnt % 2 ^ 32) with
  | some buf => pure { self with buf := buf }
  | none => Outcome.panic "called `Result::unwrap()` on an `Err` value"

/-- An advance by no more than what remains drops that many bytes. -/
lemma advance_eq {self : StreamBuf} {cnt : ℕ} (h : cnt ≤ self.remaining) :
    ∃ msg, self.advance cnt = Outcome.ret msg ∧ msg.bytes = self.bytes.drop cnt ∧
      msg.tok = self.tok ∧ msg.owner = self.owner := by
  have hlt : cnt < 2 ^ 32 := Nat.lt_of_le_of_lt h self.buf.small
  obtain ⟨b, hb, hw⟩ := AROIobuf.advance_eq h
  refine ⟨{ self with buf := b }, ?_, hw, rfl, rfl⟩
  rw [advance, Nat.mod_eq_of_lt hlt, hb]
  rfl

end StreamBuf

end Rx
