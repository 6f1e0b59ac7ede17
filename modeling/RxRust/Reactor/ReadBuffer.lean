import Mathlib.Data.List.Induction
import RxRust.Core.Chunks
import RxRust.Core.Transducer

/-!
# The read buffer of a framed connection

What `readable` does with the bytes of one connection, without the engine around it.  The bytes
behind the marker wait for the rest of their frame.  A read of `n` bytes is decoded as a view of `n`
bytes that starts at the marker: the view is as long as the read, although the bytes that waited are
in it too, so as many bytes at the end of the buffer are left out.  When the buffer is nearly full,
what is left of the *view* moves to a new buffer, and the bytes that were left out are gone.

* `reader` — this machine, for a buffer of `room` bytes that is replaced when fewer than `low` are
  free, and frames of `size` bytes.
* `KeepsUp` — no read that replaces the buffer leaves out bytes that a later frame needs.
* `reader_iff` — the machine finds the frames of every stream that arrives in reads of the lengths
  `ns` exactly when the remainders of the lengths do not add up to a frame and `KeepsUp` holds.
-/

namespace Rx

open Core

/-- The bytes from the marker on, and how many bytes the buffer holds. -/
structure Reader where
  pend : List UInt8
  filled : ℕ

section Machine

variable (room low size : ℕ)

/-- One read. -/
def reader : Transducer Reader (List UInt8) (List UInt8) where
  step := fun r data =>
    let view := (r.pend ++ data).take data.length
    let eaten := data.length / size * size
    (if room - (r.filled + data.length) < low then ⟨view.drop eaten, data.length % size⟩
      else ⟨(r.pend ++ data).drop eaten, r.filled + data.length⟩,
      frames size view)

/-- How many bytes the buffer holds after reads of these lengths. -/
def filledAfter (ns : List ℕ) : ℕ :=
  ns.foldl (fun f n => if room - (f + n) < low then n % size else f + n) 0

/-- After the reads `xs`, a read of `n` bytes replaces the buffer. -/
def RollsOver (xs : List ℕ) (n : ℕ) : Prop := room - (filledAfter room low size xs + n) < low

instance (xs : List ℕ) (n : ℕ) : Decidable (RollsOver room low size xs n) :=
  inferInstanceAs (Decidable (_ < _))

/-- Every read fits into what is free. -/
def Fits (ns : List ℕ) : Prop :=
  ∀ xs n ys, ns = xs ++ n :: ys → n ≤ room - filledAfter room low size xs

/-- Nothing waits whenever the buffer is replaced. -/
def Kept (ns : List ℕ) : Prop :=
  ∀ xs n ys, ns = xs ++ n :: ys → RollsOver room low size xs n → ∀ x ∈ xs, size ∣ x

/-- Whenever the buffer is replaced, nothing waits or no later read brings a whole frame. -/
def KeepsUp (ns : List ℕ) : Prop :=
  ∀ xs n ys, ns = xs ++ n :: ys → RollsOver room low size xs n →
    (∀ x ∈ xs, size ∣ x) ∨ ∀ y ∈ ys, y < size

end Machine

variable {room low size : ℕ}

/-! ## One read -/

/-- A view is as long as the read. -/
lemma length_view (pend data : List UInt8) :
    ((pend ++ data).take data.length).length = data.length := by
  rw [List.length_take, List.length_append]
  omega

/-- A read makes one frame for each whole frame of its length. -/
lemma reader_step_length (r : Reader) (data : List UInt8) :
    ((reader room low size).step r data).2.length = data.length / size := by
  simp only [reader, length_frames, length_view]

/-- All that comes out are whole frames. -/
lemma reader_run_size (r : Reader) (ds : List (List UInt8)) :
    ∀ f ∈ ((reader room low size).run r ds).2, f.length = size := by
  induction ds generalizing r with
  | nil => simp
  | cons data ds ih =>
      intro f hf
      rw [Transducer.run_cons] at hf
      rcases List.mem_append.mp hf with hf | hf
      · exact length_of_mem_frames hf
      · exact ih _ f hf

/-- A read that replaces the buffer. -/
lemma reader_step_rolls {r : Reader} {data : List UInt8}
    (h : room - (r.filled + data.length) < low) :
    ((reader room low size).step r data).1
      = ⟨((r.pend ++ data).take data.length).drop (data.length / size * size),
          data.length % size⟩ := by
  simp only [reader, if_pos h]

/-- A read that does not. -/
lemma reader_step_stays {r : Reader} {data : List UInt8}
    (h : ¬ room - (r.filled + data.length) < low) :
    ((reader room low size).step r data).1
      = ⟨(r.pend ++ data).drop (data.length / size * size), r.filled + data.length⟩ := by
  simp only [reader, if_neg h]

section Step

variable {r : Reader} {stream data : List UInt8} {a : ℕ}

/-- If what waits is the end of the stream from `a` on, a read brings the next frames of it. -/
lemma reader_step_frames (hsize : 0 < size) (hpend : r.pend = stream.drop a)
    (ha : a ≤ stream.length) (hdvd : size ∣ a) :
    frames size (stream.take a) ++ ((reader room low size).step r data).2
      = frames size ((stream ++ data).take (a + data.length / size * size)) := by
  have hcat : r.pend ++ data = (stream ++ data).drop a := by
    rw [hpend, List.drop_append_of_le_length ha]
  have hlen : (stream.take a).length = a := by rw [List.length_take, Nat.min_eq_left ha]
  have hview := length_view r.pend data
  have hle : data.length / size * size ≤ data.length := Nat.div_mul_le_self _ _
  have hout : ((reader room low size).step r data).2
      = frames size (((stream ++ data).drop a).take (data.length / size * size)) := by
    have hstep : ((reader room low size).step r data).2
        = frames size ((r.pend ++ data).take data.length) := rfl
    rw [hstep, ← frames_take hsize, hview, List.take_take, Nat.min_eq_left hle, hcat]
  rw [hout, List.take_add, List.take_append_of_le_length ha,
    frames_append hsize (by rw [hlen]; exact hdvd)]

/-- What waits after it is the end of the stream again, unless the buffer was replaced while
something waited. -/
lemma reader_step_pend (hpend : r.pend = stream.drop a) (ha : a ≤ stream.length)
    (hkeep : room - (r.filled + data.length) < low → a = stream.length) :
    ((reader room low size).step r data).1.pend
      = (stream ++ data).drop (a + data.length / size * size) := by
  have hcat : r.pend ++ data = (stream ++ data).drop a := by
    rw [hpend, List.drop_append_of_le_length ha]
  by_cases h : room - (r.filled + data.length) < low
  · rw [reader_step_rolls h, hpend, hkeep h, List.drop_length, List.nil_append, List.take_length,
      List.drop_append]
    simp
  · rw [reader_step_stays h, hcat, List.drop_drop]

end Step

/-! ## All the reads -/

/-- The state and the output after reads from the beginning. -/
lemma filled_run (ds : List (List UInt8)) :
    ((reader room low size).run ⟨[], 0⟩ ds).1.filled
      = filledAfter room low size (ds.map List.length) := by
  induction ds using List.reverseRecOn with
  | nil => rfl
  | append_singleton ds d ih =>
      rw [Transducer.run_append, Transducer.run_singleton, List.map_append, filledAfter,
        List.foldl_append, ← filledAfter, ← ih]
      by_cases h : room - (((reader room low size).run ⟨[], 0⟩ ds).1.filled + d.length) < low
      · simp [reader_step_rolls h, h]
      · simp [reader_step_stays h, h]

/-- Every read makes the whole frames of its own length. -/
lemma length_run (r : Reader) (ds : List (List UInt8)) :
    ((reader room low size).run r ds).2.length * size = whole size (ds.map List.length) := by
  induction ds generalizing r with
  | nil => simp
  | cons d ds ih =>
      rw [Transducer.run_cons, List.length_append, Nat.add_mul, ih, reader_step_length]
      simp [whole]

/-- Reads that bring no whole frame make none. -/
lemma run_short (r : Reader) {ds : List (List UInt8)} (h : ∀ d ∈ ds, d.length < size) :
    ((reader room low size).run r ds).2 = [] := by
  induction ds generalizing r with
  | nil => rfl
  | cons d ds ih =>
      have hd : d.length / size = 0 := Nat.div_eq_of_lt (h d List.mem_cons_self)
      have hstep : ((reader room low size).step r d).2 = [] :=
        List.length_eq_zero_iff.mp ((reader_step_length r d).trans hd)
      rw [Transducer.run_cons, hstep, ih _ fun d' hd' => h d' (List.mem_cons_of_mem d hd')]
      rfl

/-- Bytes that have been read. -/
lemma whole_le_flatten (size : ℕ) (ds : List (List UInt8)) :
    whole size (ds.map List.length) ≤ ds.flatten.length := by
  have hsum := sum_eq_whole_add size (ds.map List.length)
  rw [List.length_flatten]
  omega

lemma Kept.init {ns : List ℕ} {n : ℕ} (h : Kept room low size (ns ++ [n])) :
    Kept room low size ns := by
  intro xs k ys hns
  exact h xs k (ys ++ [n]) (by rw [hns]; simp)

/-- As long as nothing waits when the buffer is replaced, the machine has written the frames of what
it counts as eaten, and what waits is the rest of the stream. -/
lemma run_kept (hsize : 0 < size) {ds : List (List UInt8)}
    (h : Kept room low size (ds.map List.length)) :
    ((reader room low size).run ⟨[], 0⟩ ds).2
        = frames size (ds.flatten.take (whole size (ds.map List.length))) ∧
      ((reader room low size).run ⟨[], 0⟩ ds).1.pend
        = ds.flatten.drop (whole size (ds.map List.length)) := by
  induction ds using List.reverseRecOn with
  | nil => exact ⟨(frames_short hsize).symm, rfl⟩
  | append_singleton ds d ih =>
      rw [List.map_append] at h
      obtain ⟨hout, hpend⟩ := ih h.init
      have hle := whole_le_flatten size ds
      have hkeep : room - (((reader room low size).run ⟨[], 0⟩ ds).1.filled + d.length) < low →
          whole size (ds.map List.length) = ds.flatten.length := by
        intro hroll
        rw [filled_run] at hroll
        rw [List.length_flatten]
        exact (whole_eq_sum_iff _ _).mpr (h _ _ [] rfl hroll)
      rw [Transducer.run_append, Transducer.run_singleton, List.flatten_append, List.map_append,
        whole_append, hout]
      simp only [List.map_cons, List.map_nil, whole_singleton, List.flatten_cons, List.flatten_nil,
        List.append_nil]
      exact ⟨reader_step_frames hsize hpend hle (dvd_whole _ _), reader_step_pend hpend hle hkeep⟩

/-- The first time that something waits when the buffer is replaced. -/
lemma exists_first_loss {ns : List ℕ} (h : ¬ Kept room low size ns) :
    ∃ xs n ys, ns = xs ++ n :: ys ∧ Kept room low size xs ∧ RollsOver room low size xs n ∧
      ¬ ∀ x ∈ xs, size ∣ x := by
  induction ns using List.reverseRecOn with
  | nil =>
      refine absurd ?_ h
      intro xs n ys hns
      simp at hns
  | append_singleton ns k ih =>
      by_cases hkept : Kept room low size ns
      · rw [Kept] at h
        push Not at h
        obtain ⟨xs, n, ys, hns, hroll, x, hx, hdvd⟩ := h
        rcases List.eq_nil_or_concat ys with rfl | ⟨ys, y, rfl⟩
        · obtain ⟨rfl, hk⟩ := List.append_inj' hns rfl
          obtain rfl : k = n := by simpa using hk
          exact ⟨ns, k, [], rfl, hkept, hroll, fun hall => hdvd (hall x hx)⟩
        · rw [List.concat_eq_append, ← List.cons_append, ← List.append_assoc] at hns
          obtain ⟨hns, -⟩ := List.append_inj' hns rfl
          exact absurd (hkept xs n ys hns hroll x hx) hdvd
      · obtain ⟨xs, n, ys, rfl, hxs, hroll, hloss⟩ := ih hkept
        exact ⟨xs, n, ys ++ [k], by simp, hxs, hroll, hloss⟩

/-! ## When the frames come out right -/

/-- Up to the first loss, and with the read that causes it, the frames are right. -/
lemma run_first_loss (hsize : 0 < size) {ds : List (List UInt8)} {d : List UInt8}
    (h : Kept room low size (ds.map List.length)) :
    ((reader room low size).run ⟨[], 0⟩ (ds ++ [d])).2
      = frames size ((ds.flatten ++ d).take (whole size (ds.map List.length ++ [d.length]))) := by
  obtain ⟨hout, hpend⟩ := run_kept hsize h
  rw [Transducer.run_append, Transducer.run_singleton, hout, whole_append, whole_singleton]
  exact reader_step_frames hsize hpend (whole_le_flatten size ds) (dvd_whole _ _)

/-- The condition is enough: the machine has written the frames of what it counts as eaten. -/
lemma run_keepsUp (hsize : 0 < size) {ds : List (List UInt8)}
    (h : KeepsUp room low size (ds.map List.length)) :
    ((reader room low size).run ⟨[], 0⟩ ds).2
      = frames size (ds.flatten.take (whole size (ds.map List.length))) := by
  by_cases hkept : Kept room low size (ds.map List.length)
  · exact (run_kept hsize hkept).1
  · obtain ⟨xs, n, ys, hns, hxs, hroll, hloss⟩ := exists_first_loss hkept
    have hshort := (h xs n ys hns hroll).resolve_left hloss
    obtain ⟨as, bs, rfl, rfl, hbs⟩ := List.map_eq_append_iff.mp hns
    obtain ⟨d, es, rfl, rfl, rfl⟩ := List.map_eq_cons_iff.mp hbs
    have hes : ∀ e ∈ es, e.length < size := fun e he => hshort _ (List.mem_map_of_mem he)
    have hlen : whole size (as.map List.length ++ [d.length]) ≤ (as.flatten ++ d).length := by
      simpa using whole_le_flatten size (as ++ [d])
    have hcat : as ++ d :: es = (as ++ [d]) ++ es := by simp
    have hwhole : whole size ((as ++ d :: es).map List.length)
        = whole size (as.map List.length ++ [d.length]) := by
      rw [hcat, List.map_append, whole_append, whole_short hshort]
      simp
    have hflat : ((as ++ [d]) ++ es).flatten = (as.flatten ++ d) ++ es.flatten := by simp
    rw [hwhole, hcat, hflat, Transducer.run_append, run_short _ hes, List.append_nil,
      run_first_loss hsize hxs, List.take_append_of_le_length hlen]

/-- After a loss the machine has forgotten the last bytes of the stream: it is in a state that only
the bytes before them decide. -/
lemma run_forgets (hsize : 0 < size) {as : List (List UInt8)} {d stream : List UInt8}
    (hstream : as.flatten ++ d = stream) (hkept : Kept room low size (as.map List.length))
    (hroll : RollsOver room low size (as.map List.length) d.length) :
    (reader room low size).run ⟨[], 0⟩ (as ++ [d])
      = (⟨((stream.take (whole size (as.map List.length) + d.length)).drop
            (whole size (as.map List.length))).drop (d.length / size * size), d.length % size⟩,
          frames size (stream.take (whole size (as.map List.length ++ [d.length])))) := by
  obtain ⟨-, hpend⟩ := run_kept hsize hkept
  rw [RollsOver, ← filled_run] at hroll
  refine Prod.ext ?_ (hstream ▸ run_first_loss hsize hkept)
  rw [Transducer.run_append, Transducer.run_singleton]
  rw [reader_step_rolls hroll, hpend, ← List.drop_append_of_le_length (whole_le_flatten size as),
    hstream, List.take_drop]

/-- A stream of `n + 1` bytes, all zero but the last. -/
def lastByte (n : ℕ) (b : UInt8) : List UInt8 := List.replicate n 0 ++ [b]

lemma length_lastByte (n : ℕ) (b : UInt8) : (lastByte n b).length = n + 1 := by
  simp [lastByte]

lemma take_lastByte {n k : ℕ} (b : UInt8) (h : k ≤ n) :
    (lastByte n b).take k = List.replicate k 0 := by
  rw [lastByte, List.take_append_of_le_length (by simpa using h), List.take_replicate,
    Nat.min_eq_left h]

/-- If the stream is lost at `n`, what the machine writes does not depend on the last byte before
the loss. -/
lemma run_lastByte (hsize : 0 < size) {xs : List ℕ} (ys : List ℕ) {n l : ℕ}
    (hkept : Kept room low size xs) (hroll : RollsOver room low size xs n)
    (hwhole : whole size xs < xs.sum) (hl : xs.sum + n = l + 1) :
    ∃ out, ∀ b, ∃ ds : List (List UInt8), ds.map List.length = xs ++ n :: ys ∧
      ds.flatten = lastByte l b ++ List.replicate ys.sum 0 ∧
      ((reader room low size).run ⟨[], 0⟩ ds).2 = out := by
  refine ⟨frames size (List.replicate (whole size (xs ++ [n])) 0) ++
    ((reader room low size).run
      ⟨((List.replicate (whole size xs + n) 0).drop (whole size xs)).drop (n / size * size),
        n % size⟩ (cut ys (List.replicate ys.sum 0))).2, fun b => ?_⟩
  have hlen := length_lastByte l b
  have htake : ((lastByte l b).take xs.sum).length = xs.sum := by
    rw [List.length_take, hlen]
    omega
  have hdrop : ((lastByte l b).drop xs.sum).length = n := by
    rw [List.length_drop, hlen]
    omega
  have has := cut_lengths htake
  have hes : (List.replicate ys.sum (0 : UInt8)).length = ys.sum := by simp
  have hstream : (cut xs ((lastByte l b).take xs.sum)).flatten ++ (lastByte l b).drop xs.sum
      = lastByte l b := by
    rw [cut_flatten htake, List.take_append_drop]
  refine ⟨cut xs ((lastByte l b).take xs.sum) ++ (lastByte l b).drop xs.sum ::
    cut ys (List.replicate ys.sum 0), ?_, ?_, ?_⟩
  · rw [List.map_append, List.map_cons, has, hdrop, cut_lengths hes]
  · rw [List.flatten_append, List.flatten_cons, cut_flatten hes, ← List.append_assoc, hstream]
  · have hn : whole size xs + n ≤ l := by omega
    have heaten : whole size (xs ++ [n]) ≤ l := by
      have := Nat.div_mul_le_self n size
      rw [whole_append, whole_singleton]
      omega
    have hrun := run_forgets hsize hstream (by rwa [has]) (by rwa [has, hdrop])
    rw [has, hdrop, take_lastByte b hn, take_lastByte b heaten] at hrun
    rw [← List.singleton_append, ← List.append_assoc, Transducer.run_append, hrun]

/-- After a loss no read may make a frame: two streams that differ in the last byte before the loss
would give the same frames. -/
lemma short_after_loss (hsize : 0 < size) {xs ys : List ℕ} {n : ℕ} (hkept : Kept room low size xs)
    (hroll : RollsOver room low size xs n) (hloss : ¬ ∀ x ∈ xs, size ∣ x)
    (hrest : ((xs ++ n :: ys).map fun k => k % size).sum < size)
    (hall : ∀ ds : List (List UInt8), ds.map List.length = xs ++ n :: ys →
      ((reader room low size).run ⟨[], 0⟩ ds).2 = frames size ds.flatten) :
    ∀ y ∈ ys, y < size := by
  have hwhole : whole size xs < xs.sum := by
    have hne : whole size xs ≠ xs.sum := fun h => hloss ((whole_eq_sum_iff size xs).mp h)
    have := sum_eq_whole_add size xs
    omega
  obtain ⟨l, hl⟩ : ∃ l, xs.sum + n = l + 1 := ⟨xs.sum + n - 1, by omega⟩
  obtain ⟨out, hout⟩ := run_lastByte hsize ys hkept hroll hwhole hl
  intro y hy
  by_contra hge
  -- the last byte before the loss lies in a frame
  have hreach : l + 1 ≤ (xs ++ n :: ys).sum / size * size := by
    rw [(sum_div_eq_whole_iff hsize _).mpr hrest]
    have h₁ := sum_eq_whole_add size (xs ++ n :: ys)
    have h₂ := sum_eq_whole_add size ys
    have h₃ := le_whole hsize hy (Nat.le_of_not_lt hge)
    simp only [List.sum_append, List.sum_cons] at h₁
    omega
  have hframes : ∀ b, (lastByte l b ++ List.replicate ys.sum 0).take (l + 1)
      = out.flatten.take (l + 1) := by
    intro b
    obtain ⟨ds, hds, hflat, hrun⟩ := hout b
    have hlen : ds.flatten.length = (xs ++ n :: ys).sum := by rw [List.length_flatten, hds]
    rw [← hrun, hall ds hds, flatten_frames hsize, hlen, List.take_take, Nat.min_eq_left hreach,
      hflat]
  have hbyte : ∀ b, (lastByte l b ++ List.replicate ys.sum 0).take (l + 1) = lastByte l b := by
    intro b
    rw [List.take_append_of_le_length (Nat.le_of_eq (length_lastByte l b).symm),
      List.take_of_length_le (Nat.le_of_eq (length_lastByte l b))]
  have heq : lastByte l 0 = lastByte l 1 := by
    rw [← hbyte 0, ← hbyte 1, hframes 0, hframes 1]
  simp [lastByte] at heq

/-- Only the first loss matters. -/
lemma keepsUp_of_first_loss {xs ys : List ℕ} {n : ℕ} (hkept : Kept room low size xs)
    (hshort : ∀ y ∈ ys, y < size) : KeepsUp room low size (xs ++ n :: ys) := by
  intro xs' n' ys' hns hroll
  rcases List.append_eq_append_iff.mp hns with ⟨as, rfl, has⟩ | ⟨as, rfl, has⟩
  · refine Or.inr fun y hy => hshort y ?_
    cases as with
    | nil => simp_all
    | cons a as => simp_all
  · cases as with
    | nil => exact Or.inr fun y hy => hshort y (by simp_all)
    | cons a as =>
        obtain ⟨rfl, -⟩ := List.cons.inj has
        exact Or.inl (hkept xs' n' as rfl hroll)

/-- **When frames are found.**  The machine finds the frames of every stream that arrives in reads
of the lengths `ns` exactly when the remainders of the lengths do not add up to a frame, and no
bytes that wait when the buffer is replaced are missed later. -/
theorem reader_iff (hsize : 0 < size) (ns : List ℕ) :
    (∀ ds : List (List UInt8), ds.map List.length = ns →
      ((reader room low size).run ⟨[], 0⟩ ds).2 = frames size ds.flatten) ↔
    (ns.map fun n => n % size).sum < size ∧ KeepsUp room low size ns := by
  constructor
  · intro hall
    have hrest : (ns.map fun n => n % size).sum < size := by
      have hlen : (cut ns (List.replicate ns.sum (0 : UInt8))).map List.length = ns :=
        cut_lengths (by simp)
      have hcount : ((reader room low size).run _ _).2.length * size = _ :=
        length_run ⟨[], 0⟩ (cut ns (List.replicate ns.sum 0))
      rw [hall _ hlen, length_frames, List.length_flatten, hlen] at hcount
      exact (sum_div_eq_whole_iff hsize ns).mp hcount
    refine ⟨hrest, ?_⟩
    by_cases hkept : Kept room low size ns
    · intro xs n ys hns hroll
      exact Or.inl (hkept xs n ys hns hroll)
    · obtain ⟨xs, n, ys, rfl, hxs, hroll, hloss⟩ := exists_first_loss hkept
      exact keepsUp_of_first_loss hxs (short_after_loss hsize hxs hroll hloss hrest hall)
  · rintro ⟨hrest, hkeeps⟩ ds rfl
    rw [run_keepsUp hsize hkeeps, ← (sum_div_eq_whole_iff hsize _).mpr hrest,
      ← List.length_flatten, frames_take hsize]

end Rx
