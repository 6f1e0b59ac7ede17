import RxRust.Stream.PipelineRun

/-!
# Stop requests

A terminal subscriber asks for a stop by answering `false`.  The answer travels back up the chain,
and every stage but one hands on the answer it got; `Unzip` hands on two items and ors their
answers.  So a stop is honoured in every chain without an `Unzip`, and with one only as long as no
item comes out of the chain as two.

* `HonoursStop` — after a `false` no `on_next` is delivered and `next` is not called again.
* `Chain.HasUnzip` — the chain has an `Unzip`.
* **`honoursStop_iff`** — for every terminal subscriber the stop is honoured exactly when the chain
  has no `Unzip` or delivers at most one value in all.
-/

namespace Rx

open Core

/-! ## Stops in a record -/

namespace Received

variable {I : Type}

/-- A stop was asked for in the record. -/
def Stopped (rs : List (Received I)) : Prop := ∃ t, next t false ∈ rs

/-- No `on_next` was delivered after a stop was asked for. -/
def QuietAfterStop (rs : List (Received I)) : Prop :=
  ∀ before t after, rs = before ++ next t false :: after → values after = []

lemma Stopped.append {rs qs : List (Received I)} :
    Stopped (rs ++ qs) ↔ Stopped rs ∨ Stopped qs := by
  simp [Stopped, exists_or]

/-- A record in which a stop is asked for at its last value at the earliest is quiet after it. -/
lemma quietAfterStop_append {rs qs : List (Received I)} (hrs : ¬ Stopped rs)
    (hqs : (values qs).length ≤ 1) : QuietAfterStop (rs ++ qs) := by
  intro before t after h
  rcases List.append_eq_append_iff.mp h with ⟨us, rfl, hq⟩ | ⟨us, rfl, hq⟩
  · rw [hq, values_append, values_next, List.length_append, List.length_cons] at hqs
    exact List.length_eq_zero_iff.mp (by omega)
  · cases us with
    | nil =>
        rw [List.nil_append] at hq
        rw [← hq, values_next, List.length_cons] at hqs
        exact List.length_eq_zero_iff.mp (by omega)
    | cons u us =>
        obtain ⟨rfl, -⟩ := List.cons.inj hq
        exact absurd ⟨t, by simp⟩ hrs

lemma QuietAfterStop.tail {r : Received I} {rs : List (Received I)}
    (h : QuietAfterStop (r :: rs)) : QuietAfterStop rs := by
  intro before t after he
  exact h (r :: before) t after (by rw [he]; rfl)

end Received

/-- An item that is wanted and delivers one value at most asks for no stop. -/
lemma not_stopped_of_wants {I : Type} {rs : List (Received I)}
    (hlen : (Received.values rs).length ≤ 1) (h : Observer.wants rs = true) :
    ¬ Received.Stopped rs := by
  have hmem : ∀ {t b} {qs : List (Received I)}, Received.next t b ∈ qs →
      0 < (Received.values qs).length := by
    intro t b qs hq
    exact List.length_pos_of_mem (List.mem_filterMap.mpr ⟨_, hq, rfl⟩)
  induction rs with
  | nil => simp at h
  | cons r rs ih =>
      rintro ⟨t, ht⟩
      cases r with
      | next u b =>
          rw [Received.values_next, List.length_cons] at hlen
          -- the one value is at the head, so it is the one that was answered `true`
          have hnone : ∀ {t b}, Received.next t b ∉ rs := fun hq => by have := hmem hq; omega
          have hwants : Observer.wants rs = false := by
            rw [Observer.wants, List.any_eq_false]
            intro q hq
            cases q with
            | next v c => exact absurd hq hnone
            | complete f => simp
            | error e => simp
          rw [Observer.wants_next, hwants, Bool.or_false] at h
          rcases List.mem_cons.mp ht with heq | hin
          · simp [h] at heq
          · exact hnone hin
      | complete f => exact ih hlen h ⟨t, by simpa using ht⟩
      | error e => exact ih hlen h ⟨t, by simpa using ht⟩

/-! ## What one item delivers -/

namespace Chain

variable {σ : Type} {F : Type → Type} {I O : Type}

/-- The chain has an `Unzip`. -/
def HasUnzip : {σ : Type} → {F : Type → Type} → {I O : Type} → Chain σ F I O → Prop
  | _, _, _, _, nil => False
  | _, _, _, _, cons p rest => p.isUnzip = true ∨ rest.HasUnzip

/-- Without an `Unzip` an item comes out of the chain as one call. -/
lemma step_of_not_hasUnzip {c : Chain σ F I O} (h : ¬ c.HasUnzip) (s : σ) (x : I) :
    ∃ d, (c.transducer.step s (Signal.next x)).2 = [d] := by
  rw [← Transducer.run_singleton]
  induction c with
  | nil => exact ⟨Signal.next x, by rw [transducer, Transducer.run_ident]⟩
  | cons p rest ih =>
      simp only [HasUnzip, not_or, Bool.not_eq_true] at h
      rw [transducer_cons_run, Transducer.run_singleton, Proc.transducer_next]
      by_cases hp : p.OneToOne
      · obtain ⟨y, hy⟩ := hp.push_eq s.1 x
        rw [hy]
        exact ih h.2 s.2 y
      · cases p with
        | unzip => simp [Proc.isUnzip] at h
        | take max =>
            rcases Proc.take_push_cases max s.1 x with hy | hy
            · rw [hy]
              exact ih h.2 s.2 x
            · rw [hy, Transducer.run_singleton, rest.transducer_complete]
              exact ⟨_, rfl⟩
        | _ => exact absurd trivial hp

/-- A chain that delivers two values for a list delivers two for any two items at its front. -/
lemma two_le_of_front {c : Chain σ F I O} {ys zs : List I} (hpre : ys <+: zs)
    (hys : 2 ≤ ys.length) (h : 2 ≤ (c.denote zs).length) : 2 ≤ (c.denote ys).length := by
  induction c with
  | nil => exact hys
  | cons p rest ih =>
      by_cases hp : p.OneToOne
      · exact ih (p.denote_mono hpre) (by rwa [hp.length_denote]) h
      · cases p with
        | unzip =>
            refine ih (Proc.unzip.denote_mono hpre) ?_ h
            simp [Proc.denote, List.length_flatMap]
            omega
        | take max =>
            rcases Nat.lt_or_ge ys.length max.toNat with hlt | hge
            · refine ih ((Proc.take max).denote_mono hpre) ?_ h
              simp only [Proc.denote, List.length_take]
              omega
            · -- the limit lies within the front, so both lists are cut to the same
              have heq : (Proc.take max).denote ys = (Proc.take max).denote zs := by
                obtain ⟨us, rfl⟩ := hpre
                simp only [Proc.denote]
                rw [List.take_append_of_le_length hge]
              simpa only [denote, heq] using h
        | _ => exact absurd trivial hp

/-- With an `Unzip`, a chain that delivers two values at all delivers two for the first item. -/
lemma two_le_of_hasUnzip {c : Chain σ F I O} (hunzip : c.HasUnzip) {x : I} {xs : List I}
    (h : 2 ≤ (c.denote (x :: xs)).length) : 2 ≤ (c.denote [x]).length := by
  induction c with
  | nil => exact hunzip.elim
  | cons p rest ih =>
      by_cases hp : p.OneToOne
      · rcases hunzip with hu | hu
        · rw [hp.isUnzip_eq] at hu
          cases hu
        · obtain ⟨y, zs, h₁, h₂⟩ := hp.denote_cons [] x xs
          have hnil : p.denote [] = [] :=
            List.length_eq_zero_iff.mp (by rw [hp.length_denote]; rfl)
          simp only [List.nil_append, hnil] at h₁ h₂
          simp only [denote, h₁, h₂] at h ⊢
          exact ih hu h
      · cases p with
        | unzip =>
            have hpre : Proc.unzip.denote [x] <+: Proc.unzip.denote (x :: xs) :=
              Proc.unzip.denote_mono ⟨xs, rfl⟩
            exact two_le_of_front (c := rest) hpre (by simp [Proc.denote]) h
        | take max =>
            rcases hunzip with hu | hu
            · simp [Proc.isUnzip] at hu
            · cases hmax : max.toNat with
              | zero => simp [denote, Proc.denote, hmax, denote_nil] at h
              | succ n =>
                  simp only [denote, Proc.denote, hmax, List.take_succ_cons, List.take_nil] at h ⊢
                  exact ih hu h
        | _ => exact absurd trivial hp

end Chain

/-! ## Stops in a run -/

section

variable {σ : Type} {F : Type → Type} {I O T : Type}

/-- The record of the terminal subscriber when `run` is about to call `next` once more, on the
pipeline or on the chain fed by a `Coupler`. -/
def GoesOn (xs : List I) (c : Chain σ F I O) (o : Observer T O) (t : T) (w : Watched T O) : Prop :=
  (∃ k q, runsOn (IterPublisher.next (chainSub c o)) k (pipeline xs c o t) q ∧
      q.subscriber.bind c.terminal = some w) ∨
    ∃ k q, runsOn (Coupler.next (chainSub c o)) k (coupled (Receiver.ofList xs) c o t) q ∧
      q.subscriber.bind c.terminal = some w

/-- Whatever the terminal subscriber, the run ends; in what was delivered no `on_next` follows a
`false`; and whenever `run` calls `next` once more, no stop has been asked for. -/
def HonoursStop (c : Chain σ F I O) (xs : List I) : Prop :=
  ∀ (T : Type) (o : Observer T O) (t : T),
    (∃ w rest, RunEnds xs c o t w rest ∧ CoupledEnds xs c o t w rest ∧
      Received.QuietAfterStop w.seen) ∧
    ∀ w, GoesOn xs c o t w → ¬ Received.Stopped w.seen

/-- What goes on over the channel goes on over the list, and all its items were wanted. -/
lemma GoesOn.seen {xs : List I} {c : Chain σ F I O} {o : Observer T O} {t : T} {w : Watched T O}
    (h : GoesOn xs c o t w) : ∃ a, a <+: xs ∧ AllWanted c o (o.onSubscribe t 0) a ∧
      w.seen = o.answers (o.onSubscribe t 0) (c.calls a) := by
  have hiter : ∃ k q, runsOn (IterPublisher.next (chainSub c o)) k (pipeline xs c o t) q ∧
      q.subscriber.bind c.terminal = some w := by
    rcases h with h | ⟨k, q, hq, hterm⟩
    · exact h
    · rw [coupled_ofList] at hq
      obtain ⟨p, hp, rfl⟩ := Coupler.runsOn_ofIter hq
      exact ⟨k, p, hp, hterm⟩
  obtain ⟨k, q, hq, hterm⟩ := hiter
  obtain ⟨a, b, s, rfl, hall, -, hrec⟩ := runsOn_pipeline xs c o t hq
  rw [hrec] at hterm
  obtain rfl := Option.some.inj hterm
  exact ⟨a, List.prefix_append a b, hall, rfl⟩

/-- Every item of the list comes out of the chain as one value at most. -/
def Single (c : Chain σ F I O) (xs : List I) : Prop :=
  ∀ a x b, xs = a ++ x :: b → (Signal.values (c.callsFor a x)).length ≤ 1

lemma Single.anti {c : Chain σ F I O} {xs ys : List I} (h : Single c ys) (hpre : xs <+: ys) :
    Single c xs := by
  obtain ⟨zs, rfl⟩ := hpre
  intro a x b hxs
  exact h a x (b ++ zs) (by simp [hxs])

lemma single_of_not_hasUnzip {c : Chain σ F I O} (h : ¬ c.HasUnzip) (xs : List I) :
    Single c xs := by
  intro a x b _
  obtain ⟨d, hd⟩ := Chain.step_of_not_hasUnzip h
    (c.transducer.run c.init (a.map Signal.next)).1 x
  rw [Chain.callsFor, hd]
  cases d <;> simp

lemma single_of_length_denote {c : Chain σ F I O} {xs : List I} (hfit : c.Fits xs)
    (h : (c.denote xs).length ≤ 1) : Single c xs := by
  rintro a x b rfl
  have hpre : a ++ [x] <+: a ++ x :: b := ⟨b, by simp⟩
  have hlen := (c.denote_mono hpre).length_le
  rw [← c.values_calls _ (hfit.anti hpre), c.calls_snoc, Signal.values_append,
    List.length_append] at hlen
  omega

/-- If every item delivers one value at most, then as long as all are wanted no stop is asked
for. -/
lemma not_stopped_of_allWanted {c : Chain σ F I O} {o : Observer T O} {t : T} {a : List I}
    (hsingle : Single c a) (ha : AllWanted c o t a) :
    ¬ Received.Stopped (o.answers t (c.calls a)) := by
  induction a using List.reverseRecOn with
  | nil => simp [Chain.calls, Observer.answers, Received.Stopped]
  | append_singleton a x ih =>
      rw [c.calls_snoc, o.answers_append, Received.Stopped.append, not_or]
      refine ⟨ih (hsingle.anti (List.prefix_append a [x])) fun u y v hu =>
        ha u y (v ++ [x]) (by simp [hu]), ?_⟩
      have hlen := hsingle a x [] rfl
      exact not_stopped_of_wants (by simpa using hlen) (ha a x [] rfl)

/-- So the stop is honoured. -/
lemma honoursStop_of_single {c : Chain σ F I O} {xs : List I} (h : Single c xs) :
    HonoursStop c xs := by
  intro T o t
  refine ⟨?_, fun w hw => ?_⟩
  · rcases run_pipeline xs c o t with ⟨hall, hend⟩ | ⟨a, x, b, rfl, hall, -, hend⟩
    · refine ⟨_, _, hend, hend.coupled, ?_⟩
      exact Received.quietAfterStop_append (not_stopped_of_allWanted h hall) (by simp)
    · refine ⟨_, _, hend, hend.coupled, ?_⟩
      have ha := not_stopped_of_allWanted (h.anti (List.prefix_append a (x :: b))) hall
      simp only [c.calls_snoc, o.answers_append]
      refine Received.quietAfterStop_append ha ?_
      rw [Observer.values_answers]
      exact h a x b rfl
  · obtain ⟨a, hpre, hall, hseen⟩ := hw.seen
    rw [hseen]
    exact not_stopped_of_allWanted (h.anti hpre) hall

/-- The terminal subscriber that asks for a stop at every value. -/
def Refuse (O : Type) : Observer Unit O where
  onNext := fun s _ => (s, false)

lemma wants_refuse (s : Unit) (cs : List (Signal O)) :
    Observer.wants ((Refuse O).answers s cs) = false := by
  induction cs generalizing s with
  | nil => rfl
  | cons c cs ih => cases c <;> simpa [Observer.answers, Refuse] using ih _

/-- It is quiet after a stop only if it gets one value at most. -/
lemma length_values_of_quiet (s : Unit) {cs : List (Signal O)}
    (h : Received.QuietAfterStop ((Refuse O).answers s cs)) : (Signal.values cs).length ≤ 1 := by
  induction cs generalizing s with
  | nil => simp
  | cons c cs ih =>
      cases c with
      | next t =>
          have hafter := h [] t ((Refuse O).answers () cs) rfl
          rw [Observer.values_answers] at hafter
          simp [hafter]
      | complete f => exact ih s h.tail
      | error e => exact ih s h.tail

/-- Refusing the first item ends the run, with the calls of that item in the record. -/
lemma quiet_refuse {c : Chain σ F I O} {x : I} {xs : List I} (h : HonoursStop c (x :: xs)) :
    Received.QuietAfterStop ((Refuse O).answers () (c.calls [x])) := by
  have hrefused : ∀ a y, ¬ Wanted c (Refuse O) () a y := by
    intro a y
    rw [Wanted, wants_refuse]
    simp
  obtain ⟨⟨w, rest, hend, -, hquiet⟩, -⟩ := h Unit (Refuse O) ()
  rcases run_pipeline (x :: xs) c (Refuse O) () with
    ⟨hall, -⟩ | ⟨a, y, b, hxs, hall, -, hend'⟩
  · exact absurd (hall [] x xs rfl) (hrefused _ _)
  · cases a with
    | nil =>
        obtain ⟨rfl, -⟩ := hend.unique hend'
        obtain ⟨rfl, -⟩ := List.cons.inj hxs
        exact hquiet
    | cons z zs => exact absurd (hall [] z zs rfl) (hrefused _ _)

/-- **Stop requests.**  In a chain without an `Unzip` a stop is honoured for every input and every
terminal subscriber.  In any chain it is honoured for every terminal subscriber exactly when there
is no `Unzip` or the chain's list function of the input has at most one value. -/
theorem honoursStop_iff (c : Chain σ F I O) (xs : List I) :
    (¬ c.HasUnzip → HonoursStop c xs) ∧
      (c.Fits xs → (HonoursStop c xs ↔ ¬ c.HasUnzip ∨ (c.denote xs).length ≤ 1)) := by
  refine ⟨fun h => honoursStop_of_single (single_of_not_hasUnzip h xs), fun hfit =>
    ⟨fun hstop => ?_, fun h => ?_⟩⟩
  · by_contra hcon
    simp only [not_or, not_not, Nat.not_le] at hcon
    obtain ⟨hunzip, hlen⟩ := hcon
    cases xs with
    | nil => simp [c.denote_nil] at hlen
    | cons x xs =>
        have hfirst := Chain.two_le_of_hasUnzip hunzip hlen
        have hone := length_values_of_quiet () (quiet_refuse hstop)
        rw [c.values_calls _ (hfit.anti ⟨xs, rfl⟩)] at hone
        omega
  · rcases h with h | h
    · exact honoursStop_of_single (single_of_not_hasUnzip h xs)
    · exact honoursStop_of_single (single_of_length_denote hfit h)

/-- A pair through an `Unzip`: the second half is delivered after the first was refused. -/
theorem unzip_ignores_stop :
    ¬ HonoursStop (Chain.cons (Proc.unzip (I := ℕ)) Chain.nil) [(1, 2)] := by
  intro h
  have hquiet := quiet_refuse h
  exact absurd (hquiet [] 1 [Received.next 2 false] rfl) (by simp)

/-- Only one of the four numbers gets through `Take(1)`, so there every stop is honoured. -/
theorem honoursStop_pair :
    let c := Chain.cons (Proc.unzip (I := ℕ)) (Chain.cons (Proc.take 1) Chain.nil)
    c.Fits [(1, 2), (3, 4)] ∧ HonoursStop c [(1, 2), (3, 4)] := by
  intro c
  have hfit : c.Fits [(1, 2), (3, 4)] := by
    refine ⟨trivial, ?_, trivial⟩
    simp [Proc.Fits, Proc.denote]
  refine ⟨hfit, ((honoursStop_iff c _).2 hfit).mpr (Or.inr ?_)⟩
  simp [c, Chain.denote, Proc.denote]

end

end Rx
