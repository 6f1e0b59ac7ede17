import Mathlib.Data.List.Infix
import RxRust.Stream.PipelineRun

/-!
# The stream grammar

A terminal subscriber should receive `on_next*`, then at most one `on_complete`, and nothing after
it. Completion is raised by the source and by every `Take` that is given one item too many; what
keeps it single is that a `Take` answers `false` at the same moment and the run ends.  `Unzip`
breaks this: its answer is the or of two, so a `Take` below it may complete and the run go on, or be
given the second half of the pair after it has completed on the first.

* `Signal.Grammatical` — the grammar.
* `Chain.TakeBelow` — some `Take` stands below an `Unzip`; without one the grammar always holds.
* `Chain.Overfed` — some `Take` below an `Unzip` is given more items than it takes.
* **`keepsGrammar_iff`** — the grammar holds for every terminal subscriber exactly when no `Take`
  below an `Unzip` is overfed.
-/

namespace Rx

open Core

/-- `on_next*`, then at most one `on_complete`, then nothing. -/
def Signal.Grammatical {I : Type} : List (Signal I) → Prop
  | [] => True
  | Signal.next _ :: cs => Signal.Grammatical cs
  | Signal.complete _ :: cs => cs = []
  | Signal.error _ :: _ => False

namespace Signal

variable {I : Type}

lemma grammatical_map_next (xs : List I) (cs : List (Signal I)) :
    Grammatical (xs.map next ++ cs) ↔ Grammatical cs := by
  induction xs with
  | nil => rfl
  | cons x xs ih => simpa [Grammatical] using ih

/-- After something that is not an `on_next` the grammar allows nothing. -/
lemma Grammatical.left_isNext {cs ds : List (Signal I)} (h : Grammatical (cs ++ ds))
    (hds : ds ≠ []) : ∀ c ∈ cs, c.isNext = true := by
  induction cs with
  | nil => simp
  | cons c cs ih =>
      cases c with
      | next t =>
          intro d hd
          rcases List.mem_cons.mp hd with rfl | hd
          · rfl
          · exact ih h d hd
      | complete f =>
          have hnil : cs ++ ds = [] := h
          exact absurd (List.append_eq_nil_iff.mp hnil).2 hds
      | error e => exact h.elim

lemma Grammatical.right {cs ds : List (Signal I)} (h : Grammatical (cs ++ ds)) :
    Grammatical ds := by
  induction cs with
  | nil => exact h
  | cons c cs ih =>
      cases c with
      | next t => exact ih h
      | complete f =>
          have hnil : cs ++ ds = [] := h
          rw [(List.append_eq_nil_iff.mp hnil).2]
          trivial
      | error e => exact h.elim

/-- The only grammatical list without values is a single completion, or nothing. -/
lemma Grammatical.eq_complete {cs : List (Signal I)} (h : Grammatical cs) (hne : cs ≠ [])
    (hvals : values cs = []) : ∃ f, cs = [complete f] := by
  cases cs with
  | nil => exact absurd rfl hne
  | cons c cs =>
      cases c with
      | next t => simp at hvals
      | complete f =>
          have hnil : cs = [] := h
          exact ⟨f, by rw [hnil]⟩
      | error e => exact h.elim

end Signal

/-! ## Takes below an unzip -/

namespace Proc

variable {σ : Type} {N : Type → Type} {I O : Type}

/-- What the processor hands on, of a list, before it completes.  This is its list function, but for
the `Take` with the largest limit there is: its counter wraps before it exceeds that limit, so it
hands on everything and never completes. -/
def relay : Proc σ N I O → List I → List O
  | take max, xs => if max.toNat + 1 < 2 ^ 64 then xs.take max.toNat else xs
  | p, xs => p.denote xs

/-- The processor is a `Take` below an `Unzip`, and the list has an item for it to complete on. -/
def Overfed : Proc σ N I O → (below : Bool) → List I → Prop
  | take max, below, xs => below = true ∧ max.toNat + 1 < 2 ^ 64 ∧ max.toNat < xs.length
  | _, _, _ => False

lemma relay_eq_denote {p : Proc σ N I O} (h : p.isTake = false) (xs : List I) :
    p.relay xs = p.denote xs := by
  cases p with
  | take max => simp [isTake] at h
  | _ => rfl

lemma fits_of_isTake_eq_false {p : Proc σ N I O} (h : p.isTake = false) (xs : List I) :
    p.Fits xs := by
  cases p with
  | take max => simp [isTake] at h
  | _ => trivial

lemma relay_mono (p : Proc σ N I O) {xs ys : List I} (h : xs <+: ys) :
    p.relay xs <+: p.relay ys := by
  cases hp : p.isTake with
  | false =>
      rw [relay_eq_denote hp, relay_eq_denote hp]
      exact p.denote_mono h
  | true =>
      cases p with
      | take max =>
          simp only [relay]
          split_ifs
          · exact h.take _
          · exact h
      | _ => simp [isTake] at hp

lemma Overfed.mono {p : Proc σ N I O} {below : Bool} {xs ys : List I}
    (h : p.Overfed below xs) (hpre : xs <+: ys) : p.Overfed below ys := by
  cases p with
  | take max => exact ⟨h.1, h.2.1, Nat.lt_of_lt_of_le h.2.2 hpre.length_le⟩
  | _ => exact h

/-- An `on_next` makes the processor do something downstream. -/
lemma push_ne_nil (p : Proc σ N I O) (s : σ) (t : I) : (p.push s t).2 ≠ [] := by
  cases p with
  | take max =>
      obtain ⟨count, notified⟩ := s
      simp only [push]
      split_ifs <;> simp
  | _ => simp [push]

/-- Once it completes, the limit is reached and no later item is relayed. -/
lemma take_relay_of_complete {max : UInt64} {a : List I} {x : I} {b : List I}
    (h : ((take (I := I) max).push
        ((take (I := I) max).transducer.run (take (I := I) max).init (a.map Signal.next)).1 x).2
      = [Signal.complete false]) :
    (take (I := I) max).relay (a ++ x :: b) = (take (I := I) max).relay a := by
  have hmax : max.toNat + 1 < 2 ^ 64 := by
    by_contra hmax
    simp [take_push_of_largest hmax] at h
  have hle : max.toNat ≤ a.length := by
    by_contra hlt
    rw [init, take_push_of_lt x (by simp; omega)] at h
    simp at h
  simp only [relay, if_pos hmax]
  rw [List.take_append_of_le_length hle]

/-- One item more than the limit, and a `Take` has completed. -/
lemma take_complete_mem {max : UInt64} {cs : List (Signal I)} (hmax : max.toNat + 1 < 2 ^ 64)
    (h : max.toNat < (Signal.values cs).length) :
    Signal.complete false ∈ ((take (I := I) max).transducer.run (0, false) cs).2 := by
  induction cs using List.reverseRecOn with
  | nil => simp at h
  | append_singleton cs c ih =>
      rw [Transducer.run_append]
      rcases Nat.lt_or_ge max.toNat (Signal.values cs).length with hlt | hge
      · exact List.mem_append_left _ (ih hlt)
      · -- the last call was the item too many
        refine List.mem_append_right _ ?_
        simp only [Signal.values_append, List.length_append] at h
        cases c with
        | next t =>
            simp only [Signal.values_next, Signal.values_nil, List.length_singleton] at h
            rw [Transducer.run_singleton, transducer_next, take_push_of_eq t hmax (by omega)]
            simp
        | complete f => simp at h; omega
        | error e => simp at h; omega

/-- As long as a processor hands on values only, they are what it relays. -/
lemma run_eq_relay {p : Proc σ N I O} {a : List I}
    (h : ∀ d ∈ (p.transducer.run p.init (a.map Signal.next)).2, d.isNext = true) :
    (p.transducer.run p.init (a.map Signal.next)).2 = (p.relay a).map Signal.next := by
  cases hp : p.isTake with
  | false =>
      rw [Signal.eq_map_next_of_forall_isNext h, p.values_run _ (fits_of_isTake_eq_false hp _),
        relay_eq_denote hp, Signal.values_map_next]
  | true =>
      cases p with
      | take max =>
          have hle : max.toNat + 1 < 2 ^ 64 → a.length ≤ max.toNat := by
            intro hmax
            by_contra hgt
            have hlen : max.toNat < (Signal.values (a.map Signal.next)).length := by
              rw [Signal.values_map_next]
              omega
            exact absurd (h _ (take_complete_mem hmax hlen)) (by simp [Signal.isNext])
          rw [init, take_run_map_next hle, relay]
          split_ifs with hmax
          · rw [List.take_of_length_le (hle hmax)]
          · rfl
      | _ => simp [isTake] at hp

/-- What a processor relays is the beginning of the values it hands on: a counter that wraps only
adds to them. -/
lemma relay_prefix_values (p : Proc σ N I O) (cs : List (Signal I)) :
    p.relay (Signal.values cs) <+: Signal.values (p.transducer.run p.init cs).2 := by
  cases hp : p.isTake with
  | false =>
      rw [relay_eq_denote hp, p.values_run cs (fits_of_isTake_eq_false hp _)]
  | true =>
      cases p with
      | take max =>
          by_cases hmax : max.toNat + 1 < 2 ^ 64
          · simp only [relay, if_pos hmax, init]
            induction cs using List.reverseRecOn with
            | nil => simp
            | append_singleton cs c ih =>
                rcases Nat.lt_or_ge (Signal.values cs).length max.toNat with hlt | hge
                · -- still within the limit, so the counter has not wrapped
                  have hfit : (take max).Fits (Signal.values (cs ++ [c])) := by
                    have hlen : (Signal.values (cs ++ [c])).length ≤ max.toNat := by
                      cases c <;> simp <;> omega
                    exact Nat.lt_of_le_of_lt hlen max.toNat_lt
                  have hvals := (take (I := I) max).values_run (cs ++ [c]) hfit
                  rw [init] at hvals
                  rw [hvals]
                  exact List.prefix_rfl
                · rw [Signal.values_append, List.take_append_of_le_length hge,
                    Transducer.run_append, Signal.values_append]
                  exact ih.trans (List.prefix_append _ _)
          · simp only [relay, if_neg hmax]
            rw [values_run_of_push (g := fun t => [t])
              (fun s t => by rw [take_push_of_largest hmax]; rfl)]
            simp
      | _ => simp [isTake] at hp

end Proc

namespace Chain

variable {σ τ : Type} {N F : Type → Type} {I O R T : Type}

/-- Some `Take` of the chain stands below an `Unzip`; `below` says that one stands above the
chain. -/
def TakeBelow : {σ : Type} → {F : Type → Type} → {I O : Type} → Chain σ F I O → Bool → Prop
  | _, _, _, _, nil, _ => False
  | _, _, _, _, cons p rest, below =>
      (below = true ∧ p.isTake = true) ∨ rest.TakeBelow (below || p.isUnzip)

/-- Some `Take` below an `Unzip` is given more items than it takes. -/
def Overfed : {σ : Type} → {F : Type → Type} → {I O : Type} → Chain σ F I O → Bool → List I → Prop
  | _, _, _, _, nil, _, _ => False
  | _, _, _, _, cons p rest, below, xs =>
      p.Overfed below xs ∨ rest.Overfed (below || p.isUnzip) (p.relay xs)

lemma Overfed.mono {c : Chain σ F I O} {below : Bool} {xs ys : List I}
    (h : c.Overfed below xs) (hpre : xs <+: ys) : c.Overfed below ys := by
  induction c generalizing below with
  | nil => exact h
  | cons p rest ih =>
      rcases h with h | h
      · exact Or.inl (h.mono hpre)
      · exact Or.inr (ih h (p.relay_mono hpre))

/-- Only a chain with a `Take` below an `Unzip` can be overfed. -/
lemma Overfed.takeBelow {c : Chain σ F I O} {below : Bool} {xs : List I}
    (h : c.Overfed below xs) : c.TakeBelow below := by
  induction c generalizing below with
  | nil => exact h
  | cons p rest ih =>
      rcases h with h | h
      · refine Or.inl ?_
        cases p with
        | take max => exact ⟨h.1, rfl⟩
        | _ => exact h.elim
      · exact Or.inr (ih h)

/-! ## Completions go through -/

/-- A completion that comes in goes out. -/
lemma complete_mem_run (c : Chain σ F I O) (s : σ) {cs : List (Signal I)} {f : Bool}
    (h : Signal.complete f ∈ cs) : Signal.complete f ∈ (c.transducer.run s cs).2 := by
  obtain ⟨l₁, l₂, rfl⟩ := List.append_of_mem h
  rw [Transducer.run_append, Transducer.run_cons, c.transducer_complete]
  simp

/-- So a chain whose calls are all `on_next` was given nothing but `on_next`. -/
lemma isNext_of_run (c : Chain σ F I O) (s : σ) {cs : List (Signal I)}
    (h : ∀ d ∈ (c.transducer.run s cs).2, d.isNext = true) : ∀ d ∈ cs, d.isNext = true := by
  intro d hd
  cases d with
  | next t => rfl
  | complete f => exact h _ (c.complete_mem_run s hd)
  | error e =>
      obtain ⟨l₁, l₂, rfl⟩ := List.append_of_mem hd
      refine h (Signal.error e) ?_
      rw [Transducer.run_append, Transducer.run_cons, c.transducer_error]
      simp

/-- An `on_next` reaches the terminal subscriber as one call at least. -/
lemma run_ne_nil (c : Chain σ F I O) (s : σ) {cs : List (Signal I)} (h : cs ≠ []) :
    (c.transducer.run s cs).2 ≠ [] := by
  induction c with
  | nil => rwa [transducer, Transducer.run_ident]
  | cons p rest ih =>
      rw [transducer_cons_run]
      refine ih s.2 ?_
      cases cs with
      | nil => exact absurd rfl h
      | cons c cs =>
          rw [Transducer.run_cons]
          cases c with
          | next t => simpa using fun h' => absurd h' (p.push_ne_nil s.1 t)
          | complete f => simp
          | error e => simp

lemma length_le_length_run (c : Chain σ F I O) (s : σ) (cs : List (Signal I)) :
    cs.length ≤ (c.transducer.run s cs).2.length := by
  induction cs generalizing s with
  | nil => simp
  | cons d cs ih =>
      rw [Transducer.run_cons, List.length_append, List.length_cons]
      have h₁ : (c.transducer.step s d).2 ≠ [] := by
        rw [← Transducer.run_singleton]
        exact c.run_ne_nil s (by simp)
      have h₂ := List.length_pos_iff.mpr h₁
      have h₃ := ih (c.transducer.step s d).1
      omega

/-! ## What overfeeding does

The facts below follow one item through the chain, after items that reached the terminal subscriber
as values only. -/

/-- Nothing but values came out: then the first stage has relayed the items, and nothing but values
comes out of the rest for what it relayed. -/
lemma calls_cons_of_isNext {p : Proc σ N I O} {rest : Chain τ F O R} {a : List I}
    (h : ∀ d ∈ (cons p rest).calls a, d.isNext = true) :
    (p.transducer.run p.init (a.map Signal.next)).2 = (p.relay a).map Signal.next ∧
      ∀ d ∈ rest.calls (p.relay a), d.isNext = true := by
  have hcalls : (cons p rest).calls a
      = (rest.transducer.run rest.init (p.transducer.run p.init (a.map Signal.next)).2).2 := by
    rw [calls, transducer_cons_run]
    rfl
  rw [hcalls] at h
  have hhead := Proc.run_eq_relay (rest.isNext_of_run rest.init h)
  rw [hhead] at h
  exact ⟨hhead, h⟩

/-- The calls for one more item, seen from below the first stage. -/
lemma callsFor_cons {p : Proc σ N I O} {rest : Chain τ F O R} {a : List I} (x : I)
    (ha : (p.transducer.run p.init (a.map Signal.next)).2 = (p.relay a).map Signal.next) :
    (cons p rest).callsFor a x
      = (rest.transducer.run (rest.transducer.run rest.init ((p.relay a).map Signal.next)).1
          (p.push (p.transducer.run p.init (a.map Signal.next)).1 x).2).2 := by
  rw [callsFor, ← Transducer.run_singleton, transducer_cons_run, transducer_cons_run, ← ha]
  simp [init]

/-- One value from the first stage is one more item for the rest of the chain. -/
lemma callsFor_cons_of_push {p : Proc σ N I O} {rest : Chain τ F O R} {a : List I} {x : I} {y : O}
    (ha : (p.transducer.run p.init (a.map Signal.next)).2 = (p.relay a).map Signal.next)
    (hy : (p.push (p.transducer.run p.init (a.map Signal.next)).1 x).2 = [Signal.next y]) :
    (cons p rest).callsFor a x = rest.callsFor (p.relay a) y := by
  rw [callsFor_cons x ha, hy, Transducer.run_singleton]
  rfl

/-- And the first stage relays that value after the others. -/
lemma relay_snoc_of_push {p : Proc σ N I O} {a : List I} {x : I} {y : O}
    (ha : (p.transducer.run p.init (a.map Signal.next)).2 = (p.relay a).map Signal.next)
    (hy : (p.push (p.transducer.run p.init (a.map Signal.next)).1 x).2 = [Signal.next y]) :
    p.relay (a ++ [x]) = p.relay a ++ [y] := by
  have hrun : (p.transducer.run p.init ((a ++ [x]).map Signal.next)).2
      = (p.relay a ++ [y]).map Signal.next := by
    rw [List.map_append, Transducer.run_append, ha]
    simp [hy]
  have hnext : ∀ d ∈ (p.transducer.run p.init ((a ++ [x]).map Signal.next)).2,
      d.isNext = true := by
    rw [hrun]
    exact fun d hd => Signal.isNext_of_mem_map_next hd
  have h := congrArg Signal.values ((Proc.run_eq_relay hnext).symm.trans hrun)
  simpa only [Signal.values_map_next] using h

/-- Without an overfed `Take`, a chain below an `Unzip` makes no call but `on_next`. -/
lemma calls_isNext_of_not_overfed {c : Chain σ F I O} {ys : List I} (h : ¬ c.Overfed true ys) :
    ∀ d ∈ c.calls ys, d.isNext = true := by
  induction c with
  | nil =>
      rw [calls, transducer, Transducer.run_ident]
      exact fun d hd => Signal.isNext_of_mem_map_next hd
  | cons p rest ih =>
      simp only [Overfed, Bool.true_or, not_or] at h
      have hhead : (p.transducer.run p.init (ys.map Signal.next)).2
          = (p.relay ys).map Signal.next := by
        refine Proc.run_eq_relay ?_
        cases hp : p.isTake with
        | false => exact Proc.run_isNext hp p.init fun d hd => Signal.isNext_of_mem_map_next hd
        | true =>
            cases p with
            | take max =>
                rw [Proc.init, Proc.take_run_map_next fun hmax => by
                  by_contra hgt
                  exact h.1 ⟨rfl, hmax, by omega⟩]
                exact fun d hd => Signal.isNext_of_mem_map_next hd
            | _ => simp [Proc.isTake] at hp
      have hrest := ih h.2
      rw [calls, transducer_cons_run]
      rwa [init, hhead]

/-- Without an overfed `Take`, after items that reached the terminal subscriber as values only, one
more item reaches it as values only or as one completion. -/
lemma callsFor_cases_of_not_overfed {c : Chain σ F I O} {a : List I} {x : I}
    (h : ¬ c.Overfed false (a ++ [x])) (ha : ∀ d ∈ c.calls a, d.isNext = true) :
    (∀ d ∈ c.callsFor a x, d.isNext = true) ∨ c.callsFor a x = [Signal.complete false] := by
  induction c with
  | nil => left; simp [callsFor, transducer, Transducer.ident, Signal.isNext]
  | cons p rest ih =>
      obtain ⟨hhead, hrest⟩ := calls_cons_of_isNext ha
      -- one value from the first stage: the rest of the chain is asked about it
      have one : ∀ y, (p.push (p.transducer.run p.init (a.map Signal.next)).1 x).2
            = [Signal.next y] → p.isUnzip = false →
          (∀ d ∈ (cons p rest).callsFor a x, d.isNext = true) ∨
            (cons p rest).callsFor a x = [Signal.complete false] := by
        intro y hy hu
        rw [callsFor_cons_of_push hhead hy]
        refine ih (fun h' => h (Or.inr ?_)) hrest
        rw [relay_snoc_of_push hhead hy, hu]
        exact h'
      by_cases hp : p.OneToOne
      · obtain ⟨y, hy⟩ := hp.push_eq (p.transducer.run p.init (a.map Signal.next)).1 x
        exact one y hy hp.isUnzip_eq
      · cases p with
        | unzip =>
            left
            have hall := calls_isNext_of_not_overfed (fun h' => h (Or.inr h'))
            have hrelay : Proc.unzip.relay (a ++ [x]) = Proc.unzip.relay a ++ [x.1, x.2] := by
              simp [Proc.relay, Proc.denote]
            rw [hrelay, calls, List.map_append, Transducer.run_append] at hall
            rw [callsFor_cons x hhead]
            exact fun d hd => hall d (List.mem_append_right _ hd)
        | take max =>
            rcases Proc.take_push_cases max
                ((Proc.take max).transducer.run (Proc.take max).init (a.map Signal.next)).1 x
              with hy | hy
            · exact one x hy rfl
            · right
              rw [callsFor_cons x hhead, hy, Transducer.run_singleton, rest.transducer_complete]
        | _ => exact absurd trivial hp

/-- An overfed `Take` completes. -/
lemma complete_mem_of_overfed {c : Chain σ F I O} {below : Bool} {cs : List (Signal I)}
    (h : c.Overfed below (Signal.values cs)) :
    Signal.complete false ∈ (c.transducer.run c.init cs).2 := by
  induction c generalizing below with
  | nil => exact h.elim
  | cons p rest ih =>
      rw [transducer_cons_run]
      rcases h with h | h
      · refine rest.complete_mem_run _ ?_
        cases p with
        | take max => exact Proc.take_complete_mem h.2.1 h.2.2
        | _ => exact h.elim
      · exact ih (h.mono (p.relay_prefix_values cs))

/-- If one more item gave nothing but one completion, the `Take` that completed stands above every
`Unzip`, so what a `Take` below one would be given later it has been given already. -/
lemma overfed_of_callsFor_complete {c : Chain σ F I O} {a : List I} {x : I} {b : List I} {f : Bool}
    (ha : ∀ d ∈ c.calls a, d.isNext = true) (hx : c.callsFor a x = [Signal.complete f])
    (h : c.Overfed false (a ++ x :: b)) : c.Overfed false a := by
  induction c with
  | nil => exact h.elim
  | cons p rest ih =>
      obtain ⟨hhead, hrest⟩ := calls_cons_of_isNext ha
      rcases h with h | h
      · cases p with
        | take max => exact absurd h.1 (by simp)
        | _ => exact h.elim
      · right
        by_cases hp : p.OneToOne
        · rw [hp.isUnzip_eq] at h ⊢
          obtain ⟨y, hy⟩ := hp.push_eq (p.transducer.run p.init (a.map Signal.next)).1 x
          obtain ⟨y', zs, h₁, h₂⟩ := hp.denote_cons a x b
          rw [← Proc.relay_eq_denote hp.isTake_eq, ← Proc.relay_eq_denote hp.isTake_eq] at h₁ h₂
          have hsnoc := relay_snoc_of_push hhead hy
          obtain rfl : y = y' := by simpa using List.append_cancel_left (hsnoc.symm.trans h₁)
          rw [callsFor_cons_of_push hhead hy] at hx
          exact ih hrest hx (h₂ ▸ h)
        · cases p with
          | unzip =>
              -- a pair makes two calls at least
              rw [callsFor_cons x hhead] at hx
              have hlen := congrArg List.length hx
              have hle := rest.length_le_length_run _ _ |>.trans_eq hlen
              simp [Proc.push] at hle
          | take max =>
              rcases Proc.take_push_cases max
                  ((Proc.take max).transducer.run (Proc.take max).init (a.map Signal.next)).1 x
                with hy | hy
              · -- handed on: the limit lies further on
                have hsnoc := relay_snoc_of_push hhead hy
                rw [callsFor_cons_of_push hhead hy] at hx
                obtain ⟨zs, hzs⟩ := (Proc.take (I := _) max).relay_mono
                  (show a ++ [x] <+: a ++ x :: b from ⟨b, by simp⟩)
                rw [hsnoc, List.append_assoc] at hzs
                exact ih hrest hx (hzs ▸ h)
              · rwa [Proc.take_relay_of_complete hy] at h
          | _ => exact absurd trivial hp

end Chain

/-! ## The grammar in a run -/

section

variable {σ : Type} {F : Type → Type} {I O T : Type}

/-- Whatever the terminal subscriber, the run of the pipeline ends, so does that of the chain fed by
a `Coupler`, and the calls the terminal subscriber got keep to the grammar. -/
def KeepsGrammar (c : Chain σ F I O) (xs : List I) : Prop :=
  ∀ (T : Type) (o : Observer T O) (t : T), ∃ (w : Watched T O) (rest : List I),
    RunEnds xs c o t w rest ∧ CoupledEnds xs c o t w rest ∧
      Signal.Grammatical (w.seen.map Received.signal)

lemma KeepsGrammar.grammatical {c : Chain σ F I O} {xs : List I} (h : KeepsGrammar c xs)
    {o : Observer T O} {t : T} {w : Watched T O} {rest : List I} (hend : RunEnds xs c o t w rest) :
    Signal.Grammatical (w.seen.map Received.signal) := by
  obtain ⟨w', rest', hend', -, hgram⟩ := h T o t
  obtain ⟨rfl, -⟩ := hend.unique hend'
  exact hgram

/-- Items that are all wanted reach the terminal subscriber as values only, unless a `Take` is
overfed: an item that only completes is not wanted. -/
lemma calls_isNext_of_allWanted {c : Chain σ F I O} {o : Observer T O} {t : T} {a : List I}
    (h : ¬ c.Overfed false a) (ha : AllWanted c o t a) : ∀ d ∈ c.calls a, d.isNext = true := by
  induction a using List.reverseRecOn with
  | nil => simp [Chain.calls]
  | append_singleton a x ih =>
      have hprev : ∀ d ∈ c.calls a, d.isNext = true := by
        refine ih (fun h' => h (h'.mono (List.prefix_append a [x]))) ?_
        intro u y v hu
        exact ha u y (v ++ [x]) (by simp [hu])
      have hx : Wanted c o t a x := ha a x [] rfl
      rw [c.calls_snoc]
      intro d hd
      rcases List.mem_append.mp hd with hd | hd
      · exact hprev d hd
      · rcases Chain.callsFor_cases_of_not_overfed h hprev with hcase | hcase
        · exact hcase d hd
        · rw [Wanted, hcase, Observer.wants_eq_false_of_values_nil (by simp)] at hx
          cases hx

/-- If a `Take` below an `Unzip` is overfed, `Collect` sees it complete and the run go on: it never
stops the run itself. -/
lemma KeepsGrammar.not_overfed {c : Chain σ F I O} {xs : List I} (hkeeps : KeepsGrammar c xs) :
    ¬ c.Overfed false xs := by
  intro hover
  rcases run_pipeline xs c (Collect O) [] with ⟨-, hend⟩ | ⟨a, x, b, rfl, -, hx, hend⟩
  · have hgram := hkeeps.grammatical hend
    have hmem : Signal.complete false ∈ c.calls xs :=
      Chain.complete_mem_of_overfed (by simpa using hover)
    rw [List.map_append, Observer.signal_answers] at hgram
    exact absurd (hgram.left_isNext (by simp) _ hmem) (by simp [Signal.isNext])
  · have hgram := hkeeps.grammatical hend
    rw [Observer.signal_answers, c.calls_snoc] at hgram
    have hne : c.callsFor a x ≠ [] := by
      rw [Chain.callsFor, ← Transducer.run_singleton]
      exact c.run_ne_nil _ (by simp)
    have ha := hgram.left_isNext hne
    have hvals : Signal.values (c.callsFor a x) = [] := by
      by_contra hne
      exact hx ((Observer.wants_eq_true_iff (collect_alwaysTrue O) _ _).mpr hne)
    obtain ⟨f, hf⟩ := hgram.right.eq_complete hne hvals
    have hbefore := Chain.overfed_of_callsFor_complete ha hf hover
    have hmem : Signal.complete false ∈ c.calls a :=
      Chain.complete_mem_of_overfed (by simpa using hbefore)
    exact absurd (ha _ hmem) (by simp [Signal.isNext])

/-- If none is, every item is handed on as values or, the last one, as a completion. -/
lemma keepsGrammar_of_not_overfed {c : Chain σ F I O} {xs : List I} (h : ¬ c.Overfed false xs) :
    KeepsGrammar c xs := by
  intro T o t
  rcases run_pipeline xs c o t with ⟨hall, hend⟩ | ⟨a, x, b, rfl, hall, hx, hend⟩
  · refine ⟨_, _, hend, hend.coupled, ?_⟩
    have hcalls := Signal.eq_map_next_of_forall_isNext (calls_isNext_of_allWanted h hall)
    rw [List.map_append, Observer.signal_answers, hcalls, Signal.grammatical_map_next]
    rfl
  · refine ⟨_, _, hend, hend.coupled, ?_⟩
    have hax : ¬ c.Overfed false (a ++ [x]) := fun h' => h (h'.mono ⟨b, by simp⟩)
    have ha := calls_isNext_of_allWanted
      (fun h' => hax (h'.mono (List.prefix_append a [x]))) hall
    rw [Observer.signal_answers, c.calls_snoc, Signal.eq_map_next_of_forall_isNext ha,
      Signal.grammatical_map_next]
    rcases Chain.callsFor_cases_of_not_overfed hax ha with hcase | hcase
    · rw [Signal.eq_map_next_of_forall_isNext hcase]
      simpa [Signal.Grammatical] using Signal.grammatical_map_next _ []
    · rw [hcase]
      rfl

/-- A chain without a `Take` below an `Unzip` keeps to the grammar on every input. -/
theorem keepsGrammar_of_not_takeBelow {c : Chain σ F I O} (h : ¬ c.TakeBelow false) (xs : List I) :
    KeepsGrammar c xs := by
  refine keepsGrammar_of_not_overfed ?_
  intro hover
  exact h hover.takeBelow

/-- **The stream grammar.**  For every chain and every input the terminal subscriber, whichever it
is, gets `on_next*`, at most one `on_complete` and nothing more, exactly when no `Take` below an
`Unzip` is given an item beyond its limit. -/
theorem keepsGrammar_iff (c : Chain σ F I O) (xs : List I) :
    KeepsGrammar c xs ↔ ¬ c.Overfed false xs :=
  ⟨KeepsGrammar.not_overfed, keepsGrammar_of_not_overfed⟩

/-- Two items of a pair through `Take(1)`: the `Take` completes on the second, the `Unzip` answers
`true` for the first, and the source completes too. -/
theorem take_below_unzip_completes_twice :
    ¬ KeepsGrammar (Chain.cons (Proc.unzip (I := ℕ)) (Chain.cons (Proc.take 1) Chain.nil))
      [(1, 2)] := by
  intro h
  have hend : RunEnds [(1, 2)]
      (Chain.cons (Proc.unzip (I := ℕ)) (Chain.cons (Proc.take 1) Chain.nil)) (Collect ℕ) []
      ⟨[1], [Received.next 1 true, Received.complete false, Received.complete false]⟩ [] := by
    refine ⟨2, ⟨[], some ⟨some ⟨some ⟨[1], [Received.next 1 true, Received.complete false,
      Received.complete false]⟩, some 0, 2, 1, true⟩, some 0⟩⟩, fun fuel hfuel => ?_, rfl, rfl⟩
    obtain ⟨n, rfl⟩ : ∃ n, fuel = n + 2 := ⟨fuel - 2, by omega⟩
    rfl
  have hgram := h.grammatical hend
  exact absurd hgram (by simp [Signal.Grammatical, Received.signal])

end

end Rx
