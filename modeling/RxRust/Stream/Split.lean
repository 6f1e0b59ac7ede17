import RxRust.Core.Interact
import RxRust.Core.Runs
import RxRust.Stream.PipelineRun

/-!
# A pipeline split over a channel

`IterPublisher(xs); P; Decoupler(tx)` on one thread and `Coupler(rx); C; Collect` on another, with
the channel between them.  The producer's code is the same as everywhere, run in the monad
`Sending`, where a `send` is a request: the thread stops there and goes on when the channel answers.
The consumer's steps are calls of `next` or `try_next`, in any mix.

The channel is unbounded or has a bound; a full channel delays the sender, and a sender whose
receiver is gone gets its message back.  The receiver is kept until the consumer has answered
`false`.

* `Split.State`, `Split.step` — the two threads and the channel, one event at a time.
* `Split.Inv` — the messages received and those in the queue are together the beginning of `P`'s
  list function of the input, and the consumer has collected `C`'s list function of the messages
  received.
* **`split_collects`** — what the consumer has collected is always a prefix of what the unsplit
  pipeline collects, and all of it once the producer is gone and a consumer step has answered
  `false`.
-/

namespace Rx

open Core

/-- Code that sends messages of type `M`: it stops at every `send` and gets a `Result` back. -/
abbrev Sending (M : Type) : Type → Type := Interact M (Except M Unit)

/-- The sending end of a channel as the code that holds it sees it. -/
def channelTx (M : Type) : Sendable (Sending M) Unit M where
  send := fun tx a => Interact.ask a fun r => Interact.ret (tx, r)

/-- `Decoupler(tx)` -/
abbrev decoupler (M : Type) : Subscriber (Sending M) (Decoupler Unit) M :=
  Decoupler.subscriber (channelTx M)

/-- Send the values of a list; the answer is `true` when the channel took one of them. -/
def sendAll {M : Type} : List M → Bool → Sending M (Decoupler Unit × Bool)
  | [], b => Interact.ret (⟨()⟩, b)
  | v :: vs, b => Interact.ask v fun r => sendAll vs (b || r.isOk)

lemma decoupler_onNext {M : Type} (d : Decoupler Unit) (t : M) :
    (decoupler M).onNext d t = Interact.ask t fun r => Interact.ret (d, r.isOk) := by
  refine congrArg (Interact.ask t) (funext fun r => ?_)
  cases r <;> rfl

/-- A list of calls on a `Decoupler` sends the values among them. -/
lemma feed_decoupler {M : Type} (d : Decoupler Unit) (cs : List (Signal M)) (b : Bool) :
    (fun r => (r.1, b || r.2)) <$> (decoupler M).feed d cs = sendAll (Signal.values cs) b := by
  induction cs generalizing b with
  | nil => simp [Subscriber.feed, sendAll]
  | cons c cs ih =>
      cases c with
      | next t =>
          rw [Subscriber.feed, decoupler_onNext, Interact.ask_bind, Interact.map_ask,
            Signal.values_next, sendAll]
          refine congrArg (Interact.ask t) (funext fun r => ?_)
          rw [← ih]
          simp [Bool.or_assoc, map_eq_pure_bind]
      | complete f =>
          have hdone : (decoupler M).onComplete d f = Interact.ret d := rfl
          simpa [Subscriber.feed, hdone] using ih b
      | error e =>
          have hdone : (decoupler M).onError d e = Interact.ret d := rfl
          simpa [Subscriber.feed, hdone] using ih b

namespace Split

variable {σ τ : Type} {F G : Type → Type} {I M R : Type}

/-- Where a producer thread stands: between two calls of `next`, inside one, done with `run`, or
with its publisher dropped. -/
inductive Thread (M A : Type) where
  | idle (p : A)
  | busy (prog : Sending M (A × Bool))
  | ended (p : A)
  | dropped

/-- The two threads and the channel, whose messages are with its receiver.  `alive` says that the
receiver has not been dropped, `answered` that a consumer step has answered `false`. -/
structure State (I M R : Type) (F G : Type → Type) where
  thread : Thread M (IterPublisher I (F (Decoupler Unit)))
  consumer : Coupler M (G (Watched (List R) R))
  alive : Bool
  answered : Bool

inductive Event where
  | produce
  | proceed
  | dropProducer
  | consume
  | tryConsume
  | dropReceiver
  deriving Repr, DecidableEq

/-- Does the channel take one more message? -/
def room (bound : Option ℕ) (queue : List M) : Bool :=
  match bound with
  | none => true
  | some n => queue.length < max n 1

section Step

variable (bound : Option ℕ) (P : Chain σ F I M) (C : Chain τ G M R)

/-- `IterPublisher(xs); P; Decoupler(tx)` -/
def producer (xs : List I) : IterPublisher I (F (Decoupler Unit)) :=
  (IterPublisher.new xs).subscribe (P.toSubscriber (decoupler M)) (P.build (decoupler M) ⟨()⟩)

/-- Both halves as built, over an empty channel. -/
def start (xs : List I) : State I M R F G where
  thread := Thread.idle (producer P xs)
  consumer := coupled ⟨[], true⟩ C (Collect R) []
  alive := true
  answered := false

/-- What a consumer step does to the system. -/
def consumed (s : State I M R F G) (r : Coupler M (G (Watched (List R) R)) × Bool) :
    State I M R F G :=
  { s with consumer := r.1, answered := s.answered || !r.2 }

/-- One event; an event that cannot happen now is `stuck`. -/
def step (s : State I M R F G) : Event → Outcome (State I M R F G)
  | Event.produce => match s.thread with
    | Thread.idle p =>
        pure { s with thread := Thread.busy (IterPublisher.next (P.toSubscriber (decoupler M)) p) }
    | _ => Outcome.stuck
  | Event.proceed => match s.thread with
    | Thread.busy (Interact.ret r) =>
        pure { s with thread := if r.2 then Thread.idle r.1 else Thread.ended r.1 }
    | Thread.busy (Interact.panic msg) => Outcome.panic msg
    | Thread.busy (Interact.ask a k) =>
        if s.alive then
          if room bound s.consumer.dataRx.queue then
            pure { s with
              thread := Thread.busy (k (Except.ok ()))
              consumer := { s.consumer with
                dataRx := { s.consumer.dataRx with queue := s.consumer.dataRx.queue ++ [a] } } }
          else Outcome.stuck
        else pure { s with thread := Thread.busy (k (Except.error a)) }
    | _ => Outcome.stuck
  | Event.dropProducer => match s.thread with
    | Thread.ended _ =>
        pure { s with
          thread := Thread.dropped
          consumer := { s.consumer with dataRx := { s.consumer.dataRx with connected := false } } }
    | _ => Outcome.stuck
  | Event.consume =>
      if s.alive then consumed s <$> Coupler.next (chainSub C (Collect R)) s.consumer
      else Outcome.stuck
  | Event.tryConsume =>
      if s.alive then consumed s <$> Coupler.tryNext (chainSub C (Collect R)) s.consumer
      else Outcome.stuck
  | Event.dropReceiver =>
      if s.answered then pure { s with alive := false } else Outcome.stuck

end Step

/-! ## The invariant -/

section Invariant

variable (P : Chain σ F I M) (C : Chain τ G M R) (xs : List I)

/-- The processors' states after the items of a list. -/
def stateAfter {σ : Type} {F : Type → Type} {I O : Type} (c : Chain σ F I O) (a : List I) : σ :=
  (c.transducer.run c.init (a.map Signal.next)).1

/-- Where the producer stands when it has put `sent` on a channel that took everything. -/
def ProducerAt : Thread M (IterPublisher I (F (Decoupler Unit))) → List M → Prop
  | Thread.idle p, sent => ∃ a ys, xs = a ++ ys ∧ sent = P.denote a ∧
      p = ⟨ys, some (P.assemble ⟨()⟩ (stateAfter P a))⟩
  | Thread.busy prog, sent =>
      (∃ a x ys vs b, xs = a ++ x :: ys ∧ sent ++ vs = P.denote (a ++ [x]) ∧
        (b = true ∨ sent = P.denote a) ∧
        prog = (fun r => (⟨ys, some (P.assemble r.1 (stateAfter P (a ++ [x])))⟩, r.2))
          <$> sendAll vs b) ∨
      (sent = P.denote xs ∧ ∃ p, prog = Interact.ret (p, false))
  | Thread.ended _, sent => sent = P.denote xs
  | Thread.dropped, sent => sent = P.denote xs

/-- The consumer has received the messages `received`. -/
def ConsumerAt (consumer : Coupler M (G (Watched (List R) R))) (received : List M) : Prop :=
  ∃ seen, consumer.subscriber
    = some (C.assemble ⟨C.denote received, seen⟩ (stateAfter C received))

/-- The invariant of a split pipeline. -/
structure Inv (s : State I M R F G) (received : List M) : Prop where
  consumer : ConsumerAt C s.consumer received
  sent : received ++ s.consumer.dataRx.queue <+: P.denote xs
  producer : s.alive = true → ProducerAt P xs s.thread (received ++ s.consumer.dataRx.queue)
  connected : s.consumer.dataRx.connected = false → s.thread = Thread.dropped
  kept : s.alive = false → s.answered = true
  answered : s.answered = true → C.denote received = C.denote (P.denote xs)

end Invariant

/-! ## One step of each side -/

lemma stateAfter_snoc {σ : Type} {F : Type → Type} {I O : Type} (c : Chain σ F I O) (a : List I)
    (x : I) : stateAfter c (a ++ [x]) = (c.transducer.step (stateAfter c a) (Signal.next x)).1 := by
  simp [stateAfter, Transducer.run_append]

/-- An item given to a chain that ends in a `Decoupler` makes it send the values it gives. -/
lemma onNext_decoupler (P : Chain σ F I M) (a : List I) (x : I) :
    (P.toSubscriber (decoupler M)).onNext (P.assemble ⟨()⟩ (stateAfter P a)) x
      = (fun r => (P.assemble r.1 (stateAfter P (a ++ [x])), r.2))
          <$> sendAll (Signal.values (P.callsFor a x)) false := by
  have hfeed : (decoupler M).feed ⟨()⟩ (P.callsFor a x)
      = sendAll (Signal.values (P.callsFor a x)) false := by
    have h := feed_decoupler ⟨()⟩ (P.callsFor a x) false
    simpa using h
  rw [P.onNext_assemble, stateAfter_snoc, ← hfeed]
  rfl

lemma next_producer_cons (P : Chain σ F I M) (a ys : List I) (x : I) :
    IterPublisher.next (P.toSubscriber (decoupler M))
        ⟨x :: ys, some (P.assemble ⟨()⟩ (stateAfter P a))⟩
      = (fun r => (⟨ys, some (P.assemble r.1 (stateAfter P (a ++ [x])))⟩, r.2))
          <$> sendAll (Signal.values (P.callsFor a x)) false := by
  simp only [IterPublisher.next, onNext_decoupler]
  simp [map_eq_pure_bind]

lemma next_producer_nil (P : Chain σ F I M) (a : List I) :
    IterPublisher.next (P.toSubscriber (decoupler M))
        ⟨[], some (P.assemble ⟨()⟩ (stateAfter P a))⟩
      = Interact.ret (⟨[], some (P.assemble ⟨()⟩ (stateAfter P a))⟩, false) := by
  simp only [IterPublisher.next, P.onComplete_assemble]
  rfl

/-- The values of one more item, by the list function. -/
lemma denote_snoc {σ : Type} {F : Type → Type} {I O : Type} {c : Chain σ F I O} {a : List I} {x : I}
    (hfit : c.Fits (a ++ [x])) :
    c.denote (a ++ [x]) = c.denote a ++ Signal.values (c.callsFor a x) := by
  rw [← c.values_calls _ hfit, ← c.values_calls _ (hfit.anti (List.prefix_append a [x])),
    c.calls_snoc, Signal.values_append]

lemma onNext_consumer {C : Chain τ G M R} {received : List M} {d : M}
    (hfit : C.Fits (received ++ [d])) (seen : List (Received R)) :
    ∃ seen' b, (chainSub C (Collect R)).onNext
        (C.assemble ⟨C.denote received, seen⟩ (stateAfter C received)) d
      = Outcome.ret (C.assemble ⟨C.denote (received ++ [d]), seen'⟩
          (stateAfter C (received ++ [d])), b) ∧
      (b = false ↔ C.denote (received ++ [d]) = C.denote received) := by
  have hstep : (C.transducer.step (stateAfter C received) (Signal.next d)).2
      = C.callsFor received d := rfl
  refine ⟨seen ++ (Collect R).answers (C.denote received) (C.callsFor received d),
    Observer.wants ((Collect R).answers (C.denote received) (C.callsFor received d)), ?_, ?_⟩
  · rw [chainSub, C.onNext_assemble, hstep, Observer.feed_subscriber, after_collect,
      ← denote_snoc hfit, stateAfter_snoc]
    rfl
  · rw [← Bool.not_eq_true, Observer.wants_eq_true_iff (collect_alwaysTrue R), denote_snoc hfit]
    simp

lemma onComplete_consumer (C : Chain τ G M R) (received : List M) (seen : List (Received R)) :
    ∃ seen', (chainSub C (Collect R)).onComplete
        (C.assemble ⟨C.denote received, seen⟩ (stateAfter C received)) false
      = Outcome.ret (C.assemble ⟨C.denote received, seen'⟩ (stateAfter C received)) := by
  refine ⟨seen ++ [Received.complete false], ?_⟩
  rw [chainSub, C.onComplete_assemble]
  rfl

/-- A call of `next` that comes back has received one more message, or has found the channel closed
and empty. -/
lemma next_consumer {C : Chain τ G M R} {received : List M}
    {consumer : Coupler M (G (Watched (List R) R))} (hat : ConsumerAt C consumer received)
    (hfit : C.Fits (received ++ consumer.dataRx.queue))
    {r : Coupler M (G (Watched (List R) R)) × Bool}
    (h : Coupler.next (chainSub C (Collect R)) consumer = Outcome.ret r) :
    (∃ d queue, consumer.dataRx.queue = d :: queue ∧
      r.1.dataRx = { consumer.dataRx with queue := queue } ∧ ConsumerAt C r.1 (received ++ [d]) ∧
      (r.2 = false → C.denote (received ++ [d]) = C.denote received)) ∨
    (consumer.dataRx.queue = [] ∧ consumer.dataRx.connected = false ∧
      r.1.dataRx = consumer.dataRx ∧ ConsumerAt C r.1 received ∧ r.2 = false) := by
  obtain ⟨⟨queue, connected⟩, subscriber⟩ := consumer
  obtain ⟨seen, hsub⟩ := hat
  simp only at hsub hfit
  subst hsub
  cases queue with
  | cons d queue =>
      have hfit' : C.Fits (received ++ [d]) := hfit.anti ⟨queue, by simp⟩
      obtain ⟨seen', b, hnext, hb⟩ := onNext_consumer hfit' seen
      simp only [Coupler.next, Receiver.recv, Outcome.pure_eq, Outcome.ret_bind, hnext,
        Outcome.ret.injEq] at h
      subst h
      exact Or.inl ⟨d, queue, rfl, rfl, ⟨seen', rfl⟩, hb.mp⟩
  | nil =>
      obtain ⟨seen', hdone⟩ := onComplete_consumer C received seen
      cases connected with
      | true => simp [Coupler.next, Receiver.recv] at h
      | false =>
          simp only [Coupler.next, Receiver.recv, Outcome.pure_eq, Outcome.ret_bind, hdone,
            Bool.false_eq_true, if_false, Outcome.ret.injEq] at h
          subst h
          exact Or.inr ⟨rfl, rfl, rfl, ⟨seen', rfl⟩, rfl⟩

/-! ## The invariant is kept -/

section Keep

variable {bound : Option ℕ} {P : Chain σ F I M} {C : Chain τ G M R} {xs : List I}
variable {s t : State I M R F G} {received : List M}

lemma producer_eq (P : Chain σ F I M) (xs : List I) :
    producer P xs = ⟨xs, some (P.assemble ⟨()⟩ (stateAfter P []))⟩ := by
  simp only [producer, IterPublisher.subscribe, IterPublisher.new, subscribed]
  rw [P.onSubscribe_build]
  rfl

lemma coupled_eq (rx : Receiver M) (C : Chain τ G M R) :
    coupled rx C (Collect R) [] = ⟨rx, some (C.assemble ⟨[], []⟩ (stateAfter C []))⟩ := by
  simp only [coupled, Coupler.subscribe, Coupler.new, subscribed]
  rw [C.onSubscribe_build]
  rfl

lemma inv_start (P : Chain σ F I M) (C : Chain τ G M R) (xs : List I) :
    Inv P C xs (start P C xs) [] := by
  have hnil : ∀ {σ : Type} {F : Type → Type} {I O : Type} (c : Chain σ F I O), c.denote [] = [] :=
    fun c => c.denote_nil
  refine ⟨⟨[], ?_⟩, ?_, fun _ => ⟨[], xs, rfl, ?_, producer_eq P xs⟩, ?_, ?_, ?_⟩
  · simp only [start, coupled_eq, hnil]
  · simp [start, coupled_eq]
  · simp [start, coupled_eq, hnil]
  · simp [start, coupled_eq]
  · simp [start]
  · simp [start]

/-- What one consumer step does to the invariant, whichever method was called. -/
lemma Inv.consumed (hfit : C.Fits (P.denote xs)) (h : Inv P C xs s received)
    (halive : s.alive = true) {r : Coupler M (G (Watched (List R) R)) × Bool}
    (hnext : Coupler.next (chainSub C (Collect R)) s.consumer = Outcome.ret r) :
    ∃ received', Inv P C xs (consumed s r) received' := by
  rcases next_consumer h.consumer (hfit.anti h.sent) hnext with
    ⟨d, queue, hq, hrx, hat, hstall⟩ | ⟨hq, hconn, hrx, hat, hfalse⟩
  · -- a message more: if it gave nothing, nothing after it would
    have hsame : (received ++ [d]) ++ queue = received ++ s.consumer.dataRx.queue := by simp [hq]
    have hall : received ++ [d] <+: P.denote xs := by
      refine List.IsPrefix.trans ⟨queue, ?_⟩ h.sent
      exact hsame
    have hpre : C.denote received <+: C.denote (received ++ [d]) :=
      C.denote_mono (List.prefix_append received [d])
    refine ⟨received ++ [d], ?_⟩
    refine ⟨hat, ?_, ?_, ?_, ?_, ?_⟩
    · simpa [Split.consumed, hrx, hq] using h.sent
    · intro _
      simpa [Split.consumed, hrx, hq] using h.producer halive
    · simpa [Split.consumed, hrx] using h.connected
    · intro hdead
      simp [Split.consumed, halive] at hdead
    · intro hans
      have hans' : s.answered = true ∨ r.2 = false := by simpa [Split.consumed] using hans
      rcases hans' with hans' | hans'
      · have hle := C.denote_mono hall
        rw [← h.answered hans'] at hle ⊢
        exact hle.eq_of_length_le hpre.length_le
      · obtain ⟨rest, hrest⟩ := hall
        have hend := C.denote_stall received d rest (hstall hans')
        rw [hstall hans', ← hend, ← hrest]
        simp
  · -- the channel is closed and empty: everything sent has been received
    have hdropped := h.connected hconn
    have hsent : received = P.denote xs := by
      have := h.producer halive
      rw [hdropped, hq, List.append_nil] at this
      exact this
    refine ⟨received, hat, ?_, ?_, ?_, ?_, ?_⟩
    · simpa [Split.consumed, hrx] using h.sent
    · intro _
      simpa [Split.consumed, hrx] using h.producer halive
    · simpa [Split.consumed, hrx] using h.connected
    · intro hdead
      simp [Split.consumed, halive] at hdead
    · intro _
      rw [hsent]

/-- The producer calls `next`. -/
lemma ProducerAt.produce {P : Chain σ F I M} (hfit : P.Fits xs)
    {p : IterPublisher I (F (Decoupler Unit))} {sent : List M}
    (h : ProducerAt P xs (Thread.idle p) sent) :
    ProducerAt P xs (Thread.busy (IterPublisher.next (P.toSubscriber (decoupler M)) p)) sent := by
  obtain ⟨a, ys, rfl, rfl, rfl⟩ := h
  cases ys with
  | nil => exact Or.inr ⟨by rw [List.append_nil], _, next_producer_nil P a⟩
  | cons x ys =>
      refine Or.inl ⟨a, x, ys, Signal.values (P.callsFor a x), false, rfl, ?_, Or.inr rfl,
        next_producer_cons P a ys x⟩
      exact (denote_snoc (hfit.anti ⟨ys, by simp⟩)).symm

/-- The call of `next` comes back.  An answer `false` means that the item gave nothing, so that no
later item would. -/
lemma ProducerAt.finish {P : Chain σ F I M} {r : IterPublisher I (F (Decoupler Unit)) × Bool}
    {sent : List M} (h : ProducerAt P xs (Thread.busy (Interact.ret r)) sent) :
    ProducerAt P xs (if r.2 then Thread.idle r.1 else Thread.ended r.1) sent := by
  rcases h with ⟨a, x, ys, vs, b, rfl, hsent, hb, hprog⟩ | ⟨rfl, p, hprog⟩
  · cases vs with
    | nil =>
        rw [List.append_nil] at hsent
        obtain rfl := Interact.ret.inj hprog
        cases b with
        | true => exact ⟨a ++ [x], ys, by simp, hsent, rfl⟩
        | false =>
            have hstall : P.denote (a ++ [x]) = P.denote a := by
              rw [← hsent]
              simpa using hb
            show sent = P.denote (a ++ x :: ys)
            rw [P.denote_stall a x ys hstall, hsent, hstall]
    | cons v vs => cases hprog
  · obtain rfl := Interact.ret.inj hprog
    rfl

/-- The channel takes a message. -/
lemma ProducerAt.push {P : Chain σ F I M} {v : M}
    {k : Except M Unit → Sending M (IterPublisher I (F (Decoupler Unit)) × Bool)} {sent : List M}
    (h : ProducerAt P xs (Thread.busy (Interact.ask v k)) sent) :
    ProducerAt P xs (Thread.busy (k (Except.ok ()))) (sent ++ [v]) := by
  rcases h with ⟨a, x, ys, vs, b, rfl, hsent, -, hprog⟩ | ⟨-, p, hprog⟩
  · cases vs with
    | nil => cases hprog
    | cons u vs =>
        obtain ⟨rfl, rfl⟩ := Interact.ask.inj hprog
        refine Or.inl ⟨a, x, ys, vs, b || true, rfl, by simpa using hsent, Or.inl (by simp), ?_⟩
        rfl
  · cases hprog

lemma ProducerAt.prefix_denote {P : Chain σ F I M}
    {thread : Thread M (IterPublisher I (F (Decoupler Unit)))} {sent : List M}
    (h : ProducerAt P xs thread sent) : sent <+: P.denote xs := by
  cases thread with
  | idle p =>
      obtain ⟨a, ys, rfl, rfl, -⟩ := h
      exact P.denote_mono (List.prefix_append a ys)
  | busy prog =>
      rcases h with ⟨a, x, ys, vs, b, rfl, hsent, -, -⟩ | ⟨rfl, -⟩
      · have hax : P.denote (a ++ [x]) <+: P.denote (a ++ x :: ys) :=
          P.denote_mono ⟨ys, by simp⟩
        exact List.IsPrefix.trans ⟨vs, hsent⟩ hax
      · exact List.prefix_rfl
  | ended p => exact (show sent = P.denote xs from h) ▸ List.prefix_rfl
  | dropped => exact (show sent = P.denote xs from h) ▸ List.prefix_rfl

/-- The producer gets an answer from the channel, or comes back from `next`. -/
lemma Inv.proceed (h : Inv P C xs s received)
    (hstep : step bound P C s Event.proceed = Outcome.ret t) :
    ∃ received', Inv P C xs t received' := by
  cases hth : s.thread with
  | busy prog =>
      cases prog with
      | ret r =>
          simp only [Split.step, hth, Outcome.pure_eq, Outcome.ret.injEq] at hstep
          subst hstep
          exact ⟨received, h.consumer, h.sent, fun ha => ProducerAt.finish (hth ▸ h.producer ha),
            fun hc => by simp [h.connected hc] at hth, h.kept, h.answered⟩
      | panic msg => simp [Split.step, hth] at hstep
      | ask v k =>
          cases ha : s.alive with
          | true =>
              simp only [Split.step, hth, ha, if_true] at hstep
              split_ifs at hstep
              simp only [Outcome.pure_eq, Outcome.ret.injEq] at hstep
              subst hstep
              have hpush := ProducerAt.push (hth ▸ h.producer ha)
              rw [List.append_assoc] at hpush
              exact ⟨received, h.consumer, hpush.prefix_denote, fun _ => hpush,
                fun hc => by simp [h.connected hc] at hth, fun hd => by simp at hd, h.answered⟩
          | false =>
              simp only [Split.step, hth, ha, Bool.false_eq_true, if_false, Outcome.pure_eq,
                Outcome.ret.injEq] at hstep
              subst hstep
              exact ⟨received, h.consumer, h.sent, fun ha' => by simp at ha',
                fun hc => by simp [h.connected hc] at hth, fun _ => h.kept ha, h.answered⟩
  | _ => simp [Split.step, hth] at hstep

/-- **Every event keeps the invariant.** -/
theorem Inv.step (hP : P.Fits xs) (hC : C.Fits (P.denote xs)) (h : Inv P C xs s received)
    {e : Event} (hstep : step bound P C s e = Outcome.ret t) :
    ∃ received', Inv P C xs t received' := by
  cases e with
  | produce =>
      cases hth : s.thread with
      | idle p =>
          simp only [Split.step, hth, Outcome.pure_eq, Outcome.ret.injEq] at hstep
          subst hstep
          exact ⟨received, h.consumer, h.sent,
            fun ha => ProducerAt.produce hP (hth ▸ h.producer ha),
            fun hc => by simp [h.connected hc] at hth, h.kept, h.answered⟩
      | _ => simp [Split.step, hth] at hstep
  | proceed => exact h.proceed hstep
  | dropProducer =>
      cases hth : s.thread with
      | ended p =>
          simp only [Split.step, hth, Outcome.pure_eq, Outcome.ret.injEq] at hstep
          subst hstep
          refine ⟨received, h.consumer, h.sent, fun ha => ?_, fun _ => rfl, h.kept, h.answered⟩
          have := h.producer ha
          rw [hth] at this
          exact this
      | _ => simp [Split.step, hth] at hstep
  | consume =>
      cases ha : s.alive with
      | true =>
          simp only [Split.step, ha, if_true, map_eq_pure_bind] at hstep
          obtain ⟨r, hnext, hr⟩ := Outcome.bind_eq_ret.mp hstep
          obtain rfl : Split.consumed s r = t := by simpa using hr
          exact h.consumed hC ha hnext
      | false => simp [Split.step, ha] at hstep
  | tryConsume =>
      cases ha : s.alive with
      | true =>
          simp only [Split.step, ha, if_true, map_eq_pure_bind] at hstep
          obtain ⟨r, htry, hr⟩ := Outcome.bind_eq_ret.mp hstep
          obtain rfl : Split.consumed s r = t := by simpa using hr
          obtain ⟨seen, hsub⟩ := h.consumer
          rw [Coupler.tryNext_eq _ _ hsub] at htry
          split_ifs at htry
          · obtain rfl := Outcome.ret.inj htry
            refine ⟨received, ?_⟩
            simpa [Split.consumed] using h
          · exact h.consumed hC ha htry
      | false => simp [Split.step, ha] at hstep
  | dropReceiver =>
      cases hans : s.answered with
      | true =>
          simp only [Split.step, hans, if_true, Outcome.pure_eq, Outcome.ret.injEq] at hstep
          subst hstep
          exact ⟨received, h.consumer, h.sent, fun ha => by simp at ha, h.connected, fun _ => rfl,
            fun _ => h.answered hans⟩
      | false => simp [Split.step, hans] at hstep

end Keep

/-! ## The split pipeline can finish

Over a channel without a bound the producer can always go on, and the consumer can take what is in
the queue.  These runs show that the end state of `split_collects` is reached, and give the run in
which a counter wraps. -/

section Progress

variable {P : Chain σ F I M} {C : Chain τ G M R} {s : State I M R F G}

/-- The system with more messages in the queue and the producer elsewhere. -/
def State.pushed (s : State I M R F G) (vs : List M)
    (thread : Thread M (IterPublisher I (F (Decoupler Unit)))) : State I M R F G :=
  { s with
    thread := thread
    consumer := { s.consumer with
      dataRx := { s.consumer.dataRx with queue := s.consumer.dataRx.queue ++ vs } } }

lemma State.pushed_pushed (s : State I M R F G) (us vs : List M)
    (thread thread' : Thread M (IterPublisher I (F (Decoupler Unit)))) :
    (s.pushed us thread).pushed vs thread' = s.pushed (us ++ vs) thread' := by
  simp [State.pushed]

/-- Sending a list of values. -/
lemma reach_sendAll (halive : s.alive = true) (vs : List M) (b : Bool)
    (f : Decoupler Unit × Bool → IterPublisher I (F (Decoupler Unit)) × Bool)
    (hth : s.thread = Thread.busy (f <$> sendAll vs b)) :
    ∃ es, Reach (step none P C) anyStep s es
      (s.pushed vs (Thread.busy (Interact.ret (f (⟨()⟩, b || !vs.isEmpty))))) := by
  induction vs generalizing s b with
  | nil =>
      refine ⟨[], ?_⟩
      have hs : s.pushed [] (Thread.busy (Interact.ret (f (⟨()⟩, b || !([] : List M).isEmpty))))
          = s := by
        obtain ⟨thread, ⟨⟨queue, connected⟩, subscriber⟩, alive, answered⟩ := s
        simp only at hth
        simp [State.pushed, hth, sendAll]
      rw [hs]
      exact Reach.nil
  | cons v vs ih =>
      have hstep : step none P C s Event.proceed
          = Outcome.ret (s.pushed [v] (Thread.busy (f <$> sendAll vs (b || true)))) := by
        simp [step, hth, sendAll, halive, room, State.pushed, Except.isOk, Except.toBool]
      obtain ⟨es, hes⟩ := ih (s := s.pushed [v] (Thread.busy (f <$> sendAll vs (b || true)))) halive
        (b || true) rfl
      refine ⟨[Event.proceed] ++ es, ?_⟩
      refine Reach.append (Reach.snoc Reach.nil trivial hstep) ?_
      rw [State.pushed_pushed] at hes
      simpa using hes

/-- The producer runs to the end of its input. -/
lemma reach_ended (ys a : List I) (halive : s.alive = true) (hfit : P.Fits (a ++ ys))
    (hth : s.thread = Thread.idle ⟨ys, some (P.assemble ⟨()⟩ (stateAfter P a))⟩) :
    ∃ es vs p, P.denote a ++ vs = P.denote (a ++ ys) ∧
      Reach (step none P C) anyStep s es (s.pushed vs (Thread.ended p)) := by
  induction ys generalizing s a with
  | nil =>
      set p : IterPublisher I (F (Decoupler Unit)) :=
        ⟨[], some (P.assemble ⟨()⟩ (stateAfter P a))⟩ with hp
      have h₁ : step none P C s Event.produce
          = Outcome.ret (s.pushed [] (Thread.busy (Interact.ret (p, false)))) := by
        simp [step, hth, next_producer_nil, State.pushed, hp]
      have h₂ : step none P C (s.pushed [] (Thread.busy (Interact.ret (p, false)))) Event.proceed
          = Outcome.ret (s.pushed [] (Thread.ended p)) := by
        simp [step, State.pushed]
      exact ⟨[Event.produce] ++ [Event.proceed], [], p, by simp,
        Reach.snoc (Reach.snoc Reach.nil trivial h₁) trivial h₂⟩
  | cons x ys ih =>
      set vs := Signal.values (P.callsFor a x) with hvs
      set f : Decoupler Unit × Bool → IterPublisher I (F (Decoupler Unit)) × Bool := fun r =>
        (⟨ys, some (P.assemble r.1 (stateAfter P (a ++ [x])))⟩, r.2) with hf
      have hden : P.denote (a ++ [x]) = P.denote a ++ vs :=
        denote_snoc (hfit.anti ⟨ys, by simp⟩)
      have h₁ : step none P C s Event.produce
          = Outcome.ret (s.pushed [] (Thread.busy (f <$> sendAll vs false))) := by
        simp [step, hth, next_producer_cons, State.pushed, hf, hvs]
      obtain ⟨es, h₂⟩ := reach_sendAll (P := P) (C := C)
        (s := s.pushed [] (Thread.busy (f <$> sendAll vs false))) halive vs false f rfl
      rw [State.pushed_pushed, List.nil_append, Bool.false_or] at h₂
      have h₁₂ := (Reach.snoc Reach.nil trivial h₁).append h₂
      by_cases hempty : vs = []
      · -- the item gave nothing: `next` answers `false`
        have h₃ : step none P C (s.pushed vs
            (Thread.busy (Interact.ret (f (⟨()⟩, !vs.isEmpty))))) Event.proceed
            = Outcome.ret (s.pushed vs (Thread.ended (f (⟨()⟩, false)).1)) := by
          simp [step, State.pushed, hempty, hf]
        refine ⟨_, vs, _, ?_, Reach.snoc h₁₂ trivial h₃⟩
        rw [hempty, List.append_nil] at hden ⊢
        exact (P.denote_stall a x ys hden).symm
      · have h₃ : step none P C (s.pushed vs
            (Thread.busy (Interact.ret (f (⟨()⟩, !vs.isEmpty))))) Event.proceed
            = Outcome.ret (s.pushed vs (Thread.idle (f (⟨()⟩, true)).1)) := by
          simp [step, State.pushed, hempty, hf]
        obtain ⟨es', ws, p, hws, h₄⟩ := ih (s := s.pushed vs (Thread.idle (f (⟨()⟩, true)).1))
          (a ++ [x]) halive (by simpa using hfit) rfl
        rw [State.pushed_pushed] at h₄
        refine ⟨_, vs ++ ws, p, ?_, (Reach.snoc h₁₂ trivial h₃).append h₄⟩
        rw [← List.append_assoc, ← hden, hws]
        simp

/-- The consumer takes one message. -/
lemma step_consume (halive : s.alive = true) {received : List M} {d : M} {queue : List M}
    (hat : ConsumerAt C s.consumer received) (hq : s.consumer.dataRx.queue = d :: queue)
    (hfit : C.Fits (received ++ [d])) :
    ∃ t, step none P C s Event.consume = Outcome.ret t ∧ t.thread = s.thread ∧ t.alive = true ∧
      t.consumer.dataRx.queue = queue ∧ ConsumerAt C t.consumer (received ++ [d]) ∧
      (C.denote (received ++ [d]) = C.denote received → t.answered = true) := by
  obtain ⟨thread, ⟨⟨queue', connected⟩, subscriber⟩, alive, answered⟩ := s
  obtain ⟨seen, hsub⟩ := hat
  simp only at hsub hq halive
  subst hsub hq halive
  obtain ⟨seen', b, hnext, hb⟩ := onNext_consumer hfit seen
  refine ⟨⟨thread, ⟨⟨queue, connected⟩, some (C.assemble ⟨C.denote (received ++ [d]), seen'⟩
    (stateAfter C (received ++ [d])))⟩, true, answered || !b⟩, ?_, rfl, rfl, rfl, ⟨seen', rfl⟩, ?_⟩
  · simp [step, Coupler.next, Receiver.recv, hnext, consumed]
  · intro hsame
    simp [hb.mpr hsame]

/-- And a list of them. -/
lemma reach_consume (halive : s.alive = true) {received : List M} (us queue : List M)
    (hat : ConsumerAt C s.consumer received) (hq : s.consumer.dataRx.queue = us ++ queue)
    (hfit : C.Fits (received ++ us)) :
    ∃ es t, Reach (step none P C) anyStep s es t ∧ t.thread = s.thread ∧ t.alive = true ∧
      t.consumer.dataRx.queue = queue ∧ ConsumerAt C t.consumer (received ++ us) := by
  induction us generalizing s received with
  | nil => exact ⟨[], s, Reach.nil, rfl, halive, hq, by simpa using hat⟩
  | cons u us ih =>
      obtain ⟨t, hstep, hth, hal, htq, htat, -⟩ := step_consume (P := P) halive hat hq
        (hfit.anti ⟨us, by simp⟩)
      obtain ⟨es, t', hreach, hth', hal', hq', hat'⟩ := ih hal htat htq (by simpa using hfit)
      exact ⟨_, t', (Reach.snoc Reach.nil trivial hstep).append hreach, hth'.trans hth, hal', hq',
        by simpa using hat'⟩

/-- The producer finishes and is dropped before the consumer has taken anything. -/
lemma reach_dropped (P : Chain σ F I M) (C : Chain τ G M R) (xs : List I) (hfit : P.Fits xs) :
    ∃ es t, Reach (step none P C) anyStep (start P C xs) es t ∧ t.thread = Thread.dropped ∧
      t.alive = true ∧ t.consumer.dataRx = ⟨P.denote xs, false⟩ ∧ ConsumerAt C t.consumer [] := by
  obtain ⟨es, vs, p, hvs, hreach⟩ := reach_ended (P := P) (C := C) (s := start P C xs) xs [] rfl
    hfit (by rw [start, producer_eq])
  obtain rfl : vs = P.denote xs := by simpa [P.denote_nil] using hvs
  refine ⟨_, _, Reach.snoc (e := Event.dropProducer) hreach trivial rfl, rfl, rfl, rfl, [], ?_⟩
  simp only [State.pushed, start, coupled_eq, C.denote_nil]

end Progress

/-- What the consumer has collected so far. -/
def collected (C : Chain τ G M R) (s : State I M R F G) : Option (List R) :=
  (s.consumer.subscriber.bind C.terminal).map Watched.state

end Split

/-! ## Against the unsplit pipeline -/

section Unsplit

variable {σ τ : Type} {F G : Type → Type} {I M O R : Type}

/-- The run of the pipeline that ends in `Collect` ends, with the list `l` collected. -/
def Collects (xs : List I) (c : Chain σ F I O) (l : List O) : Prop :=
  ∃ w rest, RunEnds xs c (Collect O) [] w rest ∧ w.state = l

lemma collects_denote (xs : List I) (c : Chain σ F I O) (hfit : c.Fits xs) :
    Collects xs c (c.denote xs) := by
  rcases run_pipeline xs c (Collect O) [] with ⟨-, hend⟩ | ⟨a, x, b, rfl, -, hx, hend⟩
  · refine ⟨_, _, hend, ?_⟩
    show (Collect O).after [] (c.calls xs) = _
    rw [after_collect, List.nil_append, c.values_calls xs hfit]
  · refine ⟨_, _, hend, ?_⟩
    show (Collect O).after [] (c.calls (a ++ [x])) = _
    rw [after_collect, List.nil_append, c.values_calls _ (hfit.anti ⟨b, by simp⟩)]
    exact denote_eq_of_not_wanted (collect_alwaysTrue O) hfit hx

/-- **A pipeline split over a channel.**  In every run of the two threads over a channel, bounded or
not, the list collected so far is a prefix of the list `l` that the unsplit pipeline collects, and
is `l` once the producer has been dropped and a consumer step has answered `false`. -/
theorem split_collects (xs : List I) (P : Chain σ F I M) (C : Chain τ G M R) (bound : Option ℕ)
    (hfit : (P.append ⟨C⟩).chain.Fits xs) :
    ∃ l, Collects xs (P.append ⟨C⟩).chain l ∧
      ∀ es s, Reach (Split.step bound P C) anyStep (Split.start P C xs) es s →
        ∃ l', Split.collected C s = some l' ∧ l' <+: l ∧
          (s.thread = Split.Thread.dropped → s.answered = true → l' = l) := by
  refine ⟨_, collects_denote xs _ hfit, fun es s hreach => ?_⟩
  obtain ⟨hP, hC⟩ := (P.fits_append ⟨C⟩ xs).mp hfit
  obtain ⟨received, hinv⟩ : ∃ received, Split.Inv P C xs s received := by
    refine hreach.invariant (P := fun s => ∃ received, Split.Inv P C xs s received)
      ⟨[], Split.inv_start P C xs⟩ ?_
    rintro t e u ⟨received, ht⟩ - hstep
    exact ht.step hP hC hstep
  obtain ⟨seen, hsub⟩ := hinv.consumer
  refine ⟨C.denote received, ?_, ?_, fun _ hans => ?_⟩
  · simp [Split.collected, hsub, C.terminal_assemble]
  · rw [P.denote_append]
    exact C.denote_mono ((List.prefix_append _ _).trans hinv.sent)
  · rw [P.denote_append]
    exact hinv.answered hans

/-- Two pairs unzipped on one side, three of the four numbers taken on the other. -/
theorem split_collects_pairs :
    let P := Chain.cons (Proc.unzip (I := ℕ)) Chain.nil
    let C := Chain.cons (Proc.take (I := ℕ) 3) Chain.nil
    (P.append ⟨C⟩).chain.Fits [(1, 2), (3, 4)] ∧
      ∃ l es s, Collects [(1, 2), (3, 4)] (P.append ⟨C⟩).chain l ∧
        Reach (Split.step none P C) anyStep (Split.start P C [(1, 2), (3, 4)]) es s ∧
        s.thread = Split.Thread.dropped ∧ s.answered = true ∧ Split.collected C s = some l := by
  intro P C
  have hfit : (P.append ⟨C⟩).chain.Fits [(1, 2), (3, 4)] := by
    refine ⟨trivial, ?_, trivial⟩
    simp [Proc.Fits, Proc.denote]
  obtain ⟨l, hl, hall⟩ := split_collects [(1, 2), (3, 4)] P C none hfit
  obtain ⟨es, s, hreach, hth, hal, hrx, hat⟩ := Split.reach_dropped P C [(1, 2), (3, 4)]
    ⟨trivial, trivial⟩
  obtain ⟨es', t, hreach', hth', hal', hq', hat'⟩ := Split.reach_consume (P := P) hal [1, 2, 3] [4]
    hat (by rw [hrx]; rfl) (by simp [C, Chain.Fits, Proc.Fits])
  obtain ⟨u, hstep, hth'', -, -, -, hans⟩ := Split.step_consume (P := P) hal' hat' hq'
    (by simp [C, Chain.Fits, Proc.Fits])
  have hrun := Reach.snoc (hreach.append hreach') trivial hstep
  have hdropped : u.thread = Split.Thread.dropped := hth''.trans (hth'.trans hth)
  have hanswered : u.answered = true := hans rfl
  obtain ⟨l', hl', -, hend⟩ := hall _ u hrun
  refine ⟨hfit, l, _, u, hl, hrun, hdropped, hanswered, ?_⟩
  rw [hl', hend hdropped hanswered]

/-! ### A counter that wraps -/

/-- `Unzip` and then `Take(max)`. -/
abbrev unzipTake (max : UInt64) :=
  Chain.cons (Proc.unzip (I := Unit)) (Chain.cons (Proc.take max) Chain.nil)

lemma calls_unzipTake (max : UInt64) (a : List (Unit × Unit)) :
    (unzipTake max).calls a = ((Proc.take (I := Unit) max).transducer.run (0, false)
      ((Proc.unzip.denote a).map Signal.next)).2 := by
  have hall : ∀ d ∈ (Proc.unzip.transducer.run () (a.map Signal.next)).2, d.isNext = true :=
    Proc.run_isNext rfl () fun d hd => Signal.isNext_of_mem_map_next hd
  have hvals : Signal.values ((Proc.unzip (I := Unit)).transducer.run () (a.map Signal.next)).2
      = Proc.unzip.denote a := by
    have h := (Proc.unzip (I := Unit)).values_run (a.map Signal.next) trivial
    rwa [Signal.values_map_next] at h
  have hunzip := Signal.eq_map_next_of_forall_isNext hall
  rw [hvals] at hunzip
  rw [← hunzip]
  show ((unzipTake max).transducer.run ((), ((0, false), ())) (a.map Signal.next)).2 = _
  rw [Chain.transducer_cons_run, Chain.transducer_cons_run, Chain.transducer, Transducer.run_ident]

lemma eq_replicate_unit (l : List Unit) : l = List.replicate l.length () :=
  List.eq_replicate_length.mpr fun _ _ => rfl

lemma denote_unzip_replicate (k : ℕ) :
    (Proc.unzip (I := Unit)).denote (List.replicate k ((), ())) = List.replicate (2 * k) () := by
  rw [eq_replicate_unit (Proc.denote _ _)]
  simp [Proc.denote, List.length_flatMap, Nat.mul_comm]

section Wrap

variable {N : ℕ} {max : UInt64} (hmax : max.toNat = 2 * N) (hN : 2 * N + 2 = 2 ^ 64)
include hmax

/-- Up to the limit every pair gives two values. -/
lemma values_calls_replicate {k : ℕ} (hk : k ≤ N) :
    (Signal.values ((unzipTake max).calls (List.replicate k ((), ())))).length = 2 * k := by
  rw [calls_unzipTake, denote_unzip_replicate, Proc.take_run_map_next (by simp; omega),
    Signal.values_map_next, List.length_replicate]

include hN

/-- Of the next pair the first half makes the counter exceed the limit, and the second half makes it
wrap, so that one is handed on again. -/
lemma values_calls_wrapped :
    (Signal.values ((unzipTake max).calls (List.replicate (N + 1) ((), ())))).length
      = 2 * N + 1 := by
  have hsucc : ∀ k, UInt64.ofNat k + 1 = UInt64.ofNat (k + 1) := fun k => by simp
  obtain ⟨⟨count, notified⟩, hst⟩ : ∃ st, ((Proc.take (I := Unit) max).transducer.run (0, false)
      ((List.replicate (2 * N) ()).map Signal.next)).1 = st := ⟨_, rfl⟩
  have hc : count = UInt64.ofNat (2 * N) := by
    have h := Proc.take_count (I := Unit) max 0 false
      ((List.replicate (2 * N) ()).map Signal.next)
    rw [Signal.values_map_next, List.length_replicate, Nat.zero_add] at h
    rw [← h]
    exact (congrArg Prod.fst hst).symm
  have hover : count + 1 > max := by
    rw [hc, hsucc, gt_iff_lt, UInt64.lt_iff_toNat_lt, hmax, UInt64.toNat_ofNat']
    omega
  have hwrap : ¬ count + 1 + 1 > max := by
    rw [hc, hsucc, hsucc, gt_iff_lt, UInt64.lt_iff_toNat_lt, hmax, UInt64.toNat_ofNat']
    omega
  have hsplit : List.replicate (2 * (N + 1)) () = List.replicate (2 * N) () ++ [(), ()] := by
    rw [Nat.mul_add, List.replicate_add]
    rfl
  rw [calls_unzipTake, denote_unzip_replicate, hsplit, List.map_append, Transducer.run_append, hst,
    Proc.take_run_map_next (by simp; omega), Signal.values_append, Signal.values_map_next,
    List.length_append, List.length_replicate]
  simp [Transducer.run, Proc.push, hover, hwrap]

/-- So every pair is wanted, and the unsplit pipeline collects one value more than the limit. -/
lemma collects_wrapped {l : List Unit}
    (h : Collects (List.replicate (N + 1) ((), ())) (unzipTake max) l) : l.length = 2 * N + 1 := by
  obtain ⟨w, rest, hend, rfl⟩ := h
  rcases run_pipeline (List.replicate (N + 1) ((), ())) (unzipTake max) (Collect Unit) [] with
    ⟨-, hend'⟩ | ⟨a, x, b, hab, -, hx, -⟩
  · obtain ⟨rfl, -⟩ := hend.unique hend'
    show ((Collect Unit).after [] ((unzipTake max).calls _)).length = _
    rw [after_collect, List.nil_append, values_calls_wrapped hmax hN]
  · -- no pair is refused: each one adds to the values
    exfalso
    refine hx ((Observer.wants_eq_true_iff (collect_alwaysTrue Unit) _ _).mpr fun hnil => ?_)
    have hlen := congrArg List.length hab
    simp only [List.length_replicate, List.length_append, List.length_cons] at hlen
    have ha : a = List.replicate a.length ((), ()) :=
      List.eq_replicate_length.mpr fun _ _ => rfl
    have hax : a ++ [x] = List.replicate (a.length + 1) ((), ()) := by
      rw [List.replicate_succ', ← ha]
    have hsame : (Signal.values ((unzipTake max).calls (a ++ [x]))).length
        = (Signal.values ((unzipTake max).calls a)).length := by
      rw [Chain.calls_snoc, Signal.values_append, hnil, List.append_nil]
    have hbefore : (Signal.values ((unzipTake max).calls a)).length = 2 * a.length := by
      rw [ha, List.length_replicate]
      exact values_calls_replicate hmax (by omega)
    rw [hax, hbefore] at hsame
    rcases Nat.lt_or_ge a.length N with hlt | hge
    · rw [values_calls_replicate hmax (by omega)] at hsame
      omega
    · obtain hN' : a.length = N := by omega
      rw [hN', values_calls_wrapped hmax hN] at hsame
      omega

/-- The consumer on the other side of a channel gets the two halves one by one, and has answered
`false` before its counter wraps. -/
lemma reach_wrapped :
    ∃ es s, Reach (Split.step none (Chain.cons (Proc.unzip (I := Unit)) Chain.nil)
        (Chain.cons (Proc.take max) Chain.nil)) anyStep
        (Split.start (Chain.cons Proc.unzip Chain.nil) (Chain.cons (Proc.take max) Chain.nil)
          (List.replicate (N + 1) ((), ()))) es s ∧
      s.thread = Split.Thread.dropped ∧ s.answered = true ∧
      ∃ l, Split.collected (Chain.cons (Proc.take max) Chain.nil) s = some l ∧
        l.length = 2 * N := by
  set C := Chain.cons (Proc.take (I := Unit) max) Chain.nil
  obtain ⟨es, s, hreach, hth, hal, hrx, hat⟩ :=
    Split.reach_dropped (Chain.cons (Proc.unzip (I := Unit)) Chain.nil) C
      (List.replicate (N + 1) ((), ())) ⟨trivial, trivial⟩
  have hq : s.consumer.dataRx.queue = List.replicate (2 * N) () ++ [(), ()] := by
    rw [hrx]
    show (Proc.unzip (I := Unit)).denote (List.replicate (N + 1) ((), ())) = _
    rw [denote_unzip_replicate, Nat.mul_add, List.replicate_add]
    rfl
  obtain ⟨es', t, hreach', hth', hal', hq', hat'⟩ := Split.reach_consume
    (P := Chain.cons (Proc.unzip (I := Unit)) Chain.nil) hal _ _ hat hq
    ⟨by show _ < _; simp; omega, trivial⟩
  obtain ⟨u, hstep, hth'', -, -, ⟨seen, hsub⟩, hans⟩ := Split.step_consume
    (P := Chain.cons (Proc.unzip (I := Unit)) Chain.nil) hal' hat' hq'
    ⟨by show _ < _; simp; omega, trivial⟩
  refine ⟨_, u, Reach.snoc (hreach.append hreach') trivial hstep, hth''.trans (hth'.trans hth),
    hans ?_, C.denote ([] ++ List.replicate (2 * N) () ++ [()]), ?_, ?_⟩
  · simp only [C, Chain.denote, Proc.denote, hmax, List.nil_append]
    rw [List.take_append_of_le_length (by simp)]
  · rw [Split.collected, hsub, Option.bind_some, C.terminal_assemble]
    rfl
  · simp only [C, Chain.denote, Proc.denote, hmax, List.nil_append, List.length_take,
      List.length_append, List.length_replicate, List.length_singleton]
    omega

end Wrap

/-- With `Take(2 ^ 64 - 2)` and `2 ^ 63` pairs the list collected at the end is not the one the
unsplit pipeline collects. -/
theorem split_wraps :
    let P := Chain.cons (Proc.unzip (I := Unit)) Chain.nil
    let C := Chain.cons (Proc.take (I := Unit) 18446744073709551614) Chain.nil
    let xs := List.replicate (2 ^ 63) ((), ())
    ¬ ∃ l, Collects xs (P.append ⟨C⟩).chain l ∧
      ∀ es s, Reach (Split.step none P C) anyStep (Split.start P C xs) es s →
        ∃ l', Split.collected C s = some l' ∧ l' <+: l ∧
          (s.thread = Split.Thread.dropped → s.answered = true → l' = l) := by
  have hmax : (18446744073709551614 : UInt64).toNat = 2 * (2 ^ 63 - 1) := rfl
  have hN : 2 * (2 ^ 63 - 1) + 2 = 2 ^ 64 := by omega
  have hxs : 2 ^ 63 = 2 ^ 63 - 1 + 1 := by omega
  rintro P C xs ⟨l, hl, hall⟩
  have hlen : l.length = 2 * (2 ^ 63 - 1) + 1 := by
    refine collects_wrapped hmax hN ?_
    rw [← hxs]
    exact hl
  obtain ⟨es, s, hreach, hth, hans, l₁, hl₁, hlen₁⟩ := reach_wrapped hmax hN
  rw [← hxs] at hreach
  obtain ⟨l₂, hl₂, -, hend⟩ := hall es s hreach
  obtain rfl : l₁ = l₂ := Option.some.inj (hl₁.symm.trans hl₂)
  rw [hend hth hans, hlen] at hlen₁
  omega

end Unsplit

end Rx
