import RxRust.Reactor.Posting

/-!
# A pipeline cut in two by the network

What the library is for, and what `oneway_test` of `net_stream.rs` tries on five numbers: a pipeline
on one thread ends in a `Decoupler` on the event loop's queue, its values go out over a connection
of the one engine, come in over a connection of another (or of the same one), and a `Coupler` on the
channel of that connection feeds the rest of the pipeline on a second thread.

The producer is the thread of `Posting`, which stops at every `send`; the consumer calls
`Coupler::next` on what is on the channel and not taken yet.  They and the engines move in any
order.

* `sender` — the producer's chain, with the two `Map`s of the test at its end.
* `Remote.State`, `Remote.step` — the two threads and the engines, one event at a time.
* `Remote.Undisturbed` — the loop's queue has room where the producer sends, nobody hangs up, and
  nobody else uses the two ends of the connection.
* `Remote.Inv` — what has been sent, what was posted, what is on the channel and what was taken.
* **`remote_collects`** — what the consumer has collected is always a prefix of what the uncut
  pipeline collects, and all of it once everything has arrived or a consumer step has answered
  `false`.
-/

namespace Rx

open Core

/-! ## The producer's chain -/

/-- `isize_to_strbuf` of a `u64`; it is addressed to nobody. -/
def isizeToStrbuf (x : UInt64) : StreamBuf where
  buf := ⟨0, u64Bytes x, by rw [length_u64Bytes]; decide⟩
  tok := 0
  owner := 0

/-- `| StreamBuf (buf, _) | StreamBuf (buf, tok)`, meant for the socket `owner`. -/
def retag (tok : Token) (owner : ℕ) (msg : StreamBuf) : StreamBuf :=
  { msg with tok := tok, owner := owner }

section Sender

variable {σ : Type} {F : Type → Type} {I : Type}

/-- The chain, then `Map(isize_to_strbuf)`, then `Map(retag)`. -/
def sender (P : Chain σ F I UInt64) (tok : Token) (owner : ℕ) : Chain.Packed I StreamBuf :=
  P.append ⟨Chain.cons (Proc.map isizeToStrbuf) (Chain.cons (Proc.map (retag tok owner)) Chain.nil)⟩

lemma denote_sender (P : Chain σ F I UInt64) (tok : Token) (owner : ℕ) (xs : List I) :
    (sender P tok owner).chain.denote xs
      = (P.denote xs).map fun x => retag tok owner (isizeToStrbuf x) := by
  rw [sender, P.denote_append]
  simp [Chain.denote, Proc.denote, Function.comp_def]

lemma fits_sender (P : Chain σ F I UInt64) (tok : Token) (owner : ℕ) (xs : List I) :
    (sender P tok owner).chain.Fits xs ↔ P.Fits xs := by
  rw [sender, P.fits_append]
  simp [Chain.Fits, Proc.Fits]

end Sender

/-- What is on a channel for words. -/
lemma Net.channel_eq_words {tx : ℕ} {t : Token} {s : Net Unit UInt64} (h : s.Tokened tx t) :
    s.channel tx = ((Network.words t s).filter fun p => decide (p.1 = tx)).map
      fun p => ⟨p.2, t⟩ := by
  rw [channel_eq_tagged h, Network.words, List.filter_map, List.map_map]
  refine List.map_congr_left fun m hm => ?_
  obtain ⟨hm, hmtx⟩ := List.mem_filter.mp hm
  have htok := h m (List.mem_of_mem_filter hm) (of_decide_eq_true hmtx)
  rw [Function.comp_apply, ← htok]

/-! ## The system -/

namespace Remote

open Network Split Posting

variable {ι σ τ : Type} [DecidableEq ι] {F G : Type → Type} {I R : Type}

/-- The subscriber of the consumer's `Coupler`, and whether a step of the consumer has answered
`false`. -/
structure Consumer (R : Type) (G : Type → Type) where
  subscriber : Option (G (Watched (List R) R))
  answered : Bool

/-- The producer's thread, the engines and the consumer. -/
abbrev State (ι I R : Type) (F G : Type → Type) :=
  Posting ι Unit UInt64 (IterPublisher I (F (Decoupler Unit))) (Consumer R G)

/-- The producer calls `next`, or the consumer does. -/
inductive Own where
  | produce
  | consume

abbrev Event (ι : Type) := Posting.Event ι Own

section Step

variable (fuel : ℕ) (L : Link ι) (tx : ℕ) (Q : Chain σ F I StreamBuf)
  (C : Chain τ G (ProtoMsg UInt64) R)

/-- The consumer's `Coupler`.  The engine keeps the sending end of the channel. -/
def coupler (s : State ι I R F G) : Coupler (ProtoMsg UInt64) (G (Watched (List R) R)) :=
  ⟨⟨(s.arrived L tx).drop s.taken, true⟩, s.rest.subscriber⟩

/-- Both halves as built, before anything has happened. -/
def start (nets : ι → Net Unit UInt64) (xs : List I) : State ι I R F G where
  thread := Thread.idle (producer Q xs)
  net := Network.start nets
  taken := 0
  sent := []
  rest := ⟨(coupled ⟨[], true⟩ C (Collect R) []).subscriber, false⟩

/-- What happens besides what happens in every `Posting`. -/
def own (s : State ι I R F G) : Own → Outcome (State ι I R F G)
  | Own.produce => match s.thread with
    | Thread.idle p =>
        pure { s with
          thread := Thread.busy (IterPublisher.next (Q.toSubscriber (decoupler StreamBuf)) p) }
    | _ => Outcome.stuck
  | Own.consume => do
      let r ← Coupler.next (chainSub C (Collect R)) (coupler L tx s)
      pure { s with
        taken := (s.arrived L tx).length - r.1.dataRx.queue.length
        rest := ⟨r.1.subscriber, s.rest.answered || !r.2⟩ }

/-- One event. -/
abbrev step (s : State ι I R F G) (e : Event ι) : Outcome (State ι I R F G) :=
  Posting.step U64Protocol fuel L (own L tx Q C) s e

/-- The queue takes what the producer sends, neither end of the connection hangs up, nobody else
posts messages for the one end, and nobody else sends on the channel of the other. -/
abbrev Undisturbed (s : State ι I R F G) (e : Event ι) : Prop :=
  Posting.Undisturbed L tx (fun p => p = []) s e

end Step

/-! ## The invariant -/

section Invariant

variable (fuel : ℕ) (L : Link ι) (tx : ℕ) (Q : Chain σ F I StreamBuf)
  (C : Chain τ G (ProtoMsg UInt64) R) (nets : ι → Net Unit UInt64) (xs : List I)

/-- The invariant: the engines have gone through `ns`. -/
structure Inv (es : List (Event ι)) (s : State ι I R F G) (ns : List (ι × Net.Event)) : Prop where
  base : Posting.Inv U64Protocol fuel L tx nets es s ns
  posted : posted L ns = s.sent.flatMap StreamBuf.bytes
  producer : ProducerAt Q xs s.thread s.sent
  consumer : ∃ seen, s.rest.subscriber = some (C.assemble ⟨C.denote (s.received L tx), seen⟩
    (stateAfter C (s.received L tx)))
  answered : s.rest.answered = true → ∃ a d, a ++ [d] <+: s.received L tx ∧
    C.denote (a ++ [d]) = C.denote a

end Invariant

variable {fuel : ℕ} {L : Link ι} {tx : ℕ} {Q : Chain σ F I StreamBuf}
  {C : Chain τ G (ProtoMsg UInt64) R} {nets : ι → Net Unit UInt64} {xs : List I}
  {es : List (Event ι)} {s u : State ι I R F G} {ns : List (ι × Net.Event)}

lemma inv_start (hquiet : ∀ m ∈ (nets L.dst.1).sent, m.1 ≠ tx) :
    Inv fuel L tx Q C nets xs [] (start Q C nets xs) [] := by
  have hnone : (start Q C nets xs : State ι I R F G).received L tx = [] := List.take_zero
  refine ⟨Posting.inv_start hquiet _ _, rfl, ?_, ?_, ?_⟩
  · exact ⟨[], xs, rfl, Q.denote_nil.symm, producer_eq Q xs⟩
  · refine ⟨[], ?_⟩
    rw [hnone, C.denote_nil]
    simp only [start, coupled_eq]
  · intro h
    cases h

/-- The producer sends a message. -/
lemma Inv.sent (h : Inv fuel L tx Q C nets xs es s ns) (hto : ∀ m ∈ Q.denote xs, m.tok = L.src.2)
    {msg : StreamBuf} {k : Except StreamBuf Unit → Sending StreamBuf _}
    {net : Network ι Unit UInt64} (hth : s.thread = Thread.busy (Interact.ask msg k))
    (hnet : s.net.step U64Protocol fuel L (L.src.1, Net.Event.send msg) = Outcome.ret net) :
    Inv fuel L tx Q C nets xs (es ++ [Posting.Event.proceed])
      { s with thread := Thread.busy (k (Except.ok ())), net := net, sent := s.sent ++ [msg] }
      (ns ++ [(L.src.1, Net.Event.send msg)]) := by
  have hpush := ProducerAt.push (hth ▸ h.producer)
  have hmem : msg ∈ Q.denote xs := hpush.prefix_denote.subset (by simp)
  have hpost : postAt L (L.src.1, Net.Event.send msg) = msg.bytes := by
    simp [postAt, Net.Event.posts, hto msg hmem]
  have hrec := h.base.received_eq (u := { s with
    thread := Thread.busy (k (Except.ok ())), net := net, sent := s.sent ++ [msg] }) hnet rfl
  refine ⟨h.base.sent hnet rfl, ?_, hpush, ?_, ?_⟩
  · rw [posted_snoc, h.posted, hpost]
    simp
  · rw [hrec]
    exact h.consumer
  · rw [hrec]
    exact h.answered

/-- The engines take an event in which nothing is posted for the connection. -/
lemma Inv.net (h : Inv fuel L tx Q C nets xs es s ns) {e : ι × Net.Event}
    {net : Network ι Unit UInt64} (hopen : Open L s.net e) (hpost : postAt L e = [])
    (hsole : (s.net.nets L.dst.1).Sole tx L.dst.2)
    (hnet : s.net.step U64Protocol fuel L e = Outcome.ret net) :
    Inv fuel L tx Q C nets xs (es ++ [Posting.Event.net e]) { s with net := net } (ns ++ [e]) := by
  have hrec := h.base.received_eq (u := { s with net := net }) hnet rfl
  refine ⟨h.base.moved hnet rfl hopen (tokened_step hsole h.base.tokened hnet) rfl, ?_, h.producer,
    ?_, ?_⟩
  · rw [posted_snoc, h.posted, hpost, List.append_nil]
  · rw [hrec]
    exact h.consumer
  · rw [hrec]
    exact h.answered

omit [DecidableEq ι] in
/-- What a step of the consumer does: it takes the next message off the channel. -/
lemma own_consume {seen : List (Received R)} (hfit : C.Fits (s.arrived L tx))
    (hconsumer : s.rest.subscriber = some (C.assemble ⟨C.denote (s.received L tx), seen⟩
      (stateAfter C (s.received L tx))))
    (hs : own L tx Q C s Own.consume = Outcome.ret u) :
    ∃ d seen' b, u.thread = s.thread ∧ u.net = s.net ∧ u.sent = s.sent ∧
      u.taken ≤ (s.arrived L tx).length ∧ u.received L tx = s.received L tx ++ [d] ∧
      u.rest.subscriber = some (C.assemble ⟨C.denote (s.received L tx ++ [d]), seen'⟩
        (stateAfter C (s.received L tx ++ [d]))) ∧
      u.rest.answered = (s.rest.answered || !b) ∧
      (b = false ↔ C.denote (s.received L tx ++ [d]) = C.denote (s.received L tx)) := by
  obtain ⟨r, hr, hs⟩ := Outcome.bind_eq_ret.mp hs
  obtain rfl := Outcome.ret.inj hs
  cases hq : (s.arrived L tx).drop s.taken with
  | nil => simp [Coupler.next, coupler, hconsumer, hq, Receiver.recv] at hr
  | cons d rest =>
      have hnext : (s.arrived L tx).take (s.taken + 1) = s.received L tx ++ [d] := by
        rw [received, List.take_add, hq]
        rfl
      obtain ⟨seen', b, honNext, hb⟩ := onNext_consumer
        (hfit.anti (hnext ▸ List.take_prefix _ _)) seen
      simp only [Coupler.next, coupler, hconsumer, hq, Receiver.recv, Outcome.pure_eq,
        Outcome.ret_bind, honNext, Outcome.ret.injEq] at hr
      subst hr
      have htaken : (s.arrived L tx).length - rest.length = s.taken + 1 := by
        have hlen := congrArg List.length hq
        rw [List.length_drop, List.length_cons] at hlen
        omega
      refine ⟨d, seen', b, rfl, rfl, rfl, Nat.sub_le _ _, ?_, rfl, rfl, hb⟩
      rw [← hnext, ← htaken]
      rfl

/-- The consumer takes a message. -/
lemma Inv.consume (h : Inv fuel L tx Q C nets xs es s ns) (hfit : C.Fits (s.arrived L tx))
    (hs : own L tx Q C s Own.consume = Outcome.ret u) :
    Inv fuel L tx Q C nets xs (es ++ [Posting.Event.own Own.consume]) u ns := by
  obtain ⟨seen, hconsumer⟩ := h.consumer
  obtain ⟨d, seen', b, hthread, hnet, hsent, htaken, hrec, hcons, hans, hb⟩ :=
    own_consume hfit hconsumer hs
  refine ⟨h.base.stay rfl hnet htaken, ?_, ?_, ⟨seen', ?_⟩, ?_⟩
  · rw [hsent]
    exact h.posted
  · rw [hthread, hsent]
    exact h.producer
  · rw [hrec]
    exact hcons
  · intro hanswered
    rw [hrec]
    rw [hans, Bool.or_eq_true] at hanswered
    rcases hanswered with hold | hnew
    · obtain ⟨a, d', hpre, hstall⟩ := h.answered hold
      exact ⟨a, d', hpre.trans (List.prefix_append _ _), hstall⟩
    · exact ⟨s.received L tx, d, List.prefix_rfl, hb.mp (by simpa using hnew)⟩

/-- The producer calls `next`. -/
lemma Inv.produce (h : Inv fuel L tx Q C nets xs es s ns) (hfit : Q.Fits xs)
    (hs : own L tx Q C s Own.produce = Outcome.ret u) :
    Inv fuel L tx Q C nets xs (es ++ [Posting.Event.own Own.produce]) u ns := by
  cases hth : s.thread with
  | idle p =>
      simp only [own, hth, Outcome.pure_eq, Outcome.ret.injEq] at hs
      subst hs
      exact ⟨h.base.stay rfl rfl h.base.within, h.posted,
        ProducerAt.produce hfit (hth ▸ h.producer), h.consumer, h.answered⟩
  | _ => simp [own, hth] at hs

end Remote

/-! ## Reads -/

/-- The reads do not run into the read buffer's defect: their remainders do not add up to a word,
and whenever the buffer is replaced nothing waits in it or no later read brings a whole word. -/
structure WellRead (cfg : NetEngineConfig) (reads : List (List UInt8)) : Prop where
  rests : ((reads.map List.length).map fun n => n % 8).sum < 8
  keeps : KeepsUp cfg.readBufSz cfg.low 8 (reads.map List.length)

/-- What holds of the reads of a run holds of those of its beginning. -/
lemma WellRead.anti {cfg : NetEngineConfig} {reads more : List (List UInt8)}
    (h : WellRead cfg (reads ++ more)) : WellRead cfg reads := by
  refine ⟨?_, ?_⟩
  · have hrests := h.rests
    simp only [List.map_append, List.sum_append] at hrests
    omega
  · intro ns n ms hns hroll
    have hlonger : (reads ++ more).map List.length = ns ++ n :: (ms ++ more.map List.length) := by
      simp [hns]
    exact (h.keeps ns n _ hlonger hroll).imp_right fun hlater y hy =>
      hlater y (List.mem_append_left _ hy)

namespace Remote

open Network Split Posting

variable {ι σ τ : Type} [DecidableEq ι] {F G : Type → Type} {I R : Type}
variable {fuel : ℕ} {cfg : ι → NetEngineConfig} {L : Link ι} {owner : ℕ} {P : Chain σ F I UInt64}
  {C : Chain τ G (ProtoMsg UInt64) R} {nets : ι → Net Unit UInt64} {xs : List I}
  {a b : Connection Unit}

/-- The uncut pipeline: the values are handed to the second half as they come off the channel. -/
def uncut (P : Chain σ F I UInt64) (C : Chain τ G (ProtoMsg UInt64) R) (t : Token) :
    Chain.Packed I R :=
  P.append ⟨Chain.cons (Proc.map fun x => ⟨x, t⟩) C⟩

lemma denote_uncut (t : Token) (xs : List I) :
    (uncut P C t).chain.denote xs = C.denote ((P.denote xs).map fun x => ⟨x, t⟩) := by
  rw [uncut, P.denote_append]
  rfl

variable {es : List (Event ι)} {ns : List (ι × Net.Event)}
  {s u : State ι I R (sender P L.src.2 owner).Object G}

/-- What the producer has sent are the first words, and that is what was posted. -/
lemma posted_words
    (h : Inv fuel L b.connTx (sender P L.src.2 owner).chain C nets xs es s ns) :
    posted L ns = ((P.denote xs).take s.sent.length).flatMap u64Bytes := by
  have hsent := h.producer.prefix_denote
  rw [denote_sender, List.prefix_iff_eq_take, ← List.map_take] at hsent
  have hbytes : ∀ ws : List UInt64, (ws.map fun x => retag L.src.2 owner (isizeToStrbuf x)).flatMap
      StreamBuf.bytes = ws.flatMap u64Bytes := by
    intro ws
    rw [List.flatMap_map]
    rfl
  rw [← hbytes, ← hsent]
  exact h.posted

/-- **What is on the channel**: of the words sent, as many as have been read. -/
lemma arrived_eq (hfuel : (cfg L.dst.1).readBufSz < fuel)
    (hfresh : Fresh U64Protocol fuel cfg L nets a b)
    (hquiet : ∀ m ∈ (nets L.dst.1).sent, m.1 ≠ b.connTx)
    (h : Inv fuel L b.connTx (sender P L.src.2 owner).chain C nets xs es s ns)
    (hreads : WellRead (cfg L.dst.1) (readsOf L (es.filterMap Event.net?))) :
    s.arrived L b.connTx = (((P.denote xs).take s.sent.length).take
      ((readsOf L ns).flatten.length / 8)).map fun x => ⟨x, L.dst.2⟩ := by
  rw [← h.base.reads] at hreads
  have hwords := words_arrived hfuel hfresh h.base.reached (posted_words h) hreads.rests hreads.keeps
  have hbefore : (words L.dst.2 (nets L.dst.1)).filter (fun p => decide (p.1 = b.connTx)) = [] := by
    rw [List.filter_eq_nil_iff]
    intro p hp
    obtain ⟨m, hm, rfl⟩ := List.mem_map.mp hp
    simpa using hquiet m (List.mem_of_mem_filter hm)
  have hafter : ∀ ws : List UInt64, ((ws.map fun x => (b.connTx, x)).filter fun p =>
      decide (p.1 = b.connTx)).map (fun p => (⟨p.2, L.dst.2⟩ : ProtoMsg UInt64))
        = ws.map fun x => ⟨x, L.dst.2⟩ := by
    intro ws
    simp [List.filter_map, Function.comp_def]
  rw [arrived, Net.channel_eq_words h.base.tokened, hwords, List.filter_append, hbefore,
    List.nil_append, hafter]

lemma arrived_prefix_words (hfuel : (cfg L.dst.1).readBufSz < fuel)
    (hfresh : Fresh U64Protocol fuel cfg L nets a b)
    (hquiet : ∀ m ∈ (nets L.dst.1).sent, m.1 ≠ b.connTx)
    (h : Inv fuel L b.connTx (sender P L.src.2 owner).chain C nets xs es s ns)
    (hreads : WellRead (cfg L.dst.1) (readsOf L (es.filterMap Event.net?))) :
    s.arrived L b.connTx <+: (P.denote xs).map fun x => ⟨x, L.dst.2⟩ := by
  rw [arrived_eq hfuel hfresh hquiet h hreads]
  exact ((List.take_prefix _ _).trans (List.take_prefix _ _)).map _

/-- **Every event keeps the invariant.** -/
lemma Inv.step (hP : P.Fits xs) (hfit : C.Fits (s.arrived L b.connTx))
    (h : Inv fuel L b.connTx (sender P L.src.2 owner).chain C nets xs es s ns) {e : Event ι}
    (hok : Undisturbed L b.connTx s e)
    (hs : Remote.step fuel L b.connTx (sender P L.src.2 owner).chain C s e = Outcome.ret u) :
    ∃ ns', Inv fuel L b.connTx (sender P L.src.2 owner).chain C nets xs (es ++ [e]) u ns' := by
  rcases undisturbed_cases hok hs with ⟨r, rfl, hth, rfl⟩ | ⟨msg, k, net, rfl, hth, hnet, rfl⟩ |
    ⟨e', net, rfl, hopen, hpost, hsole, hnet, rfl⟩ | ⟨o, rfl, hs⟩
  · exact ⟨ns, h.base.stay rfl rfl h.base.within, h.posted, ProducerAt.finish (hth ▸ h.producer),
      h.consumer, h.answered⟩
  · refine ⟨_, h.sent ?_ hth hnet⟩
    rw [denote_sender]
    intro m hm
    obtain ⟨x, -, rfl⟩ := List.mem_map.mp hm
    rfl
  · exact ⟨_, h.net hopen hpost hsole hnet⟩
  · cases o with
    | produce => exact ⟨ns, h.produce ((fits_sender ..).mpr hP) hs⟩
    | consume => exact ⟨ns, h.consume hfit hs⟩

/-- The invariant holds in every run whose reads are well behaved. -/
lemma inv_reach (hfuel : (cfg L.dst.1).readBufSz < fuel)
    (hfresh : Fresh U64Protocol fuel cfg L nets a b)
    (hquiet : ∀ m ∈ (nets L.dst.1).sent, m.1 ≠ b.connTx) (hP : P.Fits xs)
    (hC : C.Fits ((P.denote xs).map fun x => ⟨x, L.dst.2⟩))
    (h : Reach (Remote.step fuel L b.connTx (sender P L.src.2 owner).chain C)
      (Undisturbed L b.connTx) (start (sender P L.src.2 owner).chain C nets xs) es s)
    (hreads : WellRead (cfg L.dst.1) (readsOf L (es.filterMap Event.net?))) :
    ∃ ns, Inv fuel L b.connTx (sender P L.src.2 owner).chain C nets xs es s ns := by
  induction h with
  | nil => exact ⟨[], inv_start hquiet⟩
  | @snoc es t u e _ hok hs ih =>
      have hbefore : WellRead (cfg L.dst.1) (readsOf L (es.filterMap Event.net?)) := by
        rw [List.filterMap_append, readsOf, List.filterMap_append] at hreads
        exact hreads.anti
      obtain ⟨ns, hinv⟩ := ih hbefore
      have harrived := arrived_prefix_words hfuel hfresh hquiet hinv hbefore
      exact hinv.step hP (hC.anti harrived) hok hs

/-- What the consumer has collected so far. -/
def collected (C : Chain τ G (ProtoMsg UInt64) R) (s : State ι I R F G) : Option (List R) :=
  (s.rest.subscriber.bind C.terminal).map Watched.state

/-- Everything has arrived: the producer is done, nothing is left in the loop's queue, in the
connection or on the link, and the consumer has taken all there is on its channel. -/
structure Settled (L : Link ι) (tx : ℕ) (s : State ι I R F G) : Prop where
  ended : ∃ p, s.thread = Thread.ended p
  queue : Net.queuedFor L.src.2 (s.net.nets L.src.1).queue = []
  conn : ∀ c, (s.net.nets L.src.1).conns.get L.src.2 = some c →
    c.outbuf = [] ∧ c.sock.sent.length = s.net.read
  taken : (s.arrived L tx).length ≤ s.taken

/-- When everything has arrived, the consumer has received all the words. -/
lemma received_of_settled (hfuel : (cfg L.dst.1).readBufSz < fuel)
    (hfresh : Fresh U64Protocol fuel cfg L nets a b)
    (hquiet : ∀ m ∈ (nets L.dst.1).sent, m.1 ≠ b.connTx)
    (h : Inv fuel L b.connTx (sender P L.src.2 owner).chain C nets xs es s ns)
    (hreads : WellRead (cfg L.dst.1) (readsOf L (es.filterMap Event.net?)))
    (hsettled : Settled L b.connTx s) :
    s.received L b.connTx = (P.denote xs).map fun x => ⟨x, L.dst.2⟩ := by
  obtain ⟨⟨p, hended⟩, hqueue, hconn, htaken⟩ := hsettled
  have hsent : s.sent = (sender P L.src.2 owner).chain.denote xs := by
    have hproducer := h.producer
    rw [hended] at hproducer
    exact hproducer
  have hlen : s.sent.length = (P.denote xs).length := by
    rw [hsent, denote_sender, List.length_map]
  obtain ⟨c, hc⟩ := conserved_reach hfresh h.base.reached
  obtain ⟨hout, hread⟩ := hconn c hc.conn
  have hcount := all_read hc (posted_words h) hread hout hqueue
  rw [received, List.take_of_length_le htaken, arrived_eq hfuel hfresh hquiet h hreads,
    hcount, List.take_length, hlen, List.take_length]

end Remote

section Collects

variable {ι σ τ : Type} [DecidableEq ι] {F G : Type → Type} {I R : Type}

/-- **A pipeline cut in two by the network.**  Any number of engines, each in any state it can
reach, and among them a connection that has just been made and whose receiving end has a channel on
which nothing was sent.  The first half of a pipeline of `u64` values is run on one thread and posts
its values at the one end, and the second half is run on another over the channel of the other end;
the threads and the engines move in any order, and no `Take` gets `2 ^ 64` items.  As long as the
loop's queue has room where the producer stands at a `send`, the connection is left alone and the
reads do not run into the read buffer's defect, the list collected so far is a prefix of the list
`l` that the uncut pipeline collects, and it is `l` when everything has arrived or when a step of
the consumer has answered `false`. -/
theorem remote_collects {fuel : ℕ} {cfg : ι → NetEngineConfig} {L : Link ι}
    {nets : ι → Net Unit UInt64} {a b : Connection Unit} (owner : ℕ) (P : Chain σ F I UInt64)
    (C : Chain τ G (ProtoMsg UInt64) R) (xs : List I)
    (hfit : (Remote.uncut P C L.dst.2).chain.Fits xs) (hfuel : (cfg L.dst.1).readBufSz < fuel)
    (hfresh : Network.Fresh U64Protocol fuel cfg L nets a b)
    (hquiet : ∀ m ∈ (nets L.dst.1).sent, m.1 ≠ b.connTx) :
    ∃ l, Collects xs (Remote.uncut P C L.dst.2).chain l ∧
      ∀ es s, Reach (Remote.step fuel L b.connTx (sender P L.src.2 owner).chain C)
          (Remote.Undisturbed L b.connTx)
          (Remote.start (sender P L.src.2 owner).chain C nets xs) es s →
        WellRead (cfg L.dst.1) (Network.readsOf L (es.filterMap Posting.Event.net?)) →
        ∃ l', Remote.collected C s = some l' ∧ l' <+: l ∧
          (s.rest.answered = true ∨ Remote.Settled L b.connTx s → l' = l) := by
  obtain ⟨hP, hC⟩ := (P.fits_append _ xs).mp hfit
  refine ⟨_, collects_denote xs _ hfit, ?_⟩
  intro es s hrun hreads
  rw [Remote.denote_uncut]
  obtain ⟨ns, hinv⟩ := Remote.inv_reach hfuel hfresh hquiet hP hC.2 hrun hreads
  have hpre : s.received L b.connTx <+: (P.denote xs).map fun x => ⟨x, L.dst.2⟩ :=
    (List.take_prefix _ _).trans (Remote.arrived_prefix_words hfuel hfresh hquiet hinv hreads)
  obtain ⟨seen, hconsumer⟩ := hinv.consumer
  refine ⟨C.denote (s.received L b.connTx), ?_, C.denote_mono hpre, ?_⟩
  · simp [Remote.collected, hconsumer, C.terminal_assemble]
  · rintro (hanswered | hsettled)
    · obtain ⟨ds, d, ⟨rest, hrest⟩, hstall⟩ := hinv.answered hanswered
      obtain ⟨more, hmore⟩ := hpre
      have hreceived : s.received L b.connTx = ds ++ d :: rest := by simp [← hrest]
      rw [← hmore, hreceived, List.append_assoc, List.cons_append,
        C.denote_stall ds d rest hstall, C.denote_stall ds d (rest ++ more) hstall]
    · rw [Remote.received_of_settled hfuel hfresh hquiet hinv hreads hsettled]

end Collects

/-! ## At a client's end -/

namespace Remote

open Network Split Posting

variable {ι σ τ : Type} [DecidableEq ι] {F G : Type → Type} {I R : Type}
variable {fuel tx id : ℕ} {L : Link ι} {Q : Chain σ F I StreamBuf}
  {C : Chain τ G (ProtoMsg UInt64) R} {nets : ι → Net Unit UInt64} {xs : List I}
  {es : List (Event ι)} {s u : State ι I R F G}

/-- An event that leaves the two ends of the connection alone and finds room where it needs some. -/
abbrev LeavesAlone (L : Link ι) (s : State ι I R F G) (e : Event ι) : Prop :=
  Posting.LeavesAlone L (fun p => p = []) (fun _ => true) s e

omit [DecidableEq ι] in
/-- The two threads do not touch the engines but by sending. -/
lemma own_net {o : Own} (hs : own L tx Q C s o = Outcome.ret u) : u.net = s.net := by
  cases o with
  | produce =>
      cases hth : s.thread with
      | idle p =>
          simp only [own, hth, Outcome.pure_eq, Outcome.ret.injEq] at hs
          rw [← hs]
      | _ => simp [own, hth] at hs
  | consume =>
      obtain ⟨r, -, hs⟩ := Outcome.bind_eq_ret.mp hs
      obtain rfl := Outcome.ret.inj hs
      rfl

/-- **The channel that `connect` returned is its own**: at a client's end nobody else can disturb,
so it is enough that the connection is left alone. -/
lemma undisturbed_of_owned (howned : Net.Owned tx L.dst.2 id (nets L.dst.1))
    (h : Reach (step fuel L tx Q C) (LeavesAlone L) (start Q C nets xs) es s) :
    Reach (step fuel L tx Q C) (Undisturbed L tx) (start Q C nets xs) es s := by
  refine (undisturbed_of (K := Net.Owned tx L.dst.2 id) (fun _ _ _ => own_net) (fun _ => rfl)
    ?_ ?_ howned h).1
  · intro r hr t' c hc htx
    exact (hr.conns t' c hc htx).1
  · intro r e v hr _ hs
    exact hr.step hs

/-! ### An echo -/

/-- A client connects and is accepted, and the server hears one word from it; now the server can
answer. -/
def echoSetup : List Net.Event :=
  [Net.Event.listen "127.0.0.1" 10001 (Except.ok ()) (Except.ok ()) (Except.ok ()) (some 0)
      (Except.ok ()),
    Net.Event.connected 256,
    Net.Event.readable 0 false (AcceptAnswer.ready (some 257)) ReadAnswer.wouldBlock,
    Net.Event.send (retag 256 0 (isizeToStrbuf 7)),
    Net.Event.notify [WriteAnswer.ready 8],
    Net.Event.readable 257 false AcceptAnswer.failed (ReadAnswer.ready (u64Bytes 7))]

/-- From the server's end to the client's. -/
def echo : Link Unit := ⟨((), 257), ((), 256)⟩

/-- The server's pipeline sends three words, one at a time as the loop's queue holds no more; the
client reads two of them at once, takes one, reads the third and takes the rest. -/
def echoRun : List (Event Unit) :=
  [.own .produce, .proceed, .proceed,
    .net ((), Net.Event.notify [WriteAnswer.ready 3, WriteAnswer.ready 5]),
    .own .produce, .proceed, .proceed,
    .net ((), Net.Event.notify [WriteAnswer.ready 8]),
    .net ((), Net.Event.readable 256 false AcceptAnswer.failed
      (ReadAnswer.ready (u64Bytes 5 ++ u64Bytes 6))),
    .own .consume, .own .produce, .proceed, .proceed, .own .produce, .proceed,
    .net ((), Net.Event.notify [WriteAnswer.ready 8]),
    .net ((), Net.Event.readable 256 false AcceptAnswer.failed
      (ReadAnswer.ready (u64Bytes 7))),
    .own .consume, .own .consume]

/-- `Map(| ProtoMsg (x, _) | x)` -/
abbrev items : Chain (Unit × Unit) (fun T => Map (ProtoMsg UInt64) UInt64 T) (ProtoMsg UInt64)
    UInt64 := Chain.cons (Proc.map ProtoMsg.item) Chain.nil

/-- The producer's chain in the echo. -/
abbrev echoed := sender (Chain.nil : Chain Unit (fun T => T) UInt64 UInt64) 257 1

/-- The engine of the echo: the server is about to answer, and the client owns its channel. -/
lemma fresh_echo : ∃ (s₀ : Net Unit UInt64) (a b : Connection Unit),
    Fresh U64Protocol 1537 (fun _ => oneMessage) echo (fun _ => s₀) a b ∧
      b.connTx = 1 ∧ (∀ m ∈ s₀.sent, m.1 ≠ 1) ∧ Net.Owned 1 256 0 s₀ ∧
      ∃ s, Reach (step 1537 echo 1 echoed.chain items) (LeavesAlone echo)
        (start echoed.chain items (fun _ => s₀) [5, 6, 7]) echoRun s ∧ Settled echo 1 s ∧
        collected items s = some [5, 6, 7] := by
  obtain ⟨s₁, u, s₀, hlisten, hsock, hconnect, hrest, hexec, a, ha, b, hb, hwritten, hout, hqueue,
      hmarker, hbuf, htx, hsent, s, hrun, ⟨p, hended⟩, hempty, c, hc, hcout, hcread, htaken,
      hcollected⟩ :
      ∃ s₁ u s₀ : Net Unit UInt64, execute (Net.step U64Protocol 1537) (fun _ _ => true)
          (Net.new oneMessage) (echoSetup.take 1) = some s₁ ∧
        s₁.nextSock = 0 ∧ s₁.connect U64Protocol "localhost" 10000 (Except.ok ()) (some 256)
          (Except.ok ()) (Except.ok ()) = Outcome.ret (u, Except.ok ⟨256, 1⟩) ∧
        execute (Net.step U64Protocol 1537) (fun _ _ => true) u (echoSetup.drop 2) = some s₀ ∧
        execute (Net.step U64Protocol 1537) (fun _ _ => true)
          (Net.new oneMessage) echoSetup = some s₀ ∧
        ∃ a, s₀.conns.get 257 = some a ∧ ∃ b, s₀.conns.get 256 = some b ∧ a.sock.written = [] ∧
        a.outbuf = [] ∧ Net.queuedFor 257 s₀.queue = [] ∧ b.marker = 0 ∧
        b.buf = oneMessage.newBuf ∧ b.connTx = 1 ∧ s₀.sent.map Prod.fst = [0] ∧
        ∃ s, execute (step 1537 echo 1 echoed.chain items)
            (fun s e => decide (LeavesAlone echo s e))
            (start echoed.chain items (fun _ => s₀) [5, 6, 7]) echoRun = some s ∧
          (∃ p, s.thread = Thread.ended p) ∧ Net.queuedFor 257 (s.net.nets ()).queue = [] ∧
          ∃ c, (s.net.nets ()).conns.get 257 = some c ∧ c.outbuf = [] ∧
            c.sock.sent.length = s.net.read ∧ (s.arrived echo 1).length = s.taken ∧
            collected items s = some [5, 6, 7] :=
    ⟨_, _, _, rfl, rfl, rfl, rfl, rfl, _, rfl, _, rfl, rfl, rfl, rfl, rfl, rfl, rfl, rfl, _, rfl,
      ⟨_, rfl⟩, rfl, _, rfl, rfl, rfl, rfl, rfl⟩
  have hreach : Reach (Net.step U64Protocol 1537) anyStep (Net.new oneMessage) echoSetup s₀ :=
    reach_of_execute (fun _ _ _ => trivial) hexec
  have hcharted : s₁.Charted := Net.charted_reach (reach_of_execute (fun _ _ _ => trivial) hlisten)
  have hafter : Reach (Net.step U64Protocol 1537) anyStep u (echoSetup.drop 2) s₀ :=
    reach_of_execute (fun _ _ _ => trivial) hrest
  have howned : Net.Owned 1 256 0 s₀ := by
    rw [← hsock]
    exact hafter.invariant (Net.owned_connect hcharted hconnect) fun _ _ _ ht _ hs => ht.step hs
  refine ⟨s₀, a, b, ⟨fun _ => ⟨_, hreach⟩, ha, hb, hwritten, hout, hqueue, hmarker, hbuf⟩, htx, ?_,
    howned, s, reach_of_execute (fun _ _ => of_decide_eq_true) hrun,
    ⟨⟨p, hended⟩, hempty, ?_, Nat.le_of_eq htaken⟩, hcollected⟩
  · intro m hm
    have hfst : m.1 ∈ s₀.sent.map Prod.fst := List.mem_map_of_mem hm
    rw [hsent, List.mem_singleton] at hfst
    rw [hfst]
    decide
  · intro c' hc'
    obtain rfl : c' = c := Option.some.inj (hc'.symm.trans hc)
    exact ⟨hcout, hcread⟩

/-- The server's answers are collected in order, as by the uncut pipeline. -/
theorem remote_collects_echo : ∃ (s₀ : Net Unit UInt64)
    (s : State Unit UInt64 UInt64 echoed.Object (fun T => Map (ProtoMsg UInt64) UInt64 T)),
    Reach (step 1537 echo 1 echoed.chain items) (Undisturbed echo 1)
      (start echoed.chain items (fun _ => s₀) [5, 6, 7]) echoRun s ∧
    collected items s = some [5, 6, 7] ∧
    Collects [5, 6, 7] (uncut (Chain.nil : Chain Unit (fun T => T) UInt64 UInt64) items 256).chain
      [5, 6, 7] := by
  obtain ⟨s₀, a, b, hfresh, htx, hquiet, howned, s, halone, hsettled, hcollected⟩ := fresh_echo
  have hrun := undisturbed_of_owned howned halone
  have hreads : WellRead oneMessage (readsOf echo (echoRun.filterMap Posting.Event.net?)) := by
    have hlen : (readsOf echo (echoRun.filterMap Posting.Event.net?)).map List.length
        = [16, 8] := by decide
    refine ⟨by rw [hlen]; decide, ?_⟩
    rw [hlen]
    intro ns n ms hns _
    refine Or.inl fun x hx => ?_
    have hmem : x ∈ [16, 8] := hns ▸ List.mem_append_left _ hx
    simp only [List.mem_cons, List.not_mem_nil, or_false] at hmem
    rcases hmem with rfl | rfl
    · decide
    · decide
  rw [← htx] at hrun hsettled hquiet
  have hfits : (uncut (Chain.nil : Chain Unit (fun T => T) UInt64 UInt64) items 256).chain.Fits
      [5, 6, 7] := show _ ∧ _ ∧ _ from ⟨trivial, trivial, trivial⟩
  obtain ⟨l, hl, hall⟩ := remote_collects 1 (Chain.nil : Chain Unit (fun T => T) UInt64 UInt64)
    items [5, 6, 7] hfits (by decide) hfresh hquiet
  obtain ⟨l', hl', -, hend⟩ := hall echoRun s hrun hreads
  obtain rfl : l' = l := hend (Or.inr hsettled)
  obtain rfl : l' = [5, 6, 7] := Option.some.inj (hl'.symm.trans hcollected)
  refine ⟨s₀, s, ?_, hcollected, hl⟩
  rw [← htx]
  exact hrun

end Remote

end Rx
