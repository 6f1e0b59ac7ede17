import RxRust.Reactor.Posting
import RxRust.Stream.EventQueue

/-!
# A ring

The integration test of the repository: an engine listens and connects to itself, and a thread takes
what arrives at the accepted end off its channel and sends it back out of the client's end, where it
arrives again.  Whatever is put in goes round until the engine is shut down.

The two ends may be in different engines and the thread's chain may be any that hands each message
on as it is, addressed to the sending end.  Messages may be put in at any time.

* `Ring.State`, `Ring.step` — the relay's thread and the engines, one event at a time.
* `Ring.HandsOn` — a chain that gives one message for each, with the same payload.
* `Ring.Inv` — what was posted is what was put in and what the relay has sent, in some order.
* **`Ring.circulates`** — in every state the messages in the ring are those that were put in: each
  is on the channel, with the relay, or among the bytes on their way to it, unchanged.
-/

namespace Rx

open Core

namespace Ring

open Network Split Posting

variable {ι τ : Type} [DecidableEq ι] {G : Type → Type}

/-- The relay's thread and the engines. -/
abbrev State (ι : Type) (G : Type → Type) := Posting ι Unit AROIobuf (G (Decoupler Unit)) Unit

/-- The relay takes a message off its channel. -/
inductive Own where
  | take

abbrev Event (ι : Type) := Posting.Event ι Own

section Step

variable (size fuel : ℕ) (L : Link ι) (tx : ℕ) (C : Chain τ G (ProtoMsg AROIobuf) StreamBuf)

/-- `Coupler(rx); C; Decoupler(tx)` as built. -/
def start (nets : ι → Net Unit AROIobuf) : State ι G where
  thread := Thread.idle ((C.toSubscriber (decoupler StreamBuf)).onSubscribe
    (C.build (decoupler StreamBuf) ⟨()⟩) 0)
  net := Network.start nets
  taken := 0
  sent := []
  rest := ()

/-- What happens besides what happens in every `Posting`.  The `Coupler` waits while there is
nothing on its channel. -/
def own (s : State ι G) : Own → Outcome (State ι G)
  | Own.take => match s.thread, (s.arrived L tx).drop s.taken with
    | Thread.idle p, msg :: _ =>
        pure { s with
          thread := Thread.busy (publish (C.toSubscriber (decoupler StreamBuf)) p (some msg))
          taken := s.taken + 1 }
    | _, _ => Outcome.stuck

/-- One event. -/
abbrev step (s : State ι G) (e : Event ι) : Outcome (State ι G) :=
  Posting.step (BufProtocol size) fuel L (own L tx C) s e

/-- The queue takes what the relay sends, neither end of the connection hangs up, what others post
for the one end is a whole frame, and nobody else sends on the channel of the other. -/
abbrev Undisturbed (s : State ι G) (e : Event ι) : Prop :=
  Posting.Undisturbed L tx (fun p => p = [] ∨ p.length = size) s e

end Step

/-- The payloads that others have posted for the sending end. -/
def seeds (L : Link ι) (es : List (Event ι)) : List (List UInt8) :=
  ((es.filterMap Posting.Event.net?).map (postAt L)).filter fun p => !p.isEmpty

/-- The payloads of messages. -/
abbrev payloads (ms : List (ProtoMsg AROIobuf)) : List (List UInt8) := ms.map fun m => m.item.window

/-- The payloads on the channel that the relay has not sent on. -/
def held (L : Link ι) (tx : ℕ) (s : State ι G) : List (List UInt8) :=
  (payloads (s.arrived L tx)).drop s.sent.length

/-! ## The relay -/

/-- For each message the chain gives one, addressed to the token and with the same payload. -/
def HandsOn (t : Token) (C : Chain τ G (ProtoMsg AROIobuf) StreamBuf) : Prop :=
  ∀ a m, ∃ o, Signal.values (C.callsFor a m) = [o] ∧ o.tok = t ∧ o.bytes = m.item.window

section Relay

variable {C : Chain τ G (ProtoMsg AROIobuf) StreamBuf} {t : Token}
  {got : List (ProtoMsg AROIobuf)} {sent : List (List UInt8)}

/-- Where the relay stands when it has taken the messages `got` and the queue has taken all it has
sent. -/
def RelayAt (C : Chain τ G (ProtoMsg AROIobuf) StreamBuf) (t : Token)
    (got : List (ProtoMsg AROIobuf)) (sent : List (List UInt8)) :
    Thread StreamBuf (G (Decoupler Unit)) → Prop
  | Thread.idle p => p = C.assemble ⟨()⟩ (stateAfter C got) ∧ sent = payloads got
  | Thread.busy prog => ∃ vs b,
      prog = (fun r => (C.assemble r.1 (stateAfter C got), r.2)) <$> sendAll vs b ∧
      (vs = [] → b = true) ∧ (∀ v ∈ vs, v.tok = t) ∧
      sent ++ vs.map StreamBuf.bytes = payloads got
  | _ => False

/-- The relay gets a message. -/
lemma RelayAt.take (hC : HandsOn t C) {p : G (Decoupler Unit)}
    (h : RelayAt C t got sent (Thread.idle p)) (m : ProtoMsg AROIobuf) :
    RelayAt C t (got ++ [m]) sent
      (Thread.busy (publish (C.toSubscriber (decoupler StreamBuf)) p (some m))) := by
  obtain ⟨rfl, rfl⟩ := h
  obtain ⟨o, hvalues, htok, hbytes⟩ := hC got m
  refine ⟨[o], false, ?_, by simp, ?_, ?_⟩
  · rw [publish, onNext_decoupler, hvalues]
  · intro v hv
    rw [List.mem_singleton.mp hv]
    exact htok
  · simp [payloads, hbytes]

/-- The call of `next` comes back, and the answer is `true`. -/
lemma RelayAt.finish {r : G (Decoupler Unit) × Bool}
    (h : RelayAt C t got sent (Thread.busy (Interact.ret r))) :
    RelayAt C t got sent (if r.2 then Thread.idle r.1 else Thread.ended r.1) := by
  obtain ⟨vs, b, hprog, hb, -, hsent⟩ := h
  cases vs with
  | nil =>
      obtain rfl := Interact.ret.inj hprog
      rw [if_pos (hb rfl)]
      exact ⟨rfl, by simpa using hsent⟩
  | cons v vs => cases hprog

/-- The queue takes a message. -/
lemma RelayAt.push {v : StreamBuf}
    {k : Except StreamBuf Unit → Sending StreamBuf (G (Decoupler Unit) × Bool)}
    (h : RelayAt C t got sent (Thread.busy (Interact.ask v k))) :
    v.tok = t ∧ v.bytes ∈ payloads got ∧
      RelayAt C t got (sent ++ [v.bytes]) (Thread.busy (k (Except.ok ()))) := by
  obtain ⟨vs, b, hprog, -, htok, hsent⟩ := h
  cases vs with
  | nil => cases hprog
  | cons u vs =>
      obtain ⟨rfl, rfl⟩ := Interact.ask.inj hprog
      refine ⟨htok v List.mem_cons_self, by simp [← hsent], vs, b || true, rfl, by simp, ?_, ?_⟩
      · exact fun u hu => htok u (List.mem_cons_of_mem v hu)
      · simpa using hsent

/-- What the relay has sent are the first payloads it has taken. -/
lemma RelayAt.prefix_payloads {thread : Thread StreamBuf (G (Decoupler Unit))}
    (h : RelayAt C t got sent thread) : sent <+: payloads got := by
  cases thread with
  | idle p => exact h.2 ▸ List.prefix_rfl
  | busy prog =>
      obtain ⟨vs, b, -, -, -, hsent⟩ := h
      exact ⟨_, hsent⟩
  | ended p => exact h.elim
  | dropped => exact h.elim

end Relay

/-! ## The channel -/

section Channel

variable {size fuel : ℕ} {cfg : ι → NetEngineConfig} {L : Link ι} {nets : ι → Net Unit AROIobuf}
  {a b : Connection Unit} {ns : List (ι × Net.Event)} {w : Network ι Unit AROIobuf}

omit [DecidableEq ι] in
/-- What arrives on a channel on which nothing was sent before. -/
lemma payloads_channel {fs : List (List UInt8)} {tx : ℕ} {t : Token} {s u : Net Unit AROIobuf}
    (hquiet : ∀ m ∈ s.sent, m.1 ≠ tx) (htok : u.Tokened tx t)
    (h : u.payloadsOf t = s.payloadsOf t ++ fs.map fun f => (tx, f)) :
    payloads (u.channel tx) = fs := by
  have hbefore : (s.payloadsOf t).filter (fun p => decide (p.1 = tx)) = [] := by
    rw [List.filter_eq_nil_iff]
    intro p hp
    obtain ⟨m, hm, rfl⟩ := List.mem_map.mp hp
    simpa using hquiet m (List.mem_of_mem_filter hm)
  have hpick : payloads (u.channel tx)
      = ((u.payloadsOf t).filter fun p => decide (p.1 = tx)).map Prod.snd := by
    rw [Net.channel_eq_tagged htok, Net.payloadsOf, List.filter_map, List.map_map, payloads,
      List.map_map]
    rfl
  rw [hpick, h, List.filter_append, hbefore, List.nil_append]
  simp [List.filter_map, Function.comp_def]

/-- The messages on the channel are frames. -/
lemma length_payloads (hsize : 0 < size) (hfuel : (cfg L.dst.1).readBufSz < fuel)
    (hfresh : Fresh (BufProtocol size) fuel cfg L nets a b)
    (hquiet : ∀ m ∈ (nets L.dst.1).sent, m.1 ≠ b.connTx)
    (h : Reach (Network.step (BufProtocol size) fuel L) (Open L) (Network.start nets) ns w)
    (htok : (w.nets L.dst.1).Tokened b.connTx L.dst.2) :
    ∀ p ∈ payloads ((w.nets L.dst.1).channel b.connTx), p.length = size := by
  rw [payloads_channel hquiet htok (received_reach hsize hfuel hfresh h).sent]
  exact fun p hp => reader_run_size _ _ p hp

end Channel

/-! ## The invariant -/

section Invariant

variable (size fuel : ℕ) (L : Link ι) (tx : ℕ) (C : Chain τ G (ProtoMsg AROIobuf) StreamBuf)
  (nets : ι → Net Unit AROIobuf)

/-- The invariant: the engines have gone through `ns`, and the payloads `ps` were posted. -/
structure Inv (es : List (Event ι)) (s : State ι G) (ns : List (ι × Net.Event))
    (ps : List (List UInt8)) : Prop where
  base : Posting.Inv (BufProtocol size) fuel L tx nets es s ns
  posted : posted L ns = ps.flatten
  perm : ps.Perm (seeds L es ++ s.sent.map StreamBuf.bytes)
  sized : ∀ p ∈ ps, p.length = size
  relay : RelayAt C L.src.2 (s.received L tx) (s.sent.map StreamBuf.bytes) s.thread

end Invariant

variable {size fuel : ℕ} {L : Link ι} {tx : ℕ} {C : Chain τ G (ProtoMsg AROIobuf) StreamBuf}
  {nets : ι → Net Unit AROIobuf} {es : List (Event ι)} {s u : State ι G}
  {ns : List (ι × Net.Event)} {ps : List (List UInt8)}

lemma inv_start (hquiet : ∀ m ∈ (nets L.dst.1).sent, m.1 ≠ tx) :
    Inv size fuel L tx C nets [] (start C nets) [] [] := by
  have hnone : (start C nets : State ι G).received L tx = [] := List.take_zero
  refine ⟨Posting.inv_start hquiet _ _, rfl, by simp [seeds, start], by simp, ?_⟩
  rw [hnone]
  refine ⟨?_, rfl⟩
  rw [C.onSubscribe_build]
  rfl

lemma seeds_of_none {e : Event ι} (he : e.net? = none) (L : Link ι) (es : List (Event ι)) :
    seeds L (es ++ [e]) = seeds L es := by
  rw [seeds, nets_snoc he, seeds]

lemma seeds_snoc (L : Link ι) (es : List (Event ι)) (e : Event ι) :
    seeds L (es ++ [e]) = seeds L es ++ seeds L [e] := by
  simp [seeds]

/-- The relay takes a message off its channel. -/
lemma Inv.take (hC : HandsOn L.src.2 C) (h : Inv size fuel L tx C nets es s ns ps)
    (hs : own L tx C s Own.take = Outcome.ret u) :
    Inv size fuel L tx C nets (es ++ [Posting.Event.own Own.take]) u ns ps := by
  cases hth : s.thread with
  | idle p =>
      cases hq : (s.arrived L tx).drop s.taken with
      | nil => simp [own, hth, hq] at hs
      | cons m rest =>
          simp only [own, hth, hq, Outcome.pure_eq, Outcome.ret.injEq] at hs
          subst hs
          have hgot : (s.arrived L tx).take (s.taken + 1) = s.received L tx ++ [m] := by
            rw [received, List.take_add, hq]
            rfl
          have hlen := congrArg List.length hq
          rw [List.length_drop, List.length_cons] at hlen
          refine ⟨h.base.stay rfl rfl ?_, h.posted, ?_, h.sized, ?_⟩
          · show s.taken + 1 ≤ (s.arrived L tx).length
            omega
          · rw [seeds_of_none rfl]
            exact h.perm
          · show RelayAt C L.src.2 ((s.arrived L tx).take (s.taken + 1)) _ _
            rw [hgot]
            exact RelayAt.take hC (hth ▸ h.relay) m
  | _ => simp [own, hth] at hs

/-- The relay's call of `next` comes back. -/
lemma Inv.finish (h : Inv size fuel L tx C nets es s ns ps) {r : G (Decoupler Unit) × Bool}
    (hth : s.thread = Thread.busy (Interact.ret r)) :
    Inv size fuel L tx C nets (es ++ [Posting.Event.proceed])
      { s with thread := if r.2 then Thread.idle r.1 else Thread.ended r.1 } ns ps := by
  refine ⟨h.base.stay rfl rfl h.base.within, h.posted, ?_, h.sized,
    RelayAt.finish (hth ▸ h.relay)⟩
  rw [seeds_of_none rfl]
  exact h.perm

/-- The relay sends a message. -/
lemma Inv.sent (hsizes : ∀ p ∈ payloads (s.arrived L tx), p.length = size)
    (h : Inv size fuel L tx C nets es s ns ps) {msg : StreamBuf}
    {k : Except StreamBuf Unit → Sending StreamBuf (G (Decoupler Unit) × Bool)}
    {net : Network ι Unit AROIobuf} (hth : s.thread = Thread.busy (Interact.ask msg k))
    (hnet : s.net.step (BufProtocol size) fuel L (L.src.1, Net.Event.send msg)
      = Outcome.ret net) :
    Inv size fuel L tx C nets (es ++ [Posting.Event.proceed])
      { s with thread := Thread.busy (k (Except.ok ())), net := net, sent := s.sent ++ [msg] }
      (ns ++ [(L.src.1, Net.Event.send msg)]) (ps ++ [msg.bytes]) := by
  obtain ⟨htok, hmem, hrelay⟩ := RelayAt.push (hth ▸ h.relay)
  have hpost : postAt L (L.src.1, Net.Event.send msg) = msg.bytes := by
    simp [postAt, Net.Event.posts, htok]
  have hrec := h.base.received_eq (u := { s with
    thread := Thread.busy (k (Except.ok ())), net := net, sent := s.sent ++ [msg] }) hnet rfl
  refine ⟨h.base.sent hnet rfl, ?_, ?_, ?_, ?_⟩
  · rw [posted_snoc, h.posted, hpost]
    simp
  · rw [seeds_of_none rfl]
    simpa using h.perm.append_right [msg.bytes]
  · intro p hp
    rcases List.mem_append.mp hp with hp | hp
    · exact h.sized p hp
    · rw [List.mem_singleton.mp hp]
      exact hsizes _ (((List.take_prefix _ _).map _).subset hmem)
  · rw [hrec]
    simpa using hrelay

/-- An engine takes an event, and perhaps a message is put in. -/
lemma Inv.net (h : Inv size fuel L tx C nets es s ns ps) {e : ι × Net.Event}
    {net : Network ι Unit AROIobuf} (hopen : Open L s.net e)
    (hpost : postAt L e = [] ∨ (postAt L e).length = size)
    (hsole : (s.net.nets L.dst.1).Sole tx L.dst.2)
    (hnet : s.net.step (BufProtocol size) fuel L e = Outcome.ret net) :
    Inv size fuel L tx C nets (es ++ [Posting.Event.net e]) { s with net := net } (ns ++ [e])
      (ps ++ seeds L [Posting.Event.net e]) := by
  have hflat : (seeds L [Posting.Event.net e]).flatten = postAt L e := by
    cases hp : postAt L e <;> simp [seeds, Posting.Event.net?, hp]
  have hrec := h.base.received_eq (u := { s with net := net }) hnet rfl
  refine ⟨h.base.moved hnet rfl hopen (tokened_step hsole h.base.tokened hnet) rfl, ?_, ?_, ?_, ?_⟩
  · rw [posted_snoc, h.posted, List.flatten_append, hflat]
  · rw [seeds_snoc, List.append_assoc]
    have hswap : (seeds L es ++ s.sent.map StreamBuf.bytes ++ seeds L [Posting.Event.net e]).Perm
        (seeds L es ++ (seeds L [Posting.Event.net e] ++ s.sent.map StreamBuf.bytes)) := by
      rw [List.append_assoc]
      exact List.perm_append_comm.append_left _
    exact (h.perm.append_right _).trans hswap
  · intro p hp
    rcases List.mem_append.mp hp with hp | hp
    · exact h.sized p hp
    · obtain ⟨hp, hne⟩ := List.mem_filter.mp hp
      obtain rfl : p = postAt L e := by simpa [Posting.Event.net?] using hp
      rcases hpost with hnone | hlen
      · simp [hnone] at hne
      · exact hlen
  · rw [hrec]
    exact h.relay

section Run

variable {cfg : ι → NetEngineConfig} {a b : Connection Unit}

/-- **Every event keeps the invariant**, and so it holds in every run. -/
lemma inv_reach (hsize : 0 < size) (hfuel : (cfg L.dst.1).readBufSz < fuel)
    (hfresh : Fresh (BufProtocol size) fuel cfg L nets a b)
    (hquiet : ∀ m ∈ (nets L.dst.1).sent, m.1 ≠ b.connTx) (hC : HandsOn L.src.2 C)
    (h : Reach (step size fuel L b.connTx C) (Undisturbed size L b.connTx) (start C nets) es s) :
    ∃ ns ps, Inv size fuel L b.connTx C nets es s ns ps := by
  induction h with
  | nil => exact ⟨[], [], inv_start hquiet⟩
  | @snoc es t u e _ hok hs ih =>
      obtain ⟨ns, ps, hinv⟩ := ih
      rcases undisturbed_cases hok hs with ⟨r, rfl, hth, rfl⟩ | ⟨msg, k, net, rfl, hth, hnet, rfl⟩ |
        ⟨e, net, rfl, hopen, hpost, hsole, hnet, rfl⟩ | ⟨⟨⟩, rfl, hs⟩
      · exact ⟨ns, ps, hinv.finish hth⟩
      · have hsizes := length_payloads hsize hfuel hfresh hquiet hinv.base.reached
          hinv.base.tokened
        exact ⟨_, _, hinv.sent hsizes hth hnet⟩
      · exact ⟨_, _, hinv.net hopen hpost hsole hnet⟩
      · exact ⟨ns, ps, hinv.take hC hs⟩

/-- Of what was posted, as much as has been read is on the channel. -/
lemma payloads_arrived (hsize : 0 < size) (hfuel : (cfg L.dst.1).readBufSz < fuel)
    (hfresh : Fresh (BufProtocol size) fuel cfg L nets a b)
    (hquiet : ∀ m ∈ (nets L.dst.1).sent, m.1 ≠ b.connTx)
    (h : Inv size fuel L b.connTx C nets es s ns ps)
    (hrests : (((readsOf L ns).map List.length).map fun n => n % size).sum < size)
    (hkeeps : KeepsUp (cfg L.dst.1).readBufSz (cfg L.dst.1).low size
      ((readsOf L ns).map List.length)) :
    payloads (s.arrived L b.connTx) = ps.take ((readsOf L ns).flatten.length / size) :=
  payloads_channel hquiet h.base.tokened
    (frames_arrived hsize hfuel hfresh h.base.reached h.posted h.sized hrests hkeeps)

/-- What the relay has sent and what it has not are together what is on the channel. -/
lemma Inv.sent_append_held (h : Inv size fuel L tx C nets es s ns ps) :
    s.sent.map StreamBuf.bytes ++ held L tx s = payloads (s.arrived L tx) := by
  have hpre : s.sent.map StreamBuf.bytes <+: payloads (s.arrived L tx) :=
    h.relay.prefix_payloads.trans ((List.take_prefix _ _).map _)
  have hsent : s.sent.map StreamBuf.bytes = (payloads (s.arrived L tx)).take s.sent.length := by
    simpa using List.prefix_iff_eq_take.mp hpre
  rw [hsent, held, List.take_append_drop]

/-- **Nothing is lost or made in the ring.**  Any number of engines with `BufProtocol`, each in any
state it can reach, and among them a connection that has just been made and whose receiving end has
a channel on which nothing was sent.  A relay takes the messages off the channel and sends them out
of the other end, while others put messages in; the relay and the engines move in any order.  As
long as the loop's queue has room where the relay stands at a `send`, the connection is left alone
and the reads do not run into the read buffer's defect, the relay goes on, and the payloads that are
held, on the channel or by the relay, and those that are on their way to it, are together the
payloads that were put in. -/
theorem circulates (hsize : 0 < size) (hfuel : (cfg L.dst.1).readBufSz < fuel)
    (hfresh : Fresh (BufProtocol size) fuel cfg L nets a b)
    (hquiet : ∀ m ∈ (nets L.dst.1).sent, m.1 ≠ b.connTx) (hC : HandsOn L.src.2 C)
    (h : Reach (step size fuel L b.connTx C) (Undisturbed size L b.connTx) (start C nets) es s)
    (hrests : (((readsOf L (es.filterMap Posting.Event.net?)).map List.length).map
      fun n => n % size).sum < size)
    (hkeeps : KeepsUp (cfg L.dst.1).readBufSz (cfg L.dst.1).low size
      ((readsOf L (es.filterMap Posting.Event.net?)).map List.length)) :
    (∀ p, s.thread ≠ Thread.ended p) ∧
    ∃ c flying, (s.net.nets L.src.1).conns.get L.src.2 = some c ∧
      (∀ p ∈ flying, p.length = size) ∧
      flying.flatten
        = (readsOf L (es.filterMap Posting.Event.net?)).flatten.drop
            (size * (s.arrived L b.connTx).length)
          ++ c.sock.sent.drop s.net.read ++ Connection.outBytes c.outbuf
          ++ Net.queuedFor L.src.2 (s.net.nets L.src.1).queue ∧
      (held L b.connTx s ++ flying).Perm (seeds L es) := by
  obtain ⟨ns, ps, hinv⟩ := inv_reach hsize hfuel hfresh hquiet hC h
  rw [← hinv.base.reads] at hrests hkeeps ⊢
  obtain ⟨c, hc⟩ := conserved_reach hfresh hinv.base.reached
  have harrived := payloads_arrived hsize hfuel hfresh hquiet hinv hrests hkeeps
  have hall : (readsOf L ns).flatten ++ (c.sock.sent.drop s.net.read
      ++ Connection.outBytes c.outbuf ++ Net.queuedFor L.src.2 (s.net.nets L.src.1).queue)
        = ps.flatten := by
    rw [← hinv.posted, ← hc.out, hc.read, Net.stream]
    simp only [← List.append_assoc, List.take_append_drop]
  obtain ⟨hle, hflat⟩ := flatten_drop_frames hsize hinv.sized hall
  have hcount : (s.arrived L b.connTx).length = (readsOf L ns).flatten.length / size := by
    rw [← List.length_map, ← payloads, harrived, List.length_take, Nat.min_eq_left hle]
  refine ⟨?_, c, ps.drop ((readsOf L ns).flatten.length / size), hc.conn, ?_, ?_, ?_⟩
  · intro p hended
    have hrelay := hinv.relay
    rw [hended] at hrelay
    exact hrelay
  · exact fun p hp => hinv.sized p (List.mem_of_mem_drop hp)
  · rw [hflat, hcount]
    simp only [List.append_assoc]
  · -- what the relay has sent is on both sides
    have hperm : (s.sent.map StreamBuf.bytes ++ (held L b.connTx s
        ++ ps.drop ((readsOf L ns).flatten.length / size))).Perm
          (s.sent.map StreamBuf.bytes ++ seeds L es) := by
      rw [← List.append_assoc, hinv.sent_append_held, harrived, List.take_append_drop]
      exact hinv.perm.trans List.perm_append_comm
    exact (List.perm_append_left_iff _).mp hperm

end Run

/-! ## At a listener's end -/

/-- The event accepts a connection. -/
def accepts : Net.Event → Bool
  | Net.Event.readable _ _ (AcceptAnswer.ready (some _)) _ => true
  | _ => false

omit [DecidableEq ι] in
/-- As long as nobody else is accepted, nobody else sends on the channel. -/
lemma sole_of_not_accepts {t : Token} {r v : Net Unit AROIobuf} {e : Net.Event}
    (hmade : tx < r.nextChan) (h : r.Sole tx t) (he : accepts e = false)
    (hs : r.step (BufProtocol size) fuel e = Outcome.ret v) :
    tx < v.nextChan ∧ v.Sole tx t := by
  have hch := Net.step_channels hs
  refine ⟨Nat.lt_of_lt_of_le hmade hch.next, ?_⟩
  intro t' c hc htx
  rcases hch.conns t' c hc with ⟨c₀, hc₀, htx₀, -⟩ | ⟨hnew, -⟩ | ⟨l, hup, read, rfl, -⟩
  · exact h t' c₀ hc₀ (htx₀.symm.trans htx)
  · omega
  · simp [accepts] at he

/-- An event that leaves the two ends of the connection alone, accepts nobody at the receiving
engine and finds room where it needs some. -/
abbrev LeavesAlone (size : ℕ) (L : Link ι) (s : State ι G) (e : Event ι) : Prop :=
  Posting.LeavesAlone L (fun p => p = [] ∨ p.length = size) (fun e => !accepts e) s e

omit [DecidableEq ι] in
/-- The relay does not touch the engines but by sending. -/
lemma own_net {o : Own} (hs : own L tx C s o = Outcome.ret u) : u.net = s.net := by
  obtain ⟨⟩ := o
  cases hth : s.thread with
  | idle p =>
      cases hq : (s.arrived L tx).drop s.taken with
      | nil => simp [own, hth, hq] at hs
      | cons m rest =>
          simp only [own, hth, hq, Outcome.pure_eq, Outcome.ret.injEq] at hs
          rw [← hs]
  | _ => simp [own, hth] at hs

/-- **At a listener with one connection**: if nobody else is accepted, it is enough that the
connection is left alone. -/
lemma undisturbed_of_sole (hmade : tx < (nets L.dst.1).nextChan)
    (hsole : (nets L.dst.1).Sole tx L.dst.2)
    (h : Reach (step size fuel L tx C) (LeavesAlone size L) (start C nets) es s) :
    Reach (step size fuel L tx C) (Undisturbed size L tx) (start C nets) es s := by
  refine (undisturbed_of (K := fun r => tx < r.nextChan ∧ r.Sole tx L.dst.2)
    (fun _ _ _ => own_net) (fun _ => rfl) (fun _ hr => hr.2) ?_ ⟨hmade, hsole⟩ h).1
  intro r e v hr he hs
  exact sole_of_not_accepts hr.1 hr.2 (by simpa using he) hs

/-! ### The test -/

/-- The relay of the test.  The clock and the counter go along with the message and are dropped at
the end; `now` is what the clock shows. -/
def relay (now : UInt64) (tok : Token) (owner : ℕ) : Chain.Packed (ProtoMsg AROIobuf) StreamBuf :=
  ⟨Chain.cons (Proc.map fun m => (m, now))
    (Chain.cons Proc.enumerate
      (Chain.cons (Proc.debugWhile fun x => x.2 % 10000 == 0)
        (Chain.cons (Proc.mapVal1 tok fun x t => ⟨x.1.1.item, t, owner⟩) Chain.nil)))⟩

/-- The test's relay hands each message on, whatever it counts and whatever the clock shows. -/
lemma handsOn_relay (now : UInt64) (tok : Token) (owner : ℕ) :
    HandsOn tok (relay now tok owner).chain :=
  fun _ _ => ⟨_, rfl, rfl, rfl⟩

/-- Sixty-four bytes. -/
def lap : List UInt8 := (List.range 64).map fun i => UInt8.ofNat (65 + i)

/-- The message is put in and goes round once; then the relay has it again. -/
def ringRun : List (Event Unit) :=
  [.net ((), Net.Event.send ⟨⟨0, lap, by decide⟩, 256, 0⟩),
    .net ((), Net.Event.notify [WriteAnswer.ready 40, WriteAnswer.ready 24]),
    .net ((), Net.Event.readable 257 false AcceptAnswer.failed (ReadAnswer.ready lap)),
    .own .take, .proceed, .proceed,
    .net ((), Net.Event.notify [WriteAnswer.ready 64]),
    .net ((), Net.Event.readable 257 false AcceptAnswer.failed (ReadAnswer.ready lap)),
    .own .take]

/-- The engine of the test: only the accepted connection has the listener's channel. -/
lemma fresh_ring : ∃ (s₀ : Net Unit AROIobuf) (a b : Connection Unit),
    Fresh (BufProtocol 64) 1537 (fun _ => oneMessage) loopback (fun _ => s₀) a b ∧
      b.connTx = 0 ∧ s₀.sent = [] ∧ 0 < s₀.nextChan ∧ s₀.Sole 0 257 ∧
      ∃ s, Reach (step 64 1537 loopback 0 (relay 7 256 0).chain) (LeavesAlone 64 loopback)
        (start (relay 7 256 0).chain fun _ => s₀) ringRun s ∧ held loopback 0 s = [lap] := by
  obtain ⟨u, hlisten, s₀, hrest, hexec, a, ha, b, hb, hwritten, hout, hqueue, hmarker, hbuf, htx,
      hsent, hmade, s, hrun, hheld⟩ :
      ∃ u : Net Unit AROIobuf, (Net.new oneMessage : Net Unit AROIobuf).listen
          "127.0.0.1" 10000 (Except.ok ()) (Except.ok ()) (Except.ok ()) (some 0) (Except.ok ())
            = Outcome.ret (u, Except.ok 0) ∧
        ∃ s₀, execute (Net.step (BufProtocol 64) 1537) (fun _ _ => true) u (loopbackSetup.drop 1)
            = some s₀ ∧
        execute (Net.step (BufProtocol 64) 1537) (fun _ _ => true)
          (Net.new oneMessage) loopbackSetup = some s₀ ∧
        ∃ a, s₀.conns.get 256 = some a ∧ ∃ b, s₀.conns.get 257 = some b ∧ a.sock.written = [] ∧
        a.outbuf = [] ∧ Net.queuedFor 256 s₀.queue = [] ∧ b.marker = 0 ∧
        b.buf = oneMessage.newBuf ∧ b.connTx = 0 ∧ s₀.sent = [] ∧ 0 < s₀.nextChan ∧
        ∃ s, execute (step 64 1537 loopback 0 (relay 7 256 0).chain)
            (fun s e => decide (LeavesAlone 64 loopback s e))
            (start (relay 7 256 0).chain fun _ => s₀) ringRun = some s ∧
          held loopback 0 s = [lap] :=
    ⟨_, rfl, _, rfl, rfl, _, rfl, _, rfl, rfl, rfl, rfl, rfl, rfl, rfl, rfl, by decide, _, rfl, rfl⟩
  have hreach : Reach (Net.step (BufProtocol 64) 1537) anyStep (Net.new oneMessage)
      loopbackSetup s₀ := reach_of_execute (fun _ _ _ => trivial) hexec
  have hafter : Reach (Net.step (BufProtocol 64) 1537) anyStep u (loopbackSetup.drop 1) s₀ :=
    reach_of_execute (fun _ _ _ => trivial) hrest
  have hnone : Reach (Net.step (BufProtocol 64) 1537) anyStep
      (Net.new oneMessage : Net Unit AROIobuf) [] _ := Reach.nil
  obtain ⟨l, -, hlistens⟩ := Net.listens_listen (Net.charted_reach hnone) hlisten
  refine ⟨s₀, a, b, ⟨fun _ => ⟨_, hreach⟩, ha, hb, hwritten, hout, hqueue, hmarker, hbuf⟩, htx,
    hsent, hmade, ?_, s, reach_of_execute (fun _ _ => of_decide_eq_true) hrun, hheld⟩
  intro t c hc hctx
  obtain ⟨hup, read, hmem⟩ := (Net.listens_reach hlistens hafter).conns t c hc hctx
  simp only [loopbackSetup, List.drop_succ_cons, List.drop_zero, List.mem_cons, List.not_mem_nil,
    or_false] at hmem
  rcases hmem with hmem | hmem
  · cases hmem
  · cases hmem
    rfl

/-- After a lap the message is with the relay, unchanged, and nowhere else. -/
theorem circulates_lap : ∃ (s₀ : Net Unit AROIobuf) (s : State Unit (relay 7 256 0).Object),
    Reach (step 64 1537 loopback 0 (relay 7 256 0).chain) (Undisturbed 64 loopback 0)
      (start (relay 7 256 0).chain fun _ => s₀) ringRun s ∧
    held loopback 0 s = [lap] ∧ ∃ c, (s.net.nets ()).conns.get 256 = some c ∧
      c.sock.sent.drop s.net.read = [] ∧ Connection.outBytes c.outbuf = [] ∧
      Net.queuedFor 256 (s.net.nets ()).queue = [] := by
  obtain ⟨s₀, a, b, hfresh, htx, hsent, hmade, hsole, s, halone, hheld⟩ := fresh_ring
  have hrun : Reach (step 64 1537 loopback 0 (relay 7 256 0).chain) (Undisturbed 64 loopback 0)
      (start (relay 7 256 0).chain fun _ => s₀) ringRun s :=
    undisturbed_of_sole hmade hsole halone
  have hlens : (readsOf loopback (ringRun.filterMap Posting.Event.net?)).map List.length
      = [64, 64] := by decide
  have hkeeps : KeepsUp 1536 64 64
      ((readsOf loopback (ringRun.filterMap Posting.Event.net?)).map List.length) := by
    rw [hlens]
    intro xs n ys hns _
    refine Or.inl fun x hx => ?_
    have hmem : x ∈ [64, 64] := hns ▸ List.mem_append_left _ hx
    simp only [List.mem_cons, List.not_mem_nil, or_false, or_self] at hmem
    simp [hmem]
  have hquiet : ∀ m ∈ s₀.sent, m.1 ≠ b.connTx := by simp [hsent]
  have hrun' : Reach (step 64 1537 loopback b.connTx (relay 7 256 0).chain)
      (Undisturbed 64 loopback b.connTx) (start (relay 7 256 0).chain fun _ => s₀) ringRun s := by
    rw [htx]
    exact hrun
  obtain ⟨-, c, flying, hc, -, hflat, hperm⟩ := circulates (by decide) (by decide) hfresh hquiet
    (handsOn_relay 7 256 0) hrun' (by rw [hlens]; decide) hkeeps
  rw [htx, hheld] at hperm
  have hseeds : seeds loopback ringRun = [lap] := by decide
  have hnone : flying = [] := by
    have hlen := hperm.length_eq
    rw [hseeds] at hlen
    simpa using hlen
  rw [hnone, List.flatten_nil, eq_comm, List.append_eq_nil_iff, List.append_eq_nil_iff,
    List.append_eq_nil_iff] at hflat
  exact ⟨s₀, s, hrun, hheld, c, hc, hflat.1.1.2, hflat.1.2, hflat.2⟩

end Ring

end Rx
