import RxRust.Reactor.Isolation
import RxRust.Reactor.Outbound
import RxRust.Reactor.HangUp

/-!
# A connection as two pipes

What any event of the system does to one open connection, seen from its two ends: bytes that client
threads post for it go out through its socket, and bytes that are read from its socket come in.
Everything else that goes on in the engine, for whatever other connection, moves neither.

* `Event.posts`, `Event.reads` — the bytes an event posts for a token, and those it reads under it.
* `step_posts` — outwards: what the socket has taken, what is queued at the connection and what is
  still in the loop's queue together grow by what is posted.
* `step_sent` — a message is put on a channel by a read and by nothing else.
* `step_inbound` — inwards: any event but a read of the connection leaves alone what has been read.
* `Framed.step` — for a connection with a `BufProtocol`, the machine of `ReadBuffer` takes the read
  of the event, if there is one, whatever the event is.
-/

namespace Rx

open Core

namespace Net

variable {P Out : Type} {proto : Protocol P Out} {fuel : ℕ} {cfg : NetEngineConfig}
  {s u : Net P Out} {t : Token} {c : Connection P} {e : Event}

/-- The bytes posted for the token. -/
def Event.posts (t : Token) : Event → List UInt8
  | Event.send msg => if msg.tok = t then msg.bytes else []
  | _ => []

/-- The read that an event makes under the token. -/
def Event.read? (t : Token) : Event → Option (List UInt8)
  | Event.readable token _ _ (ReadAnswer.ready data) => if token = t then some data else none
  | _ => none

/-- The event is a hang-up of the connection under the token. -/
def Event.hangsUp (t : Token) : Event → Bool
  | Event.readable token hup _ _ => hup && decide (token = t)
  | _ => false

/-- What waits in the loop's queue for the token. -/
def queuedFor (t : Token) (queue : List StreamBuf) : List UInt8 :=
  (queue.filter fun msg => decide (msg.tok = t)).flatMap StreamBuf.bytes

@[simp] lemma queuedFor_nil (t : Token) : queuedFor t [] = [] := rfl

lemma queuedFor_cons (t : Token) (msg : StreamBuf) (queue : List StreamBuf) :
    queuedFor t (msg :: queue) = (if msg.tok = t then msg.bytes else []) ++ queuedFor t queue := by
  by_cases h : msg.tok = t <;> simp [queuedFor, h]

lemma queuedFor_snoc (t : Token) (msg : StreamBuf) (queue : List StreamBuf) :
    queuedFor t (queue ++ [msg]) = queuedFor t queue ++ if msg.tok = t then msg.bytes else [] := by
  by_cases h : msg.tok = t <;> simp [queuedFor, h]

lemma posts_of_slotOf {t' : Token} (h : s.slotOf e = some t') : e.posts t = [] := by
  cases e with
  | send msg => cases h
  | _ => rfl

lemma posts_of_not_output (h : e.output = false) : e.posts t = [] := by
  cases e with
  | send msg => cases h
  | _ => rfl

/-! ## Outwards -/

lemma flushed_queue (s : Net P Out) (t : Token) (c : Connection P) :
    (s.flushed t c).queue = s.queue := by
  by_cases h : c.outbuf = []
  · rw [flushed_nil h]
  · rw [flushed_pending h]
    rfl

/-- A connection is drained, this one or another. -/
lemma flushed_posts {t' : Token} {k k₀ k' : Connection P} {ws : List Written}
    (hk : s.conns.get t' = some k) (hws : k₀.Drained k' ws) (hsock : k₀.sock = k.sock)
    (hc : s.conns.get t = some c) :
    ∃ c', (s.flushed t' k').conns.get t = some c' ∧ c.sock.sent <+: c'.sock.sent ∧
      (t = t' → stream c' = stream k₀) ∧ (t ≠ t' → stream c' = stream c) := by
  obtain ⟨c', hget, heq, hne⟩ := flushed_get k' hk hc
  refine ⟨c', hget, ?_, ?_, ?_⟩
  · by_cases ht : t = t'
    · obtain rfl : c = k := by
        subst ht
        exact Option.some.inj (hc.symm.trans hk)
      rw [(heq ht).1, hws.sock, hsock]
      simp [TcpSocket.sent]
    · simp [hne ht]
  · intro ht
    rw [← stream_drained hws, stream, (heq ht).1, (heq ht).2, stream]
  · intro ht
    rw [hne ht]

/-- **One event, outwards.**  What the socket has taken only grows, and together with what waits for
it grows by what is posted. -/
theorem step_posts (hc : s.conns.get t = some c) (he : e.hangsUp t = false)
    (h : s.step proto fuel e = Outcome.ret u) :
    ∃ c', u.conns.get t = some c' ∧ c.sock.sent <+: c'.sock.sent ∧
      stream c' ++ queuedFor t u.queue = stream c ++ queuedFor t s.queue ++ e.posts t := by
  cases step_moves h with
  | quiet hout hq =>
      refine ⟨c, by rw [hq.conns, hc], List.prefix_refl _, ?_⟩
      rw [hq.queue, posts_of_not_output hout, List.append_nil]
  | absent hk => exact ⟨c, hc, List.prefix_refl _, by simp [Event.posts]⟩
  | @opened _ _ t' hslot ho =>
      have hne : t ≠ t' := by
        rintro rfl
        cases hc.symm.trans ho.free
      obtain ⟨tx, hput, -⟩ := ho.conn
      refine ⟨c, by rw [hput, Slab.get_put_ne _ hne, hc], List.prefix_refl _, ?_⟩
      rw [ho.queue, posts_of_slotOf hslot, List.append_nil]
  | @heard t' hup answer read k k' msgs hk hread =>
      by_cases ht : t = t'
      · subst ht
        obtain rfl : c = k := Option.some.inj (hc.symm.trans hk)
        obtain rfl : hup = false := by simpa [Event.hangsUp] using he
        have hsock : k'.sock = c.sock := by rw [Connection.readAnswered_keeps hread]
        have hout : k'.outbuf = c.outbuf := by rw [Connection.readAnswered_keeps hread]
        refine ⟨_, Slab.get_put_of_get _ hc, by simp [hsock], ?_⟩
        simp [stream, hsock, hout, settle, pass, Event.posts]
      · cases hup with
        | true =>
            refine ⟨c, (Slab.get_remove_ne ht).trans hc, List.prefix_refl _, ?_⟩
            simp [settle, Event.posts]
        | false =>
            refine ⟨c, (Slab.get_put_ne _ ht).trans hc, List.prefix_refl _, ?_⟩
            simp [settle, pass, Event.posts]
  | @drained t' answers k k' hk hdrain =>
      obtain ⟨⟨ws, hws⟩, -⟩ := Connection.drainWriteQueueToSocket_spec hdrain
      obtain ⟨c', hget, hpre, heq, hne⟩ := flushed_posts hk hws rfl hc
      refine ⟨c', hget, hpre, ?_⟩
      have hstream : stream c' = stream c := by
        by_cases ht : t = t'
        · subst ht
          obtain rfl : c = k := Option.some.inj (hc.symm.trans hk)
          exact heq rfl
        · exact hne ht
      simp [flushed_queue, hstream, Event.posts]
  | @notified msg queue answers k k' hq hk hdrain =>
      obtain ⟨⟨ws, hws⟩, -⟩ := Connection.drainWriteQueueToSocket_spec hdrain
      obtain ⟨c', hget, hpre, heq, hne⟩ :=
        flushed_posts (s := { s with queue := queue }) hk hws rfl hc
      refine ⟨c', hget, hpre, ?_⟩
      rw [flushed_queue, hq, queuedFor_cons]
      by_cases ht : t = msg.tok
      · -- the message moves from the loop's queue to the connection's
        subst ht
        obtain rfl : c = k := Option.some.inj (hc.symm.trans hk)
        rw [heq rfl]
        simp [stream, Connection.outBytes, Event.posts]
      · simp [hne ht, Ne.symm ht, Event.posts]
  | @dropped msg queue answers hq hk =>
      have hne : msg.tok ≠ t := by
        intro heq
        rw [heq, hc] at hk
        cases hk
      refine ⟨c, hc, List.prefix_refl _, ?_⟩
      simp [hq, queuedFor_cons, hne, Event.posts]
  | @sent msg hmem =>
      refine ⟨c, hc, List.prefix_refl _, ?_⟩
      simp [queuedFor_snoc, Event.posts]

/-! ## Inwards -/

/-- `connect` and `listen` send nothing. -/
lemma connect_sent {hostname : String} {port : ℕ} {socket : Except String Unit}
    {slot : Option Token} {register connected : Except String Unit} {r : Except String NetStream}
    (h : s.connect proto hostname port socket slot register connected = Outcome.ret (u, r)) :
    u.sent = s.sent := by
  cases socket with
  | error e =>
      obtain rfl : s = u := congrArg Prod.fst (Outcome.ret.inj h)
      rfl
  | ok v =>
      obtain ⟨q, -, h⟩ := Outcome.bind_eq_ret.mp h
      rcases q with _ | ⟨tok, conns⟩
      · obtain ⟨rfl, -⟩ := Prod.mk.inj (Outcome.ret.inj h)
        rfl
      · cases register with
        | error e =>
            obtain ⟨rfl, -⟩ := Prod.mk.inj (Outcome.ret.inj h)
            rfl
        | ok v =>
            cases connected with
            | error e =>
                obtain ⟨rfl, -⟩ := Prod.mk.inj (Outcome.ret.inj h)
                rfl
            | ok v =>
                obtain ⟨rfl, -⟩ := Prod.mk.inj (Outcome.ret.inj h)
                rfl

lemma listen_sent {addr : String} {port : ℕ} {socket bind listen : Except String Unit}
    {slot : Option Token} {register : Except String Unit} {r : Except String ℕ}
    (h : s.listen addr port socket bind listen slot register = Outcome.ret (u, r)) :
    u.sent = s.sent := by
  cases socket with
  | error e =>
      obtain rfl : s = u := congrArg Prod.fst (Outcome.ret.inj h)
      rfl
  | ok v =>
      cases bind with
      | error e =>
          obtain rfl : s = u := congrArg Prod.fst (Outcome.ret.inj h)
          rfl
      | ok v =>
          cases listen with
          | error e =>
              obtain rfl : s = u := congrArg Prod.fst (Outcome.ret.inj h)
              rfl
          | ok v =>
              obtain ⟨q, -, h⟩ := Outcome.bind_eq_ret.mp h
              rcases q with _ | ⟨tok, listeners⟩
              · obtain ⟨rfl, -⟩ := Prod.mk.inj (Outcome.ret.inj h)
                rfl
              · cases register with
                | error e =>
                    obtain ⟨rfl, -⟩ := Prod.mk.inj (Outcome.ret.inj h)
                    rfl
                | ok v =>
                    obtain ⟨rfl, -⟩ := Prod.mk.inj (Outcome.ret.inj h)
                    rfl

lemma flushed_sent (s : Net P Out) (t : Token) (c : Connection P) :
    (s.flushed t c).sent = s.sent := by
  by_cases h : c.outbuf = []
  · rw [flushed_nil h]
  · rw [flushed_pending h]
    rfl

lemma settle_sent (s : Net P Out) (t : Token) (c : Connection P) (hup : Bool) :
    (s.settle t c hup).sent = s.sent := by
  cases hup <;> rfl

/-- What has been put on a channel. -/
def channel (tx : ℕ) (s : Net P Out) : List (ProtoMsg Out) :=
  (s.sent.filter fun m => decide (m.1 = tx)).map Prod.snd

/-- **What is sent.**  An event puts nothing on the channels, or is a read of a connection and puts
there what the read decodes to. -/
theorem step_sent (h : s.step proto fuel e = Outcome.ret u) :
    u.sent = s.sent ∨ ∃ t' hup answer read k k' msgs, e = Event.readable t' hup answer read ∧
      s.listeners.get t' = none ∧ s.conns.get t' = some k ∧
      k.readAnswered proto s.config t' fuel read = Outcome.ret (k', msgs) ∧
      u.sent = s.sent ++ msgs.map fun m => (k.connTx, m) := by
  cases e with
  | connect hostname port socket slot register connected =>
      obtain ⟨⟨v, r⟩, hv, rfl⟩ := Outcome.map_eq_ret.mp h
      exact Or.inl (connect_sent hv)
  | listen addr port socket bind listen slot register =>
      obtain ⟨⟨v, r⟩, hv, rfl⟩ := Outcome.map_eq_ret.mp h
      exact Or.inl (listen_sent hv)
  | readable token hup answer read =>
      simp only [step, readable] at h
      cases hl : s.listeners.get token with
      | some tx =>
          rw [hl] at h
          exact Or.inl (accept_sent h)
      | none =>
          rw [hl] at h
          cases hk : s.conns.get token with
          | none =>
              rw [hk] at h
              obtain rfl := Outcome.ret.inj h
              exact Or.inl rfl
          | some k =>
              rw [hk] at h
              obtain ⟨⟨k', msgs⟩, hread, h⟩ := Outcome.bind_eq_ret.mp h
              obtain rfl := Outcome.ret.inj h
              have htx : k'.connTx = k.connTx := by rw [Connection.readAnswered_keeps hread]
              refine Or.inr ⟨token, hup, answer, read, k, k', msgs, rfl, hl, hk, hread, ?_⟩
              rw [settle_sent, htx]
  | writable token answers =>
      cases step_moves h with
      | quiet he hq => cases he
      | opened hslot ho => cases hslot
      | absent hc => exact Or.inl rfl
      | drained hc hdrain => exact Or.inl (flushed_sent _ _ _)
  | notify answers =>
      cases step_moves h with
      | quiet he hq => cases he
      | opened hslot ho => cases hslot
      | notified hq hc hdrain => exact Or.inl (flushed_sent _ _ _)
      | dropped hq hc => exact Or.inl rfl
  | send msg =>
      cases step_moves h with
      | quiet he hq => cases he
      | opened hslot ho => cases hslot
      | sent hmem => exact Or.inl rfl

/-- A channel only grows. -/
lemma channel_prefix (tx : ℕ) (h : s.step proto fuel e = Outcome.ret u) :
    s.channel tx <+: u.channel tx := by
  rcases step_sent h with hsent | ⟨-, -, -, -, k, -, msgs, -, -, -, -, hsent⟩
  · simp [channel, hsent]
  · rw [channel, channel, hsent, List.filter_append, List.map_append]
    exact List.prefix_append _ _

/-- The event is a `readable` event under the token. -/
def Event.isReadable (t : Token) : Event → Bool
  | Event.readable token _ _ _ => decide (token = t)
  | _ => false

lemma flushed_inbound {t' : Token} {k k₀ k' : Connection P} {ws : List Written}
    (hk : s.conns.get t' = some k) (hws : k₀.Drained k' ws)
    (hsame : k₀.connTx = k.connTx ∧ k₀.marker = k.marker ∧ k₀.proto = k.proto ∧ k₀.buf = k.buf)
    (hc : s.conns.get t = some c) :
    ∃ c', (s.flushed t' k').conns.get t = some c' ∧ c'.connTx = c.connTx ∧
      c'.marker = c.marker ∧ c'.proto = c.proto ∧ c'.buf = c.buf := by
  have hkept : k'.connTx = k.connTx ∧ k'.marker = k.marker ∧ k'.proto = k.proto ∧
      k'.buf = k.buf := by
    rw [hws.rest]
    exact hsame
  by_cases ht : t = t'
  · subst ht
    obtain rfl : c = k := Option.some.inj (hc.symm.trans hk)
    by_cases hnil : k'.outbuf = []
    · rw [flushed_nil hnil]
      exact ⟨_, Slab.get_put_of_get _ hc, hkept⟩
    · rw [flushed_pending hnil]
      exact ⟨_, Slab.get_put_of_get _ hc, hkept⟩
  · by_cases hnil : k'.outbuf = []
    · rw [flushed_nil hnil]
      exact ⟨c, (Slab.get_put_ne _ ht).trans hc, rfl, rfl, rfl, rfl⟩
    · rw [flushed_pending hnil]
      exact ⟨c, (Slab.get_put_ne _ ht).trans hc, rfl, rfl, rfl, rfl⟩

/-- **Any other event** leaves alone what a connection has read. -/
theorem step_inbound (hc : s.conns.get t = some c) (he : e.isReadable t = false)
    (h : s.step proto fuel e = Outcome.ret u) :
    ∃ c', u.conns.get t = some c' ∧ c'.connTx = c.connTx ∧ c'.marker = c.marker ∧
      c'.proto = c.proto ∧ c'.buf = c.buf := by
  cases step_moves h with
  | quiet hout hq => exact ⟨c, by rw [hq.conns, hc], rfl, rfl, rfl, rfl⟩
  | absent hk => exact ⟨c, hc, rfl, rfl, rfl, rfl⟩
  | @opened _ _ t' hslot ho =>
      have hne : t ≠ t' := by
        rintro rfl
        cases hc.symm.trans ho.free
      obtain ⟨tx, hput, -⟩ := ho.conn
      exact ⟨c, by rw [hput, Slab.get_put_ne _ hne, hc], rfl, rfl, rfl, rfl⟩
  | @heard t' hup answer read k k' msgs hk hread =>
      have hne : t ≠ t' := by
        rintro rfl
        simp [Event.isReadable] at he
      cases hup with
      | true => exact ⟨c, (Slab.get_remove_ne hne).trans hc, rfl, rfl, rfl, rfl⟩
      | false => exact ⟨c, (Slab.get_put_ne _ hne).trans hc, rfl, rfl, rfl, rfl⟩
  | @drained t' answers k k' hk hdrain =>
      obtain ⟨⟨ws, hws⟩, -⟩ := Connection.drainWriteQueueToSocket_spec hdrain
      exact flushed_inbound hk hws ⟨rfl, rfl, rfl, rfl⟩ hc
  | @notified msg queue answers k k' hq hk hdrain =>
      obtain ⟨⟨ws, hws⟩, -⟩ := Connection.drainWriteQueueToSocket_spec hdrain
      exact flushed_inbound (s := { s with queue := queue }) hk hws ⟨rfl, rfl, rfl, rfl⟩ hc
  | @dropped msg queue answers hq hk => exact ⟨c, hc, rfl, rfl, rfl, rfl⟩
  | @sent msg hmem => exact ⟨c, hc, rfl, rfl, rfl, rfl⟩

/-- Nor does it send anything under its token. -/
lemma tagged_of_other (he : e.isReadable t = false) (h : s.step proto fuel e = Outcome.ret u) :
    u.tagged t = s.tagged t := by
  rcases step_sent h with hsent | ⟨t', hup, answer, read, k, k', msgs, rfl, -, -, hread, hsent⟩
  · rw [tagged, hsent, tagged]
  · have hnone : (msgs.map fun m => (k.connTx, m)).filter (fun m => decide (m.2.tok = t)) = [] := by
      rw [List.filter_eq_nil_iff]
      intro p hp
      obtain ⟨m, hm, rfl⟩ := List.mem_map.mp hp
      simpa [readAnswered_tok hread m hm, Event.isReadable] using he
    rw [tagged, hsent, List.filter_append, hnone, List.append_nil, tagged]

/-! ## A framed connection among others -/

/-- The payloads that were sent under the token, each with its channel. -/
def payloadsOf (t : Token) (s : Net Unit AROIobuf) : List (ℕ × List UInt8) :=
  (s.tagged t).map fun m => (m.1, m.2.item.window)

lemma payloadsOf_eq (t : Token) (s : Net Unit AROIobuf) :
    s.payloadsOf t = (s.payloads.filter fun p => decide (p.2.2 = t)).map fun p => (p.1, p.2.1) := by
  simp [payloadsOf, tagged, payloads, List.filter_map, Function.comp_def, payload]

section Framed

variable {size : ℕ} {tx : ℕ} {s u : Net Unit AROIobuf} {r : Reader}

lemma payloadsOf_read {fs : List (List UInt8)}
    (h : u.payloads = s.payloads ++ fs.map fun f => (tx, f, t)) :
    u.payloadsOf t = s.payloadsOf t ++ fs.map fun f => (tx, f) := by
  rw [payloadsOf_eq, payloadsOf_eq, h, List.filter_append, List.map_append]
  simp [List.filter_map, Function.comp_def]

lemma read?_of_not_isReadable (h : e.isReadable t = false) : e.read? t = none := by
  cases e with
  | readable token hup answer read =>
      have hne : token ≠ t := by simpa [Event.isReadable] using h
      cases read <;> simp [Event.read?, hne]
  | _ => rfl

/-- A read that comes back was within the room. -/
lemma room_of_readable {hup : Bool} {answer : AcceptAnswer} {data : List UInt8}
    (hs : Framed cfg t tx s r)
    (h : s.readable (BufProtocol size) fuel t hup answer (ReadAnswer.ready data) = Outcome.ret u) :
    data.length ≤ cfg.readBufSz - r.filled := by
  obtain ⟨-, hl, c, hc, -, hshows⟩ := hs
  simp only [readable, hl, hc] at h
  obtain ⟨⟨c', msgs⟩, hread, -⟩ := Outcome.bind_eq_ret.mp h
  obtain ⟨hfits, -⟩ := Outcome.guard_eq_ret.mp hread
  rw [AppendBuf.len, hshows.cap, ← hshows.filled] at hfits
  exact hfits

/-- **One event**, whatever it is: the machine takes the read, if there is one. -/
lemma Framed.step (hsize : 0 < size) (hfuel : cfg.readBufSz < fuel) (hlaid : Laid (new cfg) s)
    (hs : Framed cfg t tx s r) (he : e.hangsUp t = false)
    (h : s.step (BufProtocol size) fuel e = Outcome.ret u) :
    Framed cfg t tx u ((reader cfg.readBufSz cfg.low size).run r (e.read? t).toList).1 ∧
      u.payloadsOf t = s.payloadsOf t
        ++ ((reader cfg.readBufSz cfg.low size).run r (e.read? t).toList).2.map
          fun f => (tx, f) := by
  by_cases hread : e.isReadable t = true
  · cases e with
    | readable token hup answer read =>
        obtain rfl : token = t := by simpa [Event.isReadable] using hread
        obtain rfl : hup = false := by simpa [Event.hangsUp] using he
        cases read with
        | ready data =>
            have hroom : data.length ≤ cfg.readBufSz - r.filled := room_of_readable hs h
            obtain ⟨v, hv, hlive, -, hpay⟩ := @readable_framed size cfg token tx fuel hsize s r data
              hs hroom (by omega) false answer
            obtain rfl : v = u := Outcome.ret.inj (hv.symm.trans h)
            have hsome : (Event.readable token false answer (ReadAnswer.ready data)).read? token
                = some data := if_pos rfl
            rw [hsome, Option.toList_some, Transducer.run_singleton]
            exact ⟨hlive rfl, payloadsOf_read hpay⟩
        | wouldBlock =>
            obtain ⟨hlive, -, hpay⟩ := readable_idle hs (fun _ => rfl) h
            refine ⟨hlive rfl, ?_⟩
            rw [payloadsOf_eq, payloadsOf_eq, hpay]
            simp [Event.read?]
        | err msg =>
            obtain ⟨hlive, -, hpay⟩ := readable_idle hs (fun _ => rfl) h
            refine ⟨hlive rfl, ?_⟩
            rw [payloadsOf_eq, payloadsOf_eq, hpay]
            simp [Event.read?]
    | _ => simp [Event.isReadable] at hread
  · rw [Bool.not_eq_true] at hread
    obtain ⟨hconfig, hl, c, hc, htx, hshows⟩ := hs
    obtain ⟨c', hc', htx', hmarker, -, hbuf⟩ := step_inbound hc hread h
    have hnone : e.read? t = none := read?_of_not_isReadable hread
    rw [hnone, Option.toList_none, Transducer.run_nil]
    have hlaid' := hlaid.trans (step_laid h)
    refine ⟨⟨hlaid'.config, get_listeners_of_laid hlaid' hc', c', hc', htx'.trans htx, ?_⟩, ?_⟩
    · refine ⟨?_, ?_, ?_, ?_⟩
      · rw [hbuf, hshows.cap]
      · rw [hmarker, hbuf]
        exact hshows.marker
      · rw [hmarker, hbuf]
        exact hshows.pend
      · rw [hbuf]
        exact hshows.filled
    · rw [payloadsOf, tagged_of_other hread h, payloadsOf]
      simp

end Framed

end Net

end Rx
