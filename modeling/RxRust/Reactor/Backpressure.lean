import RxRust.Reactor.SyncChannels

/-!
# Handlers in one piece

The engine with bounded channels is no other than the one of `Engine`: whatever client threads do
while a `readable` sends its messages, it might as well have sent them all when it began.

* `Begun` — a handler in the middle: what it started from, what it has decoded and sent, and what
  client threads have sent since.
* `Begun.finish` — when it comes back, the engine is where one event and the threads' messages after
  it lead.
* `carried` — if the receivers read, the loop of `readable` comes to its end.
* **`bounded_refines`** — whenever the loop is idle, the runs are those of `Engine`, no more and no
  fewer; and at any time what a receiver has taken and what waits for it is what was sent.
-/

namespace Rx

open Core

namespace Backpressure

variable {P Out : Type} {proto : Protocol P Out} {s u : State P Out}

section Fuel

variable {net net' : Net P Out} {token : Token}

/-- More fuel does not change what the loop of `readable` comes to. -/
lemma decode_mono {fuel fuel' : ℕ} (hle : fuel ≤ fuel') {p : P} {abuf : AROIobuf} {marker : ℕ}
    {sent : List (ProtoMsg Out)} {r : P × AROIobuf × ℕ × List (ProtoMsg Out)}
    (h : decode proto token fuel p abuf marker sent = Outcome.ret r) :
    decode proto token fuel' p abuf marker sent = Outcome.ret r := by
  induction fuel generalizing fuel' p abuf marker sent with
  | zero => cases h
  | succ fuel ih =>
      obtain ⟨fuel', rfl⟩ : ∃ n, fuel' = n + 1 := ⟨fuel' - 1, by omega⟩
      rw [decode] at h ⊢
      obtain ⟨⟨p', found⟩, happend, h⟩ := Outcome.bind_eq_ret.mp h
      rw [happend, Outcome.ret_bind]
      cases found with
      | none => exact h
      | some found => exact ih (by omega) h

/-- Without bytes to decode it does not matter how much there is. -/
lemma step_of_reads_none {e : Net.Event} (hreads : reads net e = none) (fuel : ℕ) :
    net.step proto fuel e = net.step proto 0 e := by
  cases e with
  | readable token hup answer read =>
      simp only [Net.step, Net.readable]
      cases hl : net.listeners.get token with
      | some tx => rfl
      | none =>
          cases hc : net.conns.get token with
          | none => rfl
          | some c =>
              cases read with
              | ready data => simp [reads, hl, hc] at hreads
              | _ => rfl
  | _ => rfl

end Fuel

/-- What `Ready(n)` comes to when the loop ends. -/
lemma received_eq {c : Connection P} {config : NetEngineConfig} {token : Token} {fuel : ℕ}
    {data : List UInt8} {abuf abuf' : AROIobuf} {p : P} {marker : ℕ} {msgs : List (ProtoMsg Out)}
    (hlen : data.length ≤ c.buf.len)
    (hslice : (c.buf.fill data).atomicSlicePosFromBegin c.marker data.length = some abuf)
    (hdecode : decode proto token fuel c.proto abuf c.marker []
      = Outcome.ret (p, abuf', marker, msgs)) :
    c.received proto config token fuel data = Outcome.ret (rolledOver config
      { c with buf := c.buf.fill data, proto := p, marker := marker } abuf', msgs) := by
  simp only [Connection.received, if_pos hlen, hslice, hdecode, Outcome.ret_bind, rolledOver]
  split_ifs <;> rfl

/-- The engine with the messages noted. -/
def noted (self : Net P Out) (r : Reading P) (told : List (ProtoMsg Out)) : Net P Out :=
  { self with
    sent := self.sent ++ told.map fun m => (r.c.connTx, m)
    handed := self.handed ++ told.map fun _ => (r.c.sock.id, r.token) }

/-- A handler that began in `before`, has come to `r`, has decoded `decoded` and sent `told` so far;
client threads have sent `posts` since. -/
structure Begun (proto : Protocol P Out) (before : Net P Out) (data : List UInt8)
    (posts : List StreamBuf) (decoded told : List (ProtoMsg Out)) (net : Net P Out)
    (r : Reading P) : Prop where
  listeners : before.listeners.get r.token = none
  conn : ∃ c abuf k, before.conns.get r.token = some c ∧ data.length ≤ c.buf.len ∧
    (c.buf.fill data).atomicSlicePosFromBegin c.marker data.length = some abuf ∧
    r.c = { c with buf := c.buf.fill data, proto := r.c.proto, marker := r.c.marker } ∧
    ∀ fuel, decode proto r.token (fuel + k) c.proto abuf c.marker []
      = decode proto r.token fuel r.c.proto r.abuf r.c.marker decoded
  since : net = { noted before r told with queue := before.queue ++ posts }
  allowed : ∀ m ∈ posts, (m.owner, m.tok) ∈ net.handed

namespace Begun

variable {before net : Net P Out} {data : List UInt8} {posts : List StreamBuf}
  {decoded told : List (ProtoMsg Out)} {r : Reading P}

/-- A client thread sends a message. -/
lemma post (h : Begun proto before data posts decoded told net r) {msg : StreamBuf}
    (hmem : (msg.owner, msg.tok) ∈ net.handed) :
    Begun proto before data (posts ++ [msg]) decoded told
      { net with queue := net.queue ++ [msg] } r := by
  refine ⟨h.listeners, h.conn, ?_, ?_⟩
  · rw [h.since]
    simp
  · intro m hm
    rcases List.mem_append.mp hm with hm | hm
    · exact h.allowed m hm
    · obtain rfl := List.mem_singleton.mp hm
      exact hmem

/-- The loop decodes an item. -/
lemma found (h : Begun proto before data posts decoded told net r) {p : P} {item : Out}
    {remaining : AROIobuf} {consumed : ℕ}
    (happend : proto.append r.c.proto r.abuf = Outcome.ret (p, some (item, remaining, consumed))) :
    Begun proto before data posts (decoded ++ [⟨item, r.token⟩]) told net
      (Reading.after { r with c := { r.c with proto := p } } remaining consumed) := by
  obtain ⟨c, abuf, k, hc, hlen, hslice, hr, hdecode⟩ := h.conn
  refine ⟨h.listeners, ⟨c, abuf, k + 1, hc, hlen, hslice, ?_, ?_⟩, h.since, h.allowed⟩
  · rw [Reading.after, hr]
  · intro fuel
    have hturn := hdecode (fuel + 1)
    rw [decode, happend, Outcome.ret_bind] at hturn
    rw [← Nat.add_assoc, Nat.add_right_comm]
    exact hturn

/-- An item is sent. -/
lemma told_one (h : Begun proto before data posts decoded told net r) {r' : Reading P}
    {remaining : AROIobuf} {consumed : ℕ} (hr : r = r'.after remaining consumed) (item : Out) :
    Begun proto before data posts decoded (told ++ [⟨item, r'.token⟩]) (tell net r' item) r := by
  refine ⟨h.listeners, h.conn, ?_, ?_⟩
  · rw [tell, h.since, hr]
    simp [noted, Reading.after]
  · intro m hm
    exact List.mem_append_left _ (h.allowed m hm)

end Begun

/-- What client threads send while the loop is busy, they can send afterwards. -/
lemma reach_posts (fuel : ℕ) (net : Net P Out) (posts : List StreamBuf)
    (hposts : ∀ m ∈ posts, (m.owner, m.tok) ∈ net.handed) :
    Reach (Net.step proto fuel) anyStep net (posts.map Net.Event.send)
      { net with queue := net.queue ++ posts } := by
  induction posts using List.reverseRecOn with
  | nil => simpa using (Reach.nil : Reach (Net.step proto fuel) anyStep net [] net)
  | append_singleton posts m ih =>
      rw [List.map_append]
      refine Reach.snoc (ih fun m' hm' => hposts m' (List.mem_append_left _ hm')) trivial ?_
      have hm := hposts m (List.mem_append_right _ (List.mem_singleton_self m))
      simp [Net.step, hm]

lemma settle_queue (net : Net P Out) (queue : List StreamBuf) (t : Token) (c : Connection P)
    (hup : Bool) : ({ net with queue := queue }).settle t c hup
      = { net.settle t c hup with queue := queue } := by
  cases hup <;> rfl

lemma settle_handed (net : Net P Out) (t : Token) (c : Connection P) (hup : Bool) :
    (net.settle t c hup).handed = net.handed := by
  cases hup <;> rfl

lemma settle_queue_eq (net : Net P Out) (t : Token) (c : Connection P) (hup : Bool) :
    (net.settle t c hup).queue = net.queue := by
  cases hup <;> rfl

/-- **The handler comes back**: it might as well have been done in one piece when it began, and what
client threads have sent since, after it. -/
lemma Begun.finish {before net : Net P Out} {data : List UInt8} {posts : List StreamBuf}
    {told : List (ProtoMsg Out)} {r : Reading P}
    (h : Begun proto before data posts told told net r) {p : P}
    (happend : proto.append r.c.proto r.abuf = Outcome.ret (p, none)) (answer : AcceptAnswer) :
    ∃ F, ∀ fuel, F ≤ fuel → Reach (Net.step proto fuel) anyStep before
      (Net.Event.readable r.token r.hup answer (ReadAnswer.ready data)
        :: posts.map Net.Event.send)
      (net.settle r.token (rolledOver net.config { r.c with proto := p } r.abuf) r.hup) := by
  obtain ⟨c, abuf, k, hc, hlen, hslice, hr, hdecode⟩ := h.conn
  refine ⟨1 + k, fun fuel hfuel => ?_⟩
  have hends : decode proto r.token fuel c.proto abuf c.marker []
      = Outcome.ret (p, r.abuf, r.c.marker, told) := by
    refine decode_mono hfuel ?_
    rw [hdecode, decode, happend]
    rfl
  have hconn : { c with buf := c.buf.fill data, proto := p, marker := r.c.marker }
      = { r.c with proto := p } := by
    rw [hr]
  have hread : c.received proto before.config r.token fuel data = Outcome.ret
      (rolledOver before.config { r.c with proto := p } r.abuf, told) := by
    rw [← hconn]
    exact received_eq hlen hslice hends
  have hstep : before.step proto fuel
      (Net.Event.readable r.token r.hup answer (ReadAnswer.ready data))
      = Outcome.ret ((noted before r told).settle r.token
          (rolledOver before.config { r.c with proto := p } r.abuf) r.hup) := by
    simp [Net.step, Net.readable, h.listeners, hc, Connection.readAnswered, hread, noted]
  have hallowed : ∀ m ∈ posts, (m.owner, m.tok) ∈ ((noted before r told).settle r.token
      (rolledOver before.config { r.c with proto := p } r.abuf) r.hup).handed := by
    rw [settle_handed]
    have hposts := h.allowed
    rwa [h.since] at hposts
  have hafter := (Reach.single trivial hstep).append (reach_posts fuel _ posts hallowed)
  rw [settle_queue_eq] at hafter
  rw [h.since, settle_queue]
  exact hafter

section Follows

variable (proto : Protocol P Out) (cfg : NetEngineConfig)

/-- The events are a run of the engine, given enough fuel. -/
def Runs (es : List Net.Event) (net : Net P Out) : Prop :=
  ∃ F, ∀ fuel, F ≤ fuel → Reach (Net.step proto fuel) anyStep (Net.new cfg) es net

/-- The events are a run of the engine, and then a handler that is not back yet and what client
threads have sent since it began. -/
def Underway (es : List Net.Event) (decoded told : List (ProtoMsg Out)) (net : Net P Out)
    (r : Reading P) : Prop :=
  ∃ es₀ before answer data posts, Runs proto cfg es₀ before ∧
    Begun proto before data posts decoded told net r ∧
    es = es₀ ++ Net.Event.readable r.token r.hup answer (ReadAnswer.ready data)
      :: posts.map Net.Event.send

/-- The engine has come to where it is by these events. -/
def Follows (es : List Net.Event) (s : State P Out) : Prop :=
  match s.loop with
  | Loop.idle => Runs proto cfg es s.net
  | Loop.decoding r => ∃ told, Underway proto cfg es told told s.net r
  | Loop.sending r item remaining consumed =>
      ∃ told, Underway proto cfg es (told ++ [⟨item, r.token⟩]) told s.net
        (r.after remaining consumed)

end Follows

variable {cfg : NetEngineConfig} {es : List Net.Event}

lemma Runs.snoc {net net' : Net P Out} (h : Runs proto cfg es net) {e : Net.Event}
    (hreads : reads net e = none) (hs : net.step proto 0 e = Outcome.ret net') :
    Runs proto cfg (es ++ [e]) net' := by
  obtain ⟨F, hF⟩ := h
  refine ⟨F, fun fuel hfuel => Reach.snoc (hF fuel hfuel) trivial ?_⟩
  rw [step_of_reads_none hreads]
  exact hs

lemma Underway.post {decoded told : List (ProtoMsg Out)} {net : Net P Out} {r : Reading P}
    (h : Underway proto cfg es decoded told net r) {msg : StreamBuf}
    (hmem : (msg.owner, msg.tok) ∈ net.handed) :
    Underway proto cfg (es ++ [Net.Event.send msg]) decoded told
      { net with queue := net.queue ++ [msg] } r := by
  obtain ⟨es₀, before, answer, data, posts, hruns, hbegun, rfl⟩ := h
  exact ⟨es₀, before, answer, data, posts ++ [msg], hruns, hbegun.post hmem, by simp⟩

lemma Underway.found {decoded told : List (ProtoMsg Out)} {net : Net P Out} {r : Reading P}
    (h : Underway proto cfg es decoded told net r) {p : P} {item : Out} {remaining : AROIobuf}
    {consumed : ℕ}
    (happend : proto.append r.c.proto r.abuf = Outcome.ret (p, some (item, remaining, consumed))) :
    Underway proto cfg es (decoded ++ [⟨item, r.token⟩]) told net
      (Reading.after { r with c := { r.c with proto := p } } remaining consumed) := by
  obtain ⟨es₀, before, answer, data, posts, hruns, hbegun, rfl⟩ := h
  exact ⟨es₀, before, answer, data, posts, hruns, hbegun.found happend, rfl⟩

lemma Underway.told_one {decoded told : List (ProtoMsg Out)} {net : Net P Out} {r : Reading P}
    {remaining : AROIobuf} {consumed : ℕ}
    (h : Underway proto cfg es decoded told net (r.after remaining consumed)) (item : Out) :
    Underway proto cfg es decoded (told ++ [⟨item, r.token⟩]) (tell net r item)
      (r.after remaining consumed) := by
  obtain ⟨es₀, before, answer, data, posts, hruns, hbegun, rfl⟩ := h
  exact ⟨es₀, before, answer, data, posts, hruns, hbegun.told_one rfl item, rfl⟩

lemma Underway.finish {told : List (ProtoMsg Out)} {net : Net P Out} {r : Reading P}
    (h : Underway proto cfg es told told net r) {p : P}
    (happend : proto.append r.c.proto r.abuf = Outcome.ret (p, none)) :
    Runs proto cfg es
      (net.settle r.token (rolledOver net.config { r.c with proto := p } r.abuf) r.hup) := by
  obtain ⟨es₀, before, answer, data, posts, ⟨F₀, hF₀⟩, hbegun, rfl⟩ := h
  obtain ⟨F, hF⟩ := hbegun.finish happend answer
  refine ⟨max F₀ F, fun fuel hfuel => ?_⟩
  have hrun₀ := hF₀ fuel (Nat.le_trans (Nat.le_max_left _ _) hfuel)
  exact hrun₀.append (hF fuel (Nat.le_trans (Nat.le_max_right _ _) hfuel))

lemma Follows.step (h : Follows proto cfg es s) {e : Event}
    (hs : step proto s e = Outcome.ret u) : Follows proto cfg (es ++ e.net?.toList) u := by
  cases step_moves hs with
  | @posted msg hmem =>
      cases hloop : s.loop with
      | idle =>
          simp only [Follows, hloop] at h ⊢
          exact h.snoc rfl (by simp [Net.step, hmem])
      | decoding r =>
          simp only [Follows, hloop] at h ⊢
          exact h.imp fun _ hund => hund.post hmem
      | sending r item remaining consumed =>
          simp only [Follows, hloop] at h ⊢
          exact h.imp fun _ hund => hund.post hmem
  | whole hidle hreads hnet =>
      simp only [Follows, hidle] at h ⊢
      exact h.snoc hreads hnet
  | @begun token hup answer data c abuf hidle hl hc hlen hslice =>
      simp only [Follows, hidle] at h ⊢
      refine ⟨[], es, s.net, answer, data, [], h,
        ⟨hl, ⟨c, abuf, 0, hc, hlen, hslice, rfl, ?_⟩, ?_, ?_⟩, rfl⟩
      · intro fuel
        rfl
      · simp [noted]
      · simp
  | finished hloop happend =>
      simp only [Follows, hloop] at h ⊢
      obtain ⟨told, hund⟩ := h
      simpa [Event.net?] using hund.finish happend
  | found hloop happend =>
      simp only [Follows, hloop] at h ⊢
      obtain ⟨told, hund⟩ := h
      exact ⟨told, by simpa [Event.net?] using hund.found happend⟩
  | @lost r item remaining consumed hloop hgone =>
      simp only [Follows, hloop] at h ⊢
      obtain ⟨told, hund⟩ := h
      exact ⟨_, by simpa [Event.net?] using hund.told_one item⟩
  | @kept r item remaining consumed hloop hgone hroom =>
      simp only [Follows, hloop] at h ⊢
      obtain ⟨told, hund⟩ := h
      exact ⟨_, by simpa [Event.net?] using hund.told_one item⟩
  | taken hgone hbuffer => simpa [Event.net?, Follows] using h
  | @handed r item remaining consumed hloop hgone hbuffer hsize =>
      simp only [Follows, hloop] at h ⊢
      obtain ⟨told, hund⟩ := h
      exact ⟨_, by simpa [Event.net?] using hund.told_one item⟩
  | dropped hgone => simpa [Event.net?, Follows] using h

lemma follows_reach {es : List Event} (h : Reach (step proto) anyStep (start cfg) es s) :
    Follows proto cfg (es.filterMap Event.net?) s := by
  induction h with
  | nil => exact show Runs proto cfg [] (Net.new cfg) from ⟨0, fun _ _ => Reach.nil⟩
  | @snoc es t u e _ _ hs ih =>
      rw [List.filterMap_append]
      have hone : [e].filterMap Event.net? = e.net?.toList := by
        cases e <;> rfl
      rw [hone]
      exact ih.step hs

lemma filled_reach {es : List Event} (h : Reach (step proto) anyStep (start cfg) es s) :
    Filled s ∧ s.net.config = cfg := by
  refine h.invariant (P := fun s => Filled s ∧ s.net.config = cfg) ⟨filled_start cfg, rfl⟩ ?_
  rintro t e u ⟨hfilled, hconfig⟩ - hs
  exact ⟨hfilled.step hs, (config_step hs).trans hconfig⟩

/-! ## What the engine does, it does here -/

variable {tx : ℕ}

/-- A receiver takes a message off the channel. -/
def Event.takes (tx : ℕ) : Event → Bool
  | recv tx' => decide (tx' = tx)
  | _ => false

/-- The handler goes on, or its receiver takes a message. -/
def Helps (tx : ℕ) : State P Out → Event → Prop := fun _ e => e = Event.turn ∨ e = Event.recv tx

/-- A message is sent, after a read of the channel if there is no room. -/
lemma send_one (proto : Protocol P Out) {r : Reading P} {item : Out} {remaining : AROIobuf}
    {consumed : ℕ}
    (hloop : s.loop = Loop.sending r item remaining consumed) (htx : r.c.connTx = tx)
    (halive : s.gone tx = false) (hbounded : (s.buffer tx).length ≤ s.net.config.queueSize) :
    ∃ fs u, Reach (step proto) (Helps tx) s fs u ∧
      u.loop = Loop.decoding (r.after remaining consumed) ∧ u.gone = s.gone ∧
      u.net = tell s.net r item ∧ (u.buffer tx).length ≤ u.net.config.queueSize ∧
      ∀ n, fs.countP (Event.takes tx) + (n - (u.net.config.queueSize - (u.buffer tx).length))
        = n + 1 - (s.net.config.queueSize - (s.buffer tx).length) := by
  subst htx
  by_cases hroom : (s.buffer r.c.connTx).length < s.net.config.queueSize
  · refine ⟨[Event.turn], _, Reach.single (Or.inl rfl)
      (step_of_moves (Moves.kept hloop halive hroom)), rfl, rfl, rfl, ?_, ?_⟩
    · simpa using Nat.succ_le_of_lt hroom
    · intro n
      simp only [List.countP_singleton, Event.takes, config_tell, Function.update_self,
        List.length_append, List.length_singleton, Bool.false_eq_true, if_false]
      omega
  · have hfull : (s.buffer r.c.connTx).length = s.net.config.queueSize := by omega
    cases hbuffer : s.buffer r.c.connTx with
    | nil =>
        -- a channel of size zero
        have hsize : s.net.config.queueSize = 0 := by rw [← hfull, hbuffer, List.length_nil]
        refine ⟨[Event.recv r.c.connTx], _, Reach.single (Or.inr rfl)
          (step_of_moves (Moves.handed hloop halive hbuffer hsize)), rfl, rfl, rfl, ?_, ?_⟩
        · simp [hbuffer]
        · intro n
          simp [Event.takes, hsize, Nat.add_comm]
    | cons msg rest =>
        rw [hbuffer, List.length_cons] at hfull
        let t : State P Out := { s with
          buffer := Function.update s.buffer r.c.connTx rest
          received := Function.update s.received r.c.connTx (s.received r.c.connTx ++ [msg]) }
        have htaken : step proto s (Event.recv r.c.connTx) = Outcome.ret t :=
          step_of_moves (Moves.taken halive hbuffer)
        have hrest : t.buffer r.c.connTx = rest := Function.update_self _ _ _
        have hroom' : (t.buffer r.c.connTx).length < t.net.config.queueSize := by
          rw [hrest]
          exact Nat.lt_of_succ_le (Nat.le_of_eq hfull)
        have hread : Reach (step proto) (Helps r.c.connTx) s [Event.recv r.c.connTx] t :=
          Reach.single (Or.inr rfl) htaken
        refine ⟨[Event.recv r.c.connTx] ++ [Event.turn], _, hread.append (Reach.single (Or.inl rfl)
          (step_of_moves (Moves.kept (s := t) hloop halive hroom'))), rfl, rfl, rfl, ?_, ?_⟩
        · simpa [hrest] using Nat.le_of_eq hfull
        · intro n
          simp [Event.takes, t, ← hfull, Nat.add_comm]

/-- With receivers that read, the loop of `readable` comes to its end. -/
lemma carried {fuel : ℕ} {r : Reading P} {sent sent' : List (ProtoMsg Out)} {p : P}
    {abuf : AROIobuf} {marker : ℕ} (hloop : s.loop = Loop.decoding r)
    (halive : ∀ tx, s.gone tx = false)
    (hbounded : (s.buffer r.c.connTx).length ≤ s.net.config.queueSize)
    (hdecode : decode proto r.token fuel r.c.proto r.abuf r.c.marker sent
      = Outcome.ret (p, abuf, marker, sent')) :
    ∃ fs u told, Reach (step proto) (Helps r.c.connTx) s fs u ∧ u.loop = Loop.idle ∧
      u.gone = s.gone ∧ sent' = sent ++ told ∧
      u.net = (noted s.net r told).settle r.token
        (rolledOver s.net.config { r.c with proto := p, marker := marker } abuf) r.hup := by
  induction fuel generalizing s r sent with
  | zero => cases hdecode
  | succ fuel ih =>
      rw [decode] at hdecode
      obtain ⟨⟨p', found⟩, happend, hdecode⟩ := Outcome.bind_eq_ret.mp hdecode
      cases found with
      | none =>
          obtain ⟨rfl, rfl, rfl, rfl⟩ :
              p' = p ∧ r.abuf = abuf ∧ r.c.marker = marker ∧ sent = sent' := by
            simpa using hdecode
          refine ⟨[Event.turn], _, [], Reach.single (Or.inl rfl)
            (step_of_moves (Moves.finished hloop happend)), rfl, rfl, by simp, ?_⟩
          simp [noted]
      | some found =>
          obtain ⟨item, remaining, consumed⟩ := found
          let t : State P Out := { s with
            loop := Loop.sending { r with c := { r.c with proto := p' } } item remaining consumed }
          have hfound : Reach (step proto) (Helps r.c.connTx) s [Event.turn] t :=
            Reach.single (Or.inl rfl) (step_of_moves (Moves.found hloop happend))
          obtain ⟨fs, u, hsend, huloop, hugone, hunet, hubounded, -⟩ :=
            send_one proto (s := t) rfl rfl (halive _) hbounded
          obtain ⟨gs, v, told, hback, hidle, hvgone, hsent, hvnet⟩ :=
            ih huloop (fun tx => (congrFun hugone tx).trans (halive tx)) hubounded hdecode
          refine ⟨[Event.turn] ++ fs ++ gs, v, ⟨item, r.token⟩ :: told,
            (hfound.append hsend).append hback, hidle, hvgone.trans hugone, by simp [hsent], ?_⟩
          rw [hvnet, hunet]
          simp [noted, tell, Reading.after, t]

lemma nets_of_helps {fs : List Event} (h : Reach (step proto) (Helps tx) s fs u) :
    fs.filterMap Event.net? = [] := by
  induction h with
  | nil => rfl
  | snoc _ hhelps _ ih => rcases hhelps with rfl | rfl <;> simp [ih, Event.net?]

/-- What `Ready(n)` came to, step by step. -/
lemma received_inv {c c' : Connection P} {config : NetEngineConfig} {token : Token} {fuel : ℕ}
    {data : List UInt8} {msgs : List (ProtoMsg Out)}
    (h : c.received proto config token fuel data = Outcome.ret (c', msgs)) :
    data.length ≤ c.buf.len ∧ ∃ abuf p abuf' marker,
      (c.buf.fill data).atomicSlicePosFromBegin c.marker data.length = some abuf ∧
      decode proto token fuel c.proto abuf c.marker [] = Outcome.ret (p, abuf', marker, msgs) ∧
      c' = rolledOver config { c with buf := c.buf.fill data, proto := p, marker := marker }
        abuf' := by
  obtain ⟨hlen, hrest⟩ := Outcome.guard_eq_ret.mp h
  cases hslice : (c.buf.fill data).atomicSlicePosFromBegin c.marker data.length with
  | none =>
      simp only [hslice] at hrest
      cases hrest
  | some abuf =>
      simp only [hslice] at hrest
      obtain ⟨⟨p, abuf', marker, msgs'⟩, hdecode, -⟩ := Outcome.bind_eq_ret.mp hrest
      rw [received_eq hlen hslice hdecode] at h
      obtain ⟨rfl, rfl⟩ := Prod.mk.inj (Outcome.ret.inj h)
      exact ⟨hlen, abuf, p, abuf', marker, rfl, hdecode, rfl⟩

/-- Every run of the engine can be gone through here, with receivers that read. -/
lemma realised {fuel : ℕ} {net : Net P Out}
    (h : Reach (Net.step proto fuel) anyStep (Net.new cfg) es net) :
    ∃ fs s, Reach (step proto) anyStep (start cfg) fs s ∧ fs.filterMap Event.net? = es ∧
      s.loop = Loop.idle ∧ (∀ tx, s.gone tx = false) ∧ s.net = net := by
  induction h with
  | nil => exact ⟨[], start cfg, Reach.nil, rfl, rfl, fun _ => rfl, rfl⟩
  | @snoc es net net' e _ _ hstep ih =>
      obtain ⟨fs, s, hrun, hes, hidle, halive, rfl⟩ := ih
      cases hreads : reads s.net e with
      | none =>
          rw [step_of_reads_none hreads] at hstep
          have hwhole := step_of_moves (Moves.whole hidle hreads hstep)
          exact ⟨fs ++ [Event.net e], _, Reach.snoc hrun trivial hwhole, by simp [hes, Event.net?],
            hidle, halive, rfl⟩
      | some found =>
          obtain ⟨token, hup, c, data⟩ := found
          obtain ⟨answer, rfl, hl, hc⟩ := reads_some hreads
          simp only [Net.step, Net.readable, hl, hc, Connection.readAnswered] at hstep
          obtain ⟨⟨c', msgs⟩, hreceived, hstep⟩ := Outcome.bind_eq_ret.mp hstep
          obtain ⟨hlen, abuf, p, abuf', marker, hslice, hdecode, rfl⟩ := received_inv hreceived
          let r : Reading P := ⟨token, hup, { c with buf := c.buf.fill data }, abuf⟩
          let t : State P Out := { s with loop := Loop.decoding r }
          have hbegun : step proto s
              (Event.net (Net.Event.readable token hup answer (ReadAnswer.ready data)))
              = Outcome.ret t := step_of_moves (Moves.begun hidle hl hc hlen hslice)
          have hbounded := ((filled_reach hrun).1 c.connTx).bounded
          obtain ⟨gs, u, told, hback, huidle, hugone, rfl, hunet⟩ :=
            carried (s := t) rfl halive hbounded hdecode
          refine ⟨fs ++ [_] ++ gs, u, (Reach.snoc hrun trivial hbegun).append
            (hback.mono fun _ _ _ => trivial), ?_, huidle,
            fun tx => (congrFun hugone tx).trans (halive tx), ?_⟩
          · simp [hes, nets_of_helps hback, Event.net?]
          · rw [hunet, ← Outcome.ret.inj hstep]
            simp [noted, r, t]

/-- **Bounded channels.**  For every protocol, the runs of the engine with handlers in one piece and
unbounded channels are those of the engine that sends message by message on bounded ones, as seen
whenever its loop is idle.  And there, whatever happens and in whatever order, what a receiver has
taken is the beginning of what was sent on its channel; what waits for it is the rest, unless it is
gone, and never more than the channel holds. -/
theorem bounded_refines (proto : Protocol P Out) (cfg : NetEngineConfig) :
    (∀ es net, (∃ fuel, Reach (Net.step proto fuel) anyStep (Net.new cfg) es net) ↔
      ∃ fs s, Reach (step proto) anyStep (start cfg) fs s ∧ fs.filterMap Event.net? = es ∧
        s.loop = Loop.idle ∧ s.net = net) ∧
    ∀ fs s, Reach (step proto) anyStep (start cfg) fs s → ∀ tx,
      s.received tx <+: s.net.channel tx ∧
      (s.gone tx = false → s.received tx ++ s.buffer tx = s.net.channel tx) ∧
      (s.buffer tx).length ≤ cfg.queueSize := by
  refine ⟨?_, ?_⟩
  · intro es net
    constructor
    · rintro ⟨fuel, hrun⟩
      obtain ⟨fs, s, hrun', hes, hidle, -, hnet⟩ := realised hrun
      exact ⟨fs, s, hrun', hes, hidle, hnet⟩
    · rintro ⟨fs, s, hrun, rfl, hidle, rfl⟩
      have hfollows := follows_reach hrun
      rw [Follows, hidle] at hfollows
      obtain ⟨F, hF⟩ := hfollows
      exact ⟨F, hF F (Nat.le_refl F)⟩
  · intro fs s hrun tx
    obtain ⟨hfilled, hconfig⟩ := filled_reach hrun
    have htx := hfilled tx
    rw [hconfig] at htx
    exact ⟨htx.taken_prefix, htx.all, htx.bounded⟩

/-- Channels of size one. -/
def narrow : NetEngineConfig := { NetEngineConfig.defaults with queueSize := 1 }

/-- A client connects, four bytes come in for it, and two of them fill its channel; the loop has
decoded the other two. -/
def crowded : List Event :=
  [Event.net (Net.Event.connected 256),
    Event.net (Net.Event.readable 256 false AcceptAnswer.failed (ReadAnswer.ready [1, 2, 3, 4])),
    Event.turn, Event.turn, Event.turn]

/-- The client reads once, and the handler comes back. -/
def relieved : List Event := crowded ++ [Event.recv 0, Event.turn, Event.turn]

/-- The client has got one message and finds the other in its channel. -/
theorem bounded_refines_relieved : ∃ s : State Unit AROIobuf,
    Reach (step (BufProtocol 2)) anyStep (start narrow) relieved s ∧
      (s.received 0).length = 1 ∧ s.received 0 ++ s.buffer 0 = s.net.channel 0 ∧
      ∃ fuel, Reach (Net.step (BufProtocol 2) fuel) anyStep (Net.new narrow)
        (relieved.filterMap Event.net?) s.net := by
  obtain ⟨s, hexec, hidle, halive, hlen⟩ : ∃ s : State Unit AROIobuf,
      execute (step (BufProtocol 2)) (fun _ _ => true) (start narrow) relieved = some s ∧
        s.loop = Loop.idle ∧ s.gone 0 = false ∧ (s.received 0).length = 1 :=
    ⟨_, rfl, rfl, rfl, rfl⟩
  have hrun : Reach (step (BufProtocol 2)) anyStep (start narrow) relieved s :=
    reach_of_execute (fun _ _ _ => trivial) hexec
  obtain ⟨hruns, hchannels⟩ := bounded_refines (BufProtocol 2) narrow
  exact ⟨s, hrun, hlen, (hchannels _ s hrun 0).2.1 halive,
    (hruns _ s.net).mpr ⟨relieved, s, hrun, rfl, hidle, rfl⟩⟩

end Backpressure

end Rx
