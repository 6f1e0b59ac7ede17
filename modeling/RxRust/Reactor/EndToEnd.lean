import RxRust.Reactor.Pipe
import RxRust.Reactor.Codec

/-!
# From one engine to another

Any number of engines, each with its clients, listeners and connections, and among them one
connection whose two ends are looked at: a client of the one engine posts messages for its end, and
the other engine reads at its own.  Both ends may be in one engine, as in the test of
`net_stream.rs`.  The kernel and the network are a link that gives the bytes its one end has taken
to the other end, in order and in pieces of any size; whatever else the engines do goes on at the
same time.

* `Link`, `Network`, `Network.step` — the engines, and the connection between two tokens.
* `Network.Open` — neither end hangs up.
* `Conserved` — the invariant of the sending end.
* **`conserved`** — what has been read, what is on the link, what the connection still holds and what
  is in the loop's queue are together what was posted, for every protocol.
* `Received` — the invariant of the receiving end: its reads are a run of the machine of
  `ReadBuffer`.
* **`oneway`** — words posted at the one end come out at the other, in order and each once, if the
  reads do not run into the read buffer's defect.
-/

namespace Rx

open Core

/-- The engine and the token of the sending end, and of the receiving end. -/
structure Link (ι : Type) where
  src : ι × Token
  dst : ι × Token

/-- The engines, and how many bytes the receiving end has read. -/
structure Network (ι P Out : Type) where
  nets : ι → Net P Out
  read : ℕ

namespace Network

variable {ι P Out : Type} [DecidableEq ι]

/-- The bytes that the sending end's socket has taken. -/
def carried (L : Link ι) (w : Network ι P Out) : List UInt8 :=
  match (w.nets L.src.1).conns.get L.src.2 with
  | some c => c.sock.sent
  | none => []

/-- The read that an event makes at the receiving end. -/
def readAt (L : Link ι) (e : ι × Net.Event) : Option (List UInt8) :=
  if e.1 = L.dst.1 then e.2.read? L.dst.2 else none

/-- What an event posts for the sending end. -/
def postAt (L : Link ι) (e : ι × Net.Event) : List UInt8 :=
  if e.1 = L.src.1 then e.2.posts L.src.2 else []

/-- The reads of a run at the receiving end. -/
def readsOf (L : Link ι) (es : List (ι × Net.Event)) : List (List UInt8) := es.filterMap (readAt L)

/-- What was posted for the sending end. -/
def posted (L : Link ι) (es : List (ι × Net.Event)) : List UInt8 := es.flatMap (postAt L)

/-- Nothing has been read. -/
def start (nets : ι → Net P Out) : Network ι P Out := ⟨nets, 0⟩

/-- One event at one engine.  A read at the receiving end gets the next bytes of the link. -/
def step (proto : Protocol P Out) (fuel : ℕ) (L : Link ι) (w : Network ι P Out)
    (e : ι × Net.Event) : Outcome (Network ι P Out) :=
  let data := (readAt L e).getD []
  if ((w.carried L).drop w.read).take data.length = data then do
    let net ← (w.nets e.1).step proto fuel e.2
    pure ⟨Function.update w.nets e.1 net, w.read + data.length⟩
  else Outcome.stuck

/-- Neither end hangs up. -/
def Open (L : Link ι) (_ : Network ι P Out) (e : ι × Net.Event) : Prop :=
  (e.1 = L.src.1 → e.2.hangsUp L.src.2 = false) ∧ (e.1 = L.dst.1 → e.2.hangsUp L.dst.2 = false)

/-- The connection has just been made, at both ends: nothing has been written, read or posted. -/
structure Fresh (proto : Protocol P Out) (fuel : ℕ) (cfg : ι → NetEngineConfig) (L : Link ι)
    (nets : ι → Net P Out) (a b : Connection P) : Prop where
  reached : ∀ i, ∃ es, Reach (Net.step proto fuel) anyStep (Net.new (cfg i)) es (nets i)
  src : (nets L.src.1).conns.get L.src.2 = some a
  dst : (nets L.dst.1).conns.get L.dst.2 = some b
  written : a.sock.written = []
  outbuf : a.outbuf = []
  queued : Net.queuedFor L.src.2 (nets L.src.1).queue = []
  marker : b.marker = 0
  buf : b.buf = (cfg L.dst.1).newBuf

variable {proto : Protocol P Out} {fuel : ℕ} {cfg : ι → NetEngineConfig} {L : Link ι}
  {nets : ι → Net P Out} {w v : Network ι P Out} {e : ι × Net.Event} {es : List (ι × Net.Event)}

/-- What a step does. -/
lemma step_eq_ret (h : w.step proto fuel L e = Outcome.ret v) :
    ((w.carried L).drop w.read).take ((readAt L e).getD []).length = (readAt L e).getD [] ∧
      ∃ net, (w.nets e.1).step proto fuel e.2 = Outcome.ret net ∧
        v = ⟨Function.update w.nets e.1 net, w.read + ((readAt L e).getD []).length⟩ := by
  obtain ⟨hdata, h⟩ := Outcome.guard_eq_ret.mp h
  obtain ⟨net, hnet, h⟩ := Outcome.bind_eq_ret.mp h
  exact ⟨hdata, net, hnet, (Outcome.ret.inj h).symm⟩

/-- An engine takes the event, or stays as it is. -/
lemma step_at (h : w.step proto fuel L e = Outcome.ret v) (i : ι) :
    v.nets i = w.nets i ∨ i = e.1 ∧ (w.nets i).step proto fuel e.2 = Outcome.ret (v.nets i) := by
  obtain ⟨-, net, hnet, rfl⟩ := step_eq_ret h
  by_cases hi : i = e.1
  · subst hi
    exact Or.inr ⟨rfl, by simpa using hnet⟩
  · exact Or.inl (Function.update_of_ne hi ..)

/-! ## The sending end -/

/-- The sending end: nothing is lost on the way to the socket, and what has been read is the first
part of what the socket has taken. -/
structure Conserved (L : Link ι) (es : List (ι × Net.Event)) (w : Network ι P Out)
    (c : Connection P) : Prop where
  conn : (w.nets L.src.1).conns.get L.src.2 = some c
  out : Net.stream c ++ Net.queuedFor L.src.2 (w.nets L.src.1).queue = posted L es
  read : (readsOf L es).flatten = c.sock.sent.take w.read
  within : w.read ≤ c.sock.sent.length

lemma posted_snoc (L : Link ι) (es : List (ι × Net.Event)) (e : ι × Net.Event) :
    posted L (es ++ [e]) = posted L es ++ postAt L e := by
  simp [posted]

lemma readsOf_snoc (L : Link ι) (es : List (ι × Net.Event)) (e : ι × Net.Event) :
    readsOf L (es ++ [e]) = readsOf L es ++ (readAt L e).toList := by
  cases h : readAt L e <;> simp [readsOf, h]

/-- **One event**, at whichever engine. -/
lemma Conserved.step {c : Connection P} (h : Conserved L es w c) (hopen : Open L w e)
    (hs : w.step proto fuel L e = Outcome.ret v) : ∃ c', Conserved L (es ++ [e]) v c' := by
  obtain ⟨hdata, net, hnet, rfl⟩ := step_eq_ret hs
  have hcarried : w.carried L = c.sock.sent := by
    rw [carried, h.conn]
  -- what the engine at the sending end makes of the event
  obtain ⟨c', hget, hpre, hout⟩ : ∃ c',
      (Function.update w.nets e.1 net L.src.1).conns.get L.src.2 = some c' ∧
      c.sock.sent <+: c'.sock.sent ∧
      Net.stream c' ++ Net.queuedFor L.src.2 (Function.update w.nets e.1 net L.src.1).queue
        = posted L es ++ postAt L e := by
    by_cases hsrc : L.src.1 = e.1
    · rw [← hsrc, Function.update_self]
      rw [← hsrc] at hnet
      obtain ⟨c', hget, hpre, hout⟩ := Net.step_posts h.conn (hopen.1 hsrc.symm) hnet
      refine ⟨c', hget, hpre, ?_⟩
      rw [hout, h.out, postAt, if_pos hsrc.symm]
    · rw [Function.update_of_ne hsrc]
      refine ⟨c, h.conn, List.prefix_refl _, ?_⟩
      rw [h.out, postAt, if_neg (Ne.symm hsrc), List.append_nil]
  rw [hcarried] at hdata
  obtain ⟨rest, hrest⟩ := hpre
  have hlen := congrArg List.length hdata
  rw [List.length_take, List.length_drop] at hlen
  have hroom := h.within
  have hflat : ((readAt L e).toList).flatten = (readAt L e).getD [] := by
    cases readAt L e <;> simp
  refine ⟨c', hget, ?_, ?_, ?_⟩
  · rw [posted_snoc]
    exact hout
  · show (readsOf L (es ++ [e])).flatten
      = c'.sock.sent.take (w.read + ((readAt L e).getD []).length)
    rw [readsOf_snoc, List.flatten_append, h.read, hflat, ← hrest,
      List.take_append_of_le_length (by omega), List.take_add, hdata]
  · show w.read + ((readAt L e).getD []).length ≤ c'.sock.sent.length
    rw [← hrest, List.length_append]
    omega

lemma conserved_reach {a b : Connection P} (hfresh : Fresh proto fuel cfg L nets a b)
    (h : Reach (step proto fuel L) (Open L) (start nets) es w) : ∃ c, Conserved L es w c := by
  induction h with
  | nil =>
      refine ⟨a, hfresh.src, ?_, rfl, Nat.zero_le _⟩
      simp [Net.stream, TcpSocket.sent, hfresh.written, hfresh.outbuf, Connection.outBytes,
        start, hfresh.queued, posted]
  | snoc _ hopen hs ih =>
      obtain ⟨c, hc⟩ := ih
      exact hc.step hopen hs

/-- **Nothing is lost, repeated or reordered on the way.**  For every protocol, and whatever the
engines do besides: the bytes that the receiving end has read, then those the socket has taken and
that were not read yet, then those that the connection holds, then those that are in the loop's
queue, are the bytes that were posted. -/
theorem conserved {a b : Connection P} (hfresh : Fresh proto fuel cfg L nets a b)
    (h : Reach (step proto fuel L) (Open L) (start nets) es w) :
    ∃ c, (w.nets L.src.1).conns.get L.src.2 = some c ∧
      (readsOf L es).flatten ++ c.sock.sent.drop w.read ++ Connection.outBytes c.outbuf
        ++ Net.queuedFor L.src.2 (w.nets L.src.1).queue = posted L es := by
  obtain ⟨c, hc⟩ := conserved_reach hfresh h
  refine ⟨c, hc.conn, ?_⟩
  rw [← hc.out, hc.read, List.take_append_drop, Net.stream]

/-! ## The receiving end -/

section Framed

variable {size tx : ℕ} {nets : ι → Net Unit AROIobuf} {w v : Network ι Unit AROIobuf}

/-- The receiving end: its reads are a run of the machine, and what it has sent is what the machine
has found. -/
structure Received (size tx : ℕ) (cfg : NetEngineConfig) (L : Link ι) (s : Net Unit AROIobuf)
    (es : List (ι × Net.Event)) (w : Network ι Unit AROIobuf) : Prop where
  laid : Net.Laid (Net.new cfg) (w.nets L.dst.1)
  framed : Net.Framed cfg L.dst.2 tx (w.nets L.dst.1)
    ((reader cfg.readBufSz cfg.low size).run ⟨[], 0⟩ (readsOf L es)).1
  sent : (w.nets L.dst.1).payloadsOf L.dst.2 = s.payloadsOf L.dst.2
    ++ ((reader cfg.readBufSz cfg.low size).run ⟨[], 0⟩ (readsOf L es)).2.map fun f => (tx, f)

/-- **One event**, at whichever engine. -/
lemma Received.step {cfg : NetEngineConfig} {s : Net Unit AROIobuf} (hsize : 0 < size)
    (hfuel : cfg.readBufSz < fuel) (h : Received size tx cfg L s es w) (hopen : Open L w e)
    (hs : w.step (BufProtocol size) fuel L e = Outcome.ret v) :
    Received size tx cfg L s (es ++ [e]) v := by
  obtain ⟨-, net, hnet, rfl⟩ := step_eq_ret hs
  by_cases hdst : L.dst.1 = e.1
  · have hread : readAt L e = e.2.read? L.dst.2 := if_pos hdst.symm
    have hnew : Function.update w.nets e.1 net L.dst.1 = net := by
      rw [hdst, Function.update_self]
    rw [← hdst] at hnet
    obtain ⟨hframed, hsent⟩ := h.framed.step hsize hfuel h.laid (hopen.2 hdst.symm) hnet
    have hrun : readsOf L (es ++ [e]) = readsOf L es ++ (e.2.read? L.dst.2).toList := by
      rw [readsOf_snoc, hread]
    refine ⟨?_, ?_, ?_⟩
    · simp only [hnew]
      exact h.laid.trans (Net.step_laid hnet)
    · simp only [hnew, hrun, Transducer.run_append]
      exact hframed
    · simp only [hnew, hrun, Transducer.run_append, List.map_append]
      rw [hsent, h.sent, List.append_assoc]
  · have hread : readAt L e = none := if_neg (Ne.symm hdst)
    have hsame : Function.update w.nets e.1 net L.dst.1 = w.nets L.dst.1 :=
      Function.update_of_ne hdst ..
    have hrun : readsOf L (es ++ [e]) = readsOf L es := by
      rw [readsOf_snoc, hread, Option.toList_none, List.append_nil]
    refine ⟨?_, ?_, ?_⟩
    · simp only [hsame]
      exact h.laid
    · simp only [hsame, hrun]
      exact h.framed
    · simp only [hsame, hrun]
      exact h.sent

lemma received_reach {a b : Connection Unit} (hsize : 0 < size)
    (hfuel : (cfg L.dst.1).readBufSz < fuel)
    (hfresh : Fresh (BufProtocol size) fuel cfg L nets a b)
    (h : Reach (step (BufProtocol size) fuel L) (Open L) (start nets) es w) :
    Received size b.connTx (cfg L.dst.1) L (nets L.dst.1) es w := by
  induction h with
  | nil =>
      obtain ⟨before, hbefore⟩ := hfresh.reached L.dst.1
      refine ⟨Net.laid_reach hbefore, ?_, by simp [start, readsOf]⟩
      exact Net.framed_new hbefore hfresh.dst hfresh.marker hfresh.buf
  | snoc _ hopen hs ih => exact ih.step hsize hfuel hopen hs

/-- The frames that have been read are sent on, each once and in order, if the reads do not run into
the read buffer's defect. -/
lemma frames_arrived {a b : Connection Unit} {ps : List (List UInt8)} (hsize : 0 < size)
    (hfuel : (cfg L.dst.1).readBufSz < fuel)
    (hfresh : Fresh (BufProtocol size) fuel cfg L nets a b)
    (h : Reach (step (BufProtocol size) fuel L) (Open L) (start nets) es w)
    (hposted : posted L es = ps.flatten) (hps : ∀ p ∈ ps, p.length = size)
    (hrests : (((readsOf L es).map List.length).map fun n => n % size).sum < size)
    (hkeeps : KeepsUp (cfg L.dst.1).readBufSz (cfg L.dst.1).low size
      ((readsOf L es).map List.length)) :
    (w.nets L.dst.1).payloadsOf L.dst.2 = (nets L.dst.1).payloadsOf L.dst.2
      ++ (ps.take ((readsOf L es).flatten.length / size)).map fun p => (b.connTx, p) := by
  obtain ⟨c, hc⟩ := conserved_reach hfresh h
  have hsent := (received_reach hsize hfuel hfresh h).sent
  have hframes := (reader_iff hsize _).mpr ⟨hrests, hkeeps⟩ (readsOf L es) rfl
  have hprefix : (readsOf L es).flatten <+: ps.flatMap id := by
    rw [List.flatMap_id, ← hposted, ← hc.out, hc.read, Net.stream, List.append_assoc]
    exact (List.take_prefix _ _).trans (List.prefix_append _ _)
  rw [hsent, hframes, frames_flatMap hsize hps hprefix, List.map_id']

end Framed

/-! ## Decoded -/

section Words

/-- The engines, with the items they have sent decoded. -/
def mapOut {Out' : Type} (f : Out → Out') (w : Network ι P Out) : Network ι P Out' :=
  ⟨fun i => (w.nets i).mapOut f, w.read⟩

lemma step_map {Out' : Type} (f : Out → Out') (w : Network ι P Out) (e : ι × Net.Event) :
    (w.mapOut f).step (proto.map f) fuel L e = mapOut f <$> w.step proto fuel L e := by
  have hcarried : (w.mapOut f).carried L = w.carried L := rfl
  have hread : (w.mapOut f).read = w.read := rfl
  have hnets : (w.mapOut f).nets e.1 = (w.nets e.1).mapOut f := rfl
  simp only [step, hcarried, hread, hnets, Net.step_map]
  split_ifs
  · cases (w.nets e.1).step proto fuel e.2 with
    | panic msg => simp
    | stuck => simp
    | ret net =>
        simp only [Outcome.map_ret, Outcome.ret_bind, Outcome.pure_eq, mapOut]
        congr 2
        funext i
        by_cases hi : i = e.1
        · subst hi
          simp
        · simp [Function.update_of_ne hi]
  · rfl

/-- The words that were sent under the token, each with its channel. -/
def words (t : Token) (s : Net Unit UInt64) : List (ℕ × UInt64) :=
  (s.tagged t).map fun m => (m.1, m.2.item)

lemma words_mapOut (t : Token) (s : Net Unit AROIobuf) :
    words t (s.mapOut u64Of)
      = (s.payloadsOf t).map fun p => (p.1, UInt64.ofNat (ofBytes (p.2.take 8))) := by
  simp [words, Net.tagged, Net.mapOut, Net.payloadsOf, List.filter_map, Function.comp_def,
    ProtoMsg.map, u64Of]

omit [DecidableEq ι] in
/-- The engines before their items were decoded. -/
lemma fresh_map {nets : ι → Net Unit UInt64} {a b : Connection Unit}
    (h : Fresh U64Protocol fuel cfg L nets a b) :
    ∃ nets' : ι → Net Unit AROIobuf, (start nets = (start nets').mapOut u64Of) ∧
      Fresh (BufProtocol 8) fuel cfg L nets' a b := by
  have hreached : ∀ i, ∃ s : Net Unit AROIobuf, nets i = s.mapOut u64Of ∧
      ∃ es, Reach (Net.step (BufProtocol 8) fuel) anyStep (Net.new (cfg i)) es s := by
    intro i
    obtain ⟨es, hes⟩ := h.reached i
    rw [u64Protocol_eq] at hes
    obtain ⟨s, hs, hrun⟩ := Net.reach_map hes
    exact ⟨s, hs, es, hrun⟩
  choose nets' hmap hrun using hreached
  have hnets : nets = fun i => (nets' i).mapOut u64Of := funext hmap
  subst hnets
  exact ⟨nets', rfl, hrun, h.src, h.dst, h.written, h.outbuf, h.queued, h.marker, h.buf⟩

section Arrival

variable {nets : ι → Net Unit UInt64} {w : Network ι Unit UInt64} {a b : Connection Unit}
  {xs : List UInt64}

/-- The words that have been read are sent on, each once and in order, if the reads do not run into
the read buffer's defect. -/
lemma words_arrived (hfuel : (cfg L.dst.1).readBufSz < fuel)
    (hfresh : Fresh U64Protocol fuel cfg L nets a b)
    (h : Reach (step U64Protocol fuel L) (Open L) (start nets) es w)
    (hposted : posted L es = xs.flatMap u64Bytes)
    (hrests : (((readsOf L es).map List.length).map fun n => n % 8).sum < 8)
    (hkeeps : KeepsUp (cfg L.dst.1).readBufSz (cfg L.dst.1).low 8
      ((readsOf L es).map List.length)) :
    words L.dst.2 (w.nets L.dst.1) = words L.dst.2 (nets L.dst.1)
      ++ (xs.take ((readsOf L es).flatten.length / 8)).map (fun x => (b.connTx, x)) := by
  obtain ⟨nets', hstart, hfresh'⟩ := fresh_map hfresh
  have hnets : nets L.dst.1 = (nets' L.dst.1).mapOut u64Of :=
    congrFun (congrArg Network.nets hstart) L.dst.1
  -- the run as it is before anything is decoded
  rw [hstart, u64Protocol_eq] at h
  obtain ⟨w', rfl, hrun⟩ : ∃ w', w = mapOut u64Of w' ∧
      Reach (step (BufProtocol 8) fuel L) (Open L) (start nets') es w' :=
    Reach.of_commutes (f := mapOut u64Of) (step_map u64Of) (fun _ _ hopen => hopen) h
  have hbytes : ∀ p ∈ xs.map u64Bytes, p.length = 8 := by
    intro p hp
    obtain ⟨x, -, rfl⟩ := List.mem_map.mp hp
    exact length_u64Bytes x
  have hframes := frames_arrived (by decide) hfuel hfresh' hrun
    (by rw [hposted, List.flatMap_def]) hbytes hrests hkeeps
  have hdst : (mapOut u64Of w').nets L.dst.1 = (w'.nets L.dst.1).mapOut u64Of := rfl
  rw [hdst, hnets, words_mapOut, words_mapOut, hframes, List.map_append, ← List.map_take]
  simp only [List.map_map, List.append_cancel_left_eq]
  refine List.map_congr_left fun x _ => ?_
  have hwhole : (u64Bytes x).take 8 = u64Bytes x := by
    rw [← length_u64Bytes x, List.take_length]
  simp [hwhole, ofBytes_u64Bytes]

/-- When nothing is left on the way, all the words have been read. -/
lemma all_read {c : Connection Unit} (hc : Conserved L es w c)
    (hposted : posted L es = xs.flatMap u64Bytes) (hread : c.sock.sent.length = w.read)
    (hout : c.outbuf = []) (hqueue : Net.queuedFor L.src.2 (w.nets L.src.1).queue = []) :
    (readsOf L es).flatten.length / 8 = xs.length := by
  have hall : (readsOf L es).flatten = xs.flatMap u64Bytes := by
    rw [← hposted, ← hc.out, hc.read, ← hread, List.take_length, Net.stream, hout, hqueue]
    simp [Connection.outBytes]
  rw [hall, List.length_flatMap]
  simp [length_u64Bytes]

/-- **Words from one engine to another.**  Any number of engines with `U64Protocol`, each in any
state it can reach, and among them a connection that has just been made.  Whatever happens, except
that one of the two ends hangs up: if the words `xs` were posted at the one end and the reads at the
other do not run into the read buffer's defect, then the other end has sent the first of these words
on its channel, in order and each once, as many as it has read; and these are all of them when
nothing is left on the way. -/
theorem oneway (hfuel : (cfg L.dst.1).readBufSz < fuel)
    (hfresh : Fresh U64Protocol fuel cfg L nets a b)
    (h : Reach (step U64Protocol fuel L) (Open L) (start nets) es w)
    (hposted : posted L es = xs.flatMap u64Bytes)
    (hrests : (((readsOf L es).map List.length).map fun n => n % 8).sum < 8)
    (hkeeps : KeepsUp (cfg L.dst.1).readBufSz (cfg L.dst.1).low 8
      ((readsOf L es).map List.length)) :
    ∃ c, (w.nets L.src.1).conns.get L.src.2 = some c ∧
      words L.dst.2 (w.nets L.dst.1) = words L.dst.2 (nets L.dst.1)
        ++ (xs.take ((readsOf L es).flatten.length / 8)).map (fun x => (b.connTx, x)) ∧
      (c.sock.sent.length = w.read → c.outbuf = [] →
        Net.queuedFor L.src.2 (w.nets L.src.1).queue = [] →
          (readsOf L es).flatten.length / 8 = xs.length) := by
  obtain ⟨c, hc⟩ := conserved_reach hfresh h
  exact ⟨c, hc.conn, words_arrived hfuel hfresh h hposted hrests hkeeps,
    fun hread hout hqueue => all_read hc hposted hread hout hqueue⟩

end Arrival

/-! ### The test -/

/-- The ends of the connection in the test: both in one engine. -/
def loopback : Link Unit := ⟨((), 256), ((), 257)⟩

/-- A listener, a client that connects to it, and the connection that is accepted. -/
def loopbackSetup : List Net.Event :=
  [Net.Event.listen "127.0.0.1" 10000 (Except.ok ()) (Except.ok ()) (Except.ok ()) (some 0)
      (Except.ok ()),
    Net.Event.connected 256,
    Net.Event.readable 0 false (AcceptAnswer.ready (some 257)) ReadAnswer.wouldBlock]

/-- The words `5`, `6` and `7` are posted.  The first goes out in two writes, the socket refuses the
second half of the second, and the third has to wait behind it; the first is read alone and the
other two together. -/
def loopbackRun : List (Unit × Net.Event) :=
  [((), Net.Event.send ⟨⟨0, u64Bytes 5, by decide⟩, 256, 0⟩),
    ((), Net.Event.send ⟨⟨0, u64Bytes 6, by decide⟩, 256, 0⟩),
    ((), Net.Event.notify [WriteAnswer.ready 3, WriteAnswer.ready 5]),
    ((), Net.Event.notify [WriteAnswer.ready 4, WriteAnswer.wouldBlock]),
    ((), Net.Event.readable 257 false AcceptAnswer.failed (ReadAnswer.ready (u64Bytes 5))),
    ((), Net.Event.send ⟨⟨0, u64Bytes 7, by decide⟩, 256, 0⟩),
    ((), Net.Event.notify [WriteAnswer.wouldBlock]),
    ((), Net.Event.writable 256 [WriteAnswer.ready 4, WriteAnswer.ready 8]),
    ((), Net.Event.readable 257 false AcceptAnswer.failed
      (ReadAnswer.ready (u64Bytes 6 ++ u64Bytes 7)))]

/-- The engine of the test, ready to send. -/
lemma fresh_loopback : ∃ (s : Net Unit UInt64) (a b : Connection Unit),
    Fresh U64Protocol 1537 (fun _ => NetEngineConfig.defaults) loopback (fun _ => s) a b ∧
      words 257 s = [] ∧ b.connTx = 0 ∧
      ∃ w, execute (step U64Protocol 1537 loopback) (fun _ _ => true) (start fun _ => s) loopbackRun
        = some w := by
  obtain ⟨s, hexec, a, ha, b, hb, hwritten, hout, hqueue, hmarker, hbuf, hwords, htx, hrun⟩ :
      ∃ s : Net Unit UInt64, execute (Net.step U64Protocol 1537) (fun _ _ => true)
          (Net.new NetEngineConfig.defaults) loopbackSetup = some s ∧
        ∃ a, s.conns.get 256 = some a ∧ ∃ b, s.conns.get 257 = some b ∧ a.sock.written = [] ∧
        a.outbuf = [] ∧ Net.queuedFor 256 s.queue = [] ∧ b.marker = 0 ∧
        b.buf = NetEngineConfig.defaults.newBuf ∧ words 257 s = [] ∧ b.connTx = 0 ∧
        ∃ w, execute (step U64Protocol 1537 loopback) (fun _ _ => true) (start fun _ => s)
          loopbackRun = some w :=
    ⟨_, rfl, _, rfl, _, rfl, rfl, rfl, rfl, rfl, rfl, rfl, rfl, _, rfl⟩
  have hreach : Reach (Net.step U64Protocol 1537) anyStep (Net.new NetEngineConfig.defaults)
      loopbackSetup s := reach_of_execute (fun _ _ _ => trivial) hexec
  exact ⟨s, a, b, ⟨fun _ => ⟨_, hreach⟩, ha, hb, hwritten, hout, hqueue, hmarker, hbuf⟩, hwords, htx,
    hrun⟩

lemma open_loopback {s : Net Unit UInt64} {w : Network Unit Unit UInt64}
    (h : execute (step U64Protocol 1537 loopback) (fun _ _ => true) (start fun _ => s) loopbackRun
      = some w) :
    Reach (step U64Protocol 1537 loopback) (Open loopback) (start fun _ => s) loopbackRun w := by
  have hany : Reach (step U64Protocol 1537 loopback) anyStep (start fun _ => s) loopbackRun w :=
    reach_of_execute (fun _ _ _ => trivial) h
  refine (Reach.events_iff hany).mpr ?_
  have hstay : ∀ e ∈ loopbackRun, e.2.hangsUp 256 = false ∧ e.2.hangsUp 257 = false := by decide
  intro e he
  exact ⟨fun _ => (hstay e he).1, fun _ => (hstay e he).2⟩

/-- The words arrive, in order. -/
theorem oneway_loopback : ∃ (s : Net Unit UInt64) (w : Network Unit Unit UInt64),
    Reach (step U64Protocol 1537 loopback) (Open loopback) (start fun _ => s) loopbackRun w ∧
      words 257 s = [] ∧ words 257 (w.nets ()) = [(0, 5), (0, 6), (0, 7)] := by
  obtain ⟨s, a, b, hfresh, hwords, htx, w, hw⟩ := fresh_loopback
  have hrun := open_loopback hw
  have hposted : posted loopback loopbackRun = [(5 : UInt64), 6, 7].flatMap u64Bytes := rfl
  have hkeeps : KeepsUp 1536 64 8 ((readsOf loopback loopbackRun).map List.length) := by
    have hlen : (readsOf loopback loopbackRun).map List.length = [8, 16] := by decide
    rw [hlen]
    intro xs n ys hns _
    refine Or.inl fun x hx => ?_
    have hmem : x ∈ [8, 16] := hns ▸ List.mem_append_left _ hx
    simp only [List.mem_cons, List.not_mem_nil, or_false] at hmem
    rcases hmem with rfl | rfl
    · decide
    · decide
  obtain ⟨-, -, harrived, -⟩ := oneway (by decide) hfresh hrun hposted (by decide) hkeeps
  refine ⟨s, w, hrun, hwords, ?_⟩
  have hdst : loopback.dst = ((), 257) := rfl
  rw [hdst, hwords, htx] at harrived
  exact harrived

/-- And on the way nothing was lost. -/
theorem conserved_loopback : ∃ (s : Net Unit UInt64) (w : Network Unit Unit UInt64),
    Reach (step U64Protocol 1537 loopback) (Open loopback) (start fun _ => s) loopbackRun w ∧
      ∃ c, (w.nets ()).conns.get 256 = some c ∧
        (readsOf loopback loopbackRun).flatten ++ c.sock.sent.drop w.read
          ++ Connection.outBytes c.outbuf ++ Net.queuedFor 256 (w.nets ()).queue
            = [(5 : UInt64), 6, 7].flatMap u64Bytes := by
  obtain ⟨s, a, b, hfresh, -, -, w, hw⟩ := fresh_loopback
  have hrun := open_loopback hw
  exact ⟨s, w, hrun, conserved hfresh hrun⟩

end Words

end Network

end Rx
