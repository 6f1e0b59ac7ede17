import RxRust.Core.Refine
import RxRust.Core.Words
import RxRust.Reactor.Engine

/-!
# Protocols that decode their frames

The engine never looks into the messages it sends.  So a protocol that does what another one does
and then decodes each item sends the decoded items, and nothing else changes, in no state and for no
event; whatever is known about the engine with the one protocol holds for it with the other.

* `Protocol.map` — a protocol whose items are decoded.
* `Net.mapOut` — the engine as it would be if the items had been decoded.
* **`step_map`** — the two commute with every event of the system.
* `U64Protocol` — the protocol of the tests in `net_stream.rs`, which is `BufProtocol` with frames of
  eight bytes, decoded; `u64Bytes` is what the tests send.
-/

namespace Rx

open Core

variable {P Out Out' : Type}

/-- The items decoded. -/
def Protocol.map (f : Out → Out') (proto : Protocol P Out) : Protocol P Out' where
  new := proto.new
  append := fun p buf =>
    (fun r => (r.1, r.2.map fun q => (f q.1, q.2.1, q.2.2))) <$> proto.append p buf

/-- A message with its item decoded. -/
def ProtoMsg.map (f : Out → Out') (m : ProtoMsg Out) : ProtoMsg Out' := ⟨f m.item, m.tok⟩

section Decode

variable {f : Out → Out'} {proto : Protocol P Out} {token : Token}

/-- The decode loop does not look into the items. -/
lemma decode_map (fuel : ℕ) (p : P) (abuf : AROIobuf) (marker : ℕ) (sent : List (ProtoMsg Out)) :
    decode (proto.map f) token fuel p abuf marker (sent.map (ProtoMsg.map f))
      = (fun r => (r.1, r.2.1, r.2.2.1, r.2.2.2.map (ProtoMsg.map f)))
        <$> decode proto token fuel p abuf marker sent := by
  induction fuel generalizing p abuf marker sent with
  | zero => simp [decode]
  | succ fuel ih =>
      simp only [decode, Protocol.map]
      cases happ : proto.append p abuf with
      | panic msg => simp
      | stuck => simp
      | ret r =>
          obtain ⟨q, next⟩ := r
          rcases next with _ | ⟨item, rest, n⟩
          · simp
          · have hsnoc : sent.map (ProtoMsg.map f) ++ [⟨f item, token⟩]
                = (sent ++ [(⟨item, token⟩ : ProtoMsg Out)]).map (ProtoMsg.map f) := by
              simp [ProtoMsg.map]
            simp only [Outcome.map_ret, Outcome.ret_bind, Option.map_some, hsnoc]
            exact ih q rest _ _

lemma readAnswered_map {config : NetEngineConfig} {fuel : ℕ} (c : Connection P)
    (read : ReadAnswer) :
    c.readAnswered (proto.map f) config token fuel read
      = (fun r => (r.1, r.2.map (ProtoMsg.map f)))
        <$> c.readAnswered proto config token fuel read := by
  cases read with
  | wouldBlock => simp [Connection.readAnswered]
  | err e => simp [Connection.readAnswered]
  | ready data =>
      simp only [Connection.readAnswered, Connection.received]
      by_cases hfit : data.length ≤ c.buf.len
      · rw [if_pos hfit, if_pos hfit]
        cases (c.buf.fill data).atomicSlicePosFromBegin c.marker data.length with
        | none => simp
        | some abuf =>
            have hdec : decode (proto.map f) token fuel c.proto abuf c.marker []
                = _ <$> decode proto token fuel c.proto abuf c.marker [] :=
              decode_map fuel c.proto abuf c.marker []
            simp only [hdec]
            cases decode proto token fuel c.proto abuf c.marker [] with
            | panic msg => simp
            | stuck => simp
            | ret r =>
                simp only [Outcome.map_ret, Outcome.ret_bind]
                split_ifs <;> simp
      · rw [if_neg hfit, if_neg hfit, Outcome.map_stuck]

end Decode

/-! ## The engine -/

namespace Net

variable {f : Out → Out'} {proto : Protocol P Out} {fuel : ℕ}

/-- The engine, with the items that it has sent decoded. -/
def mapOut (f : Out → Out') (s : Net P Out) : Net P Out' where
  listeners := s.listeners
  conns := s.conns
  config := s.config
  passed := s.passed
  queue := s.queue
  sent := s.sent.map fun m => (m.1, m.2.map f)
  handed := s.handed
  closed := s.closed
  nextSock := s.nextSock
  nextChan := s.nextChan

lemma flushed_mapOut (s : Net P Out) (t : Token) (c : Connection P) :
    (s.mapOut f).flushed t c = (s.flushed t c).mapOut f := by
  simp only [flushed]
  split_ifs <;> rfl

lemma settle_mapOut (s : Net P Out) (t : Token) (c : Connection P) (hup : Bool) :
    (s.mapOut f).settle t c hup = (s.settle t c hup).mapOut f := by
  cases hup <;> rfl

lemma drained_mapOut (s : Net P Out) (t : Token) (c : Connection P) (answers : List WriteAnswer) :
    (s.mapOut f).drained t c answers = mapOut f <$> s.drained t c answers := by
  simp only [drained]
  cases c.drainWriteQueueToSocket answers with
  | panic msg => simp
  | stuck => simp
  | ret r =>
      simp only [Outcome.ret_bind, flushed_mapOut]
      split_ifs <;> simp

lemma notify_mapOut (s : Net P Out) (msg : StreamBuf) (answers : List WriteAnswer) :
    (s.mapOut f).notify msg answers = mapOut f <$> s.notify msg answers := by
  have hconns : (s.mapOut f).conns = s.conns := rfl
  simp only [notify, hconns]
  cases s.conns.get msg.tok with
  | none => split_ifs <;> rfl
  | some c => exact drained_mapOut s msg.tok _ answers

lemma connect_map (s : Net P Out) (hostname : String) (port : ℕ) (socket : Except String Unit)
    (slot : Option Token) (register connected : Except String Unit) :
    (s.mapOut f).connect (proto.map f) hostname port socket slot register connected
      = (fun r => (r.1.mapOut f, r.2))
        <$> s.connect proto hostname port socket slot register connected := by
  cases socket with
  | error e => rfl
  | ok v =>
      have hnew : ∀ sock tx buf, Connection.new (proto.map f) sock tx buf
          = Connection.new proto sock tx buf := fun _ _ _ => rfl
      simp only [connect, hnew]
      cases hins : s.conns.insert slot
          (Connection.new proto ⟨s.nextSock, []⟩ s.nextChan s.config.newBuf) with
      | panic msg => simp [mapOut, hins]
      | stuck => simp [mapOut, hins]
      | ret r =>
          rcases r with _ | ⟨tok, conns⟩
          · simp [mapOut, hins]
          · cases register with
            | error e => simp [mapOut, hins, opened, pass]
            | ok v => cases connected <;> simp [mapOut, hins, opened, pass]

lemma listen_map (s : Net P Out) (addr : String) (port : ℕ) (socket bind listen : Except String Unit)
    (slot : Option Token) (register : Except String Unit) :
    (s.mapOut f).listen addr port socket bind listen slot register
      = (fun r => (r.1.mapOut f, r.2)) <$> s.listen addr port socket bind listen slot register := by
  cases socket with
  | error e => rfl
  | ok v =>
      cases bind with
      | error e => rfl
      | ok v =>
          cases listen with
          | error e => rfl
          | ok v =>
              simp only [Net.listen]
              cases hins : s.listeners.insert slot s.nextChan with
              | panic msg => simp [mapOut, hins]
              | stuck => simp [mapOut, hins]
              | ret r =>
                  rcases r with _ | ⟨tok, listeners⟩
                  · simp [mapOut, hins]
                  · cases register <;> simp [mapOut, hins, pass]

lemma accept_map (s : Net P Out) (token : Token) (tx : ℕ) (answer : AcceptAnswer) :
    (s.mapOut f).accept (proto.map f) token tx answer = mapOut f <$> s.accept proto token tx answer := by
  cases answer with
  | failed => rfl
  | ready slot =>
      have hnew : ∀ sock tx buf, Connection.new (proto.map f) sock tx buf
          = Connection.new proto sock tx buf := fun _ _ _ => rfl
      simp only [accept, hnew]
      cases hins : s.conns.insert slot
          (Connection.new proto ⟨s.nextSock, []⟩ tx s.config.newBuf) with
      | panic msg => simp [mapOut, hins]
      | stuck => simp [mapOut, hins]
      | ret r =>
          rcases r with _ | ⟨tok, conns⟩
          · simp [mapOut, hins, pass]
          · simp [mapOut, hins, opened, pass]

lemma readable_map (s : Net P Out) (token : Token) (hup : Bool) (answer : AcceptAnswer)
    (read : ReadAnswer) :
    (s.mapOut f).readable (proto.map f) fuel token hup answer read
      = mapOut f <$> s.readable proto fuel token hup answer read := by
  have hlisteners : (s.mapOut f).listeners = s.listeners := rfl
  have hconns : (s.mapOut f).conns = s.conns := rfl
  simp only [readable, hlisteners, hconns]
  cases s.listeners.get token with
  | some tx => exact accept_map s token tx answer
  | none =>
      cases s.conns.get token with
      | none => rfl
      | some c =>
          have hconfig : (s.mapOut f).config = s.config := rfl
          simp only [hconfig, readAnswered_map]
          cases c.readAnswered proto s.config token fuel read with
          | panic msg => simp
          | stuck => simp
          | ret r =>
              simp only [Outcome.map_ret, Outcome.ret_bind, Outcome.pure_eq, ← settle_mapOut]
              simp [mapOut, Function.comp_def]

/-- **The engine does not look into the messages.**  Every event does the same whether or not the
items are decoded. -/
theorem step_map (s : Net P Out) (e : Event) :
    (s.mapOut f).step (proto.map f) fuel e = mapOut f <$> s.step proto fuel e := by
  cases e with
  | connect hostname port socket slot register connected =>
      simp only [step, connect_map, Functor.map_map]
  | listen addr port socket bind listen slot register =>
      simp only [step, listen_map, Functor.map_map]
  | readable token hup answer read => exact readable_map s token hup answer read
  | writable token answers =>
      have hconns : (s.mapOut f).conns = s.conns := rfl
      simp only [step, writable, hconns]
      cases s.conns.get token with
      | none => split_ifs <;> rfl
      | some c => exact drained_mapOut s token c answers
  | notify answers =>
      have hqueue : (s.mapOut f).queue = s.queue := rfl
      simp only [step, hqueue]
      cases s.queue with
      | nil => rfl
      | cons msg queue => exact notify_mapOut { s with queue := queue } msg answers
  | send msg =>
      have hhanded : (s.mapOut f).handed = s.handed := rfl
      simp only [step, hhanded]
      split_ifs <;> rfl

/-- So it is in every run. -/
lemma reach_map {cfg : NetEngineConfig} {es : List Event} {s' : Net P Out'}
    (h : Reach (step (proto.map f) fuel) anyStep (new cfg) es s') :
    ∃ s, s' = mapOut f s ∧ Reach (step proto fuel) anyStep (new cfg) es s :=
  Reach.of_commutes (f := mapOut f) (s := new cfg) step_map (fun _ _ _ => trivial) h

end Net

/-! ## Words -/

/-- `*(mem::transmute::<*mut u8, *const u64>(a.ptr()))`, lowest byte first. -/
def u64Of (a : AROIobuf) : UInt64 := UInt64.ofNat (ofBytes (a.window.take 8))

/-- `to_bytes` of a `u64`. -/
def u64Bytes (x : UInt64) : List UInt8 := toBytes 8 x.toNat

/-- `U64Protocol` -/
def U64Protocol : Protocol Unit UInt64 where
  new := ()
  append := fun _ buf =>
    if buf.len ≥ 8 then
      match buf.splitAt 8 with
      | some (a, b) => pure ((), some (u64Of a, b, 8))
      | none => Outcome.panic "called `Result::unwrap()` on an `Err` value"
    else pure ((), none)

/-- `U64Protocol` is `BufProtocol` with frames of eight bytes, decoded. -/
lemma u64Protocol_eq : U64Protocol = (BufProtocol 8).map u64Of := by
  have happend : U64Protocol.append = ((BufProtocol 8).map u64Of).append := by
    funext p buf
    simp only [U64Protocol, Protocol.map, BufProtocol]
    split_ifs
    · cases buf.splitAt 8 with
      | none => rfl
      | some r => rfl
    · rfl
  show Protocol.mk _ U64Protocol.append = _
  rw [happend]

lemma length_u64Bytes (x : UInt64) : (u64Bytes x).length = 8 := length_toBytes 8 _

/-- A word is read back. -/
lemma ofBytes_u64Bytes (x : UInt64) : UInt64.ofNat (ofBytes (u64Bytes x)) = x := by
  have hlt : x.toNat < 256 ^ 8 := x.toNat_lt
  rw [u64Bytes, ofBytes_toBytes hlt, UInt64.ofNat_toNat]

end Rx
