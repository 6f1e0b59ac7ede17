import RxRust.Reactor.EndToEnd
import RxRust.Reactor.Routing
import RxRust.Stream.Split

/-!
# A thread that sends over a connection

What the systems of `Remote` and `Ring` have in common: a thread whose pipeline ends in a
`Decoupler` on the queue of an event loop, the engines of `EndToEnd`, and the channel of the
receiving end, off which somebody takes the messages.  The thread and the engines move in any order;
whatever else happens is an event of the system's own.

* `Net.Sole`, `Net.Tokened` — who sends on a channel, and what is on it then.
* `Posting`, `Posting.step` — the thread, the engines and the channel, one event at a time.
* `Posting.Undisturbed` — where the thread stands at a `send` the loop's queue has room, nobody
  hangs up, and nobody else uses the two ends of the connection but for what they may post.
* `Posting.undisturbed_cases` — everything an undisturbed step can do.
* `Posting.Inv` — where the engines are, what has been read, and what is on the channel.
* **`Posting.undisturbed_of`** — if the receiving engine keeps a property that makes the channel the
  connection's own, it is enough that the connection is left alone.
-/

namespace Rx

open Core

/-! ## Channels -/

/-- Only the connection under the token sends on the channel. -/
def Net.Sole {P Out : Type} (tx : ℕ) (t : Token) (s : Net P Out) : Prop :=
  ∀ t' c, s.conns.get t' = some c → c.connTx = tx → t' = t

/-- Everything on the channel came in under the token. -/
def Net.Tokened {P Out : Type} (tx : ℕ) (t : Token) (s : Net P Out) : Prop :=
  ∀ m ∈ s.sent, m.1 = tx → m.2.tok = t

namespace Net

variable {P Out : Type} {proto : Protocol P Out} {fuel tx : ℕ} {t : Token} {s u : Net P Out}
  {e : Event}

lemma Tokened.step (hsole : s.Sole tx t) (h : s.Tokened tx t)
    (hs : s.step proto fuel e = Outcome.ret u) : u.Tokened tx t := by
  rcases step_sent hs with hsent | ⟨t', hup, answer, read, k, k', msgs, -, -, hk, hread, hsent⟩
  · rw [Tokened, hsent]
    exact h
  · intro m hm hmtx
    rw [hsent] at hm
    rcases List.mem_append.mp hm with hm | hm
    · exact h m hm hmtx
    · obtain ⟨m', hm', rfl⟩ := List.mem_map.mp hm
      rw [readAnswered_tok hread m' hm']
      exact hsole t' k hk hmtx

/-- What is on the channel are the messages that were sent on it under the token. -/
lemma channel_eq_tagged (h : s.Tokened tx t) :
    s.channel tx = ((s.tagged t).filter fun m => decide (m.1 = tx)).map Prod.snd := by
  rw [channel, tagged, List.filter_filter]
  congr 1
  refine List.filter_congr fun m hm => ?_
  by_cases htx : m.1 = tx
  · simp [htx, h m hm htx]
  · simp [htx]

end Net

namespace Network

variable {ι P Out : Type} [DecidableEq ι] {proto : Protocol P Out} {fuel tx : ℕ} {L : Link ι}
  {w v : Network ι P Out} {e : ι × Net.Event} {i : ι} {t : Token}

/-- What is on a channel stays there. -/
lemma channel_prefix (tx : ℕ) (h : w.step proto fuel L e = Outcome.ret v) (i : ι) :
    (w.nets i).channel tx <+: (v.nets i).channel tx := by
  rcases step_at h i with hsame | ⟨-, hstep⟩
  · simp [hsame]
  · exact Net.channel_prefix tx hstep

lemma tokened_step (hsole : (w.nets i).Sole tx t) (htok : (w.nets i).Tokened tx t)
    (h : w.step proto fuel L e = Outcome.ret v) : (v.nets i).Tokened tx t := by
  rcases step_at h i with hsame | ⟨-, hstep⟩
  · rw [hsame]
    exact htok
  · exact htok.step hsole hstep

/-- A message that is sent changes no channel. -/
lemma tokened_send {j : ι} {msg : StreamBuf} (htok : (w.nets i).Tokened tx t)
    (h : w.step proto fuel L (j, Net.Event.send msg) = Outcome.ret v) :
    (v.nets i).Tokened tx t := by
  rcases step_at h i with hsame | ⟨-, hstep⟩
  · rw [hsame]
    exact htok
  · rcases Net.step_sent hstep with hsent | ⟨t', hup, answer, read, k, k', msgs, he, -⟩
    · rw [Net.Tokened, hsent]
      exact htok
    · cases he

end Network

/-! ## The system -/

/-- The thread stands at a `send`. -/
def Split.Thread.atSend {M A : Type} : Split.Thread M A → Bool
  | Split.Thread.busy (Interact.ask _ _) => true
  | _ => false

/-- The sending thread, the engines, how many messages have been taken off the channel of the
receiving end, and whatever else there is.  `sent` is what the loop's queue has taken from the
thread; no code reads it. -/
structure Posting (ι P Out A X : Type) where
  thread : Split.Thread StreamBuf A
  net : Network ι P Out
  taken : ℕ
  sent : List StreamBuf
  rest : X

namespace Posting

open Network Split

/-- The thread goes on with its call of `next`, an engine takes an event, or something else
happens. -/
inductive Event (ι E : Type) where
  | proceed
  | net (e : ι × Net.Event)
  | own (e : E)

variable {ι P Out A X E : Type} [DecidableEq ι]

/-- The event of the engines, if it is one. -/
def Event.net? : Event ι E → Option (ι × Net.Event)
  | net e => some e
  | _ => none

section Step

variable (proto : Protocol P Out) (fuel : ℕ) (L : Link ι) (tx : ℕ)
  (own : Posting ι P Out A X → E → Outcome (Posting ι P Out A X))

/-- What has been put on the channel of the receiving end. -/
def arrived (s : Posting ι P Out A X) : List (ProtoMsg Out) := (s.net.nets L.dst.1).channel tx

/-- What has been taken off it. -/
def received (s : Posting ι P Out A X) : List (ProtoMsg Out) := (s.arrived L tx).take s.taken

/-- The loop's queue holds as many messages as the configuration says. -/
def HasRoom (s : Posting ι P Out A X) : Prop :=
  (s.net.nets L.src.1).queue.length < (s.net.nets L.src.1).config.queueSize

instance (s : Posting ι P Out A X) : Decidable (s.HasRoom L) := inferInstanceAs (Decidable (_ < _))

/-- One event.  Where the thread has a message to send, the loop's queue takes it, or hands it back
when it is full. -/
def step (s : Posting ι P Out A X) : Event ι E → Outcome (Posting ι P Out A X)
  | Event.proceed => match s.thread with
    | Thread.busy (Interact.ret r) =>
        pure { s with thread := if r.2 then Thread.idle r.1 else Thread.ended r.1 }
    | Thread.busy (Interact.panic msg) => Outcome.panic msg
    | Thread.busy (Interact.ask msg k) =>
        if s.HasRoom L then do
          let net ← s.net.step proto fuel L (L.src.1, Net.Event.send msg)
          pure { s with
            thread := Thread.busy (k (Except.ok ()))
            net := net
            sent := s.sent ++ [msg] }
        else pure { s with thread := Thread.busy (k (Except.error msg)) }
    | _ => Outcome.stuck
  | Event.net e => do
      let net ← s.net.step proto fuel L e
      pure { s with net := net }
  | Event.own e => own s e

/-- If the thread stands at a `send`, the loop's queue has room. -/
def RoomToSend (s : Posting ι P Out A X) : Prop := s.thread.atSend = true → s.HasRoom L

instance (s : Posting ι P Out A X) : Decidable (s.RoomToSend L) :=
  inferInstanceAs (Decidable (_ = true → _))

/-- The queue takes what the thread sends, neither end of the connection hangs up, others post for
the one end what they may, and nobody else sends on the channel of the other. -/
def Undisturbed (may : List UInt8 → Prop) (s : Posting ι P Out A X) : Event ι E → Prop
  | Event.proceed => s.RoomToSend L
  | Event.net e => Open L s.net e ∧ may (postAt L e) ∧ (s.net.nets L.dst.1).Sole tx L.dst.2
  | Event.own _ => True

/-- An event that leaves the two ends of the connection alone, is one that the receiving engine may
get, and finds room where it needs some. -/
def LeavesAlone (may : List UInt8 → Prop) (keeps : Net.Event → Bool) (s : Posting ι P Out A X) :
    Event ι E → Prop
  | Event.proceed => s.RoomToSend L
  | Event.net e => may (postAt L e) ∧ (e.1 = L.src.1 → e.2.hangsUp L.src.2 = false) ∧
      (e.1 = L.dst.1 → e.2.hangsUp L.dst.2 = false ∧ keeps e.2 = true)
  | Event.own _ => True

instance (may : List UInt8 → Prop) [DecidablePred may] (keeps : Net.Event → Bool)
    (s : Posting ι P Out A X) : (e : Event ι E) → Decidable (LeavesAlone L may keeps s e)
  | Event.proceed => inferInstanceAs (Decidable (s.RoomToSend L))
  | Event.net _ => inferInstanceAs (Decidable (_ ∧ (_ → _ = _) ∧ (_ → _ = _ ∧ _ = _)))
  | Event.own _ => isTrue trivial

end Step

variable {proto : Protocol P Out} {fuel : ℕ} {L : Link ι} {tx : ℕ}
  {own : Posting ι P Out A X → E → Outcome (Posting ι P Out A X)} {may : List UInt8 → Prop}
  {s u : Posting ι P Out A X} {e : Event ι E}

/-! ## What one event does -/

/-- Everything a step can do, with what it finds. -/
lemma step_cases (hs : s.step proto fuel L own e = Outcome.ret u) :
    (∃ r, e = Event.proceed ∧ s.thread = Thread.busy (Interact.ret r) ∧
      u = { s with thread := if r.2 then Thread.idle r.1 else Thread.ended r.1 }) ∨
    (∃ msg k net, e = Event.proceed ∧ s.thread = Thread.busy (Interact.ask msg k) ∧
      s.net.step proto fuel L (L.src.1, Net.Event.send msg) = Outcome.ret net ∧
      u = { s with
        thread := Thread.busy (k (Except.ok ()))
        net := net
        sent := s.sent ++ [msg] }) ∨
    (∃ msg k, e = Event.proceed ∧ s.thread = Thread.busy (Interact.ask msg k) ∧ ¬ s.HasRoom L ∧
      u = { s with thread := Thread.busy (k (Except.error msg)) }) ∨
    (∃ e' net, e = Event.net e' ∧ s.net.step proto fuel L e' = Outcome.ret net ∧
      u = { s with net := net }) ∨
    (∃ o, e = Event.own o ∧ own s o = Outcome.ret u) := by
  cases e with
  | proceed =>
      cases hth : s.thread with
      | busy prog =>
          cases prog with
          | ret r =>
              simp only [step, hth, Outcome.pure_eq, Outcome.ret.injEq] at hs
              exact Or.inl ⟨r, rfl, rfl, hs.symm⟩
          | panic msg => simp [step, hth] at hs
          | ask msg k =>
              simp only [step, hth] at hs
              split at hs
              · obtain ⟨net, hnet, hs⟩ := Outcome.bind_eq_ret.mp hs
                exact Or.inr (Or.inl ⟨msg, k, net, rfl, rfl, hnet, (Outcome.ret.inj hs).symm⟩)
              · rename_i hfull
                exact Or.inr (Or.inr (Or.inl ⟨msg, k, rfl, rfl, hfull, (Outcome.ret.inj hs).symm⟩))
      | _ => simp [step, hth] at hs
  | net e' =>
      obtain ⟨net, hnet, hs⟩ := Outcome.bind_eq_ret.mp hs
      exact Or.inr (Or.inr (Or.inr (Or.inl ⟨e', net, rfl, hnet, (Outcome.ret.inj hs).symm⟩)))
  | own o => exact Or.inr (Or.inr (Or.inr (Or.inr ⟨o, rfl, hs⟩)))

/-- Everything an undisturbed step can do: no message is handed back. -/
lemma undisturbed_cases (hok : Undisturbed L tx may s e)
    (hs : s.step proto fuel L own e = Outcome.ret u) :
    (∃ r, e = Event.proceed ∧ s.thread = Thread.busy (Interact.ret r) ∧
      u = { s with thread := if r.2 then Thread.idle r.1 else Thread.ended r.1 }) ∨
    (∃ msg k net, e = Event.proceed ∧ s.thread = Thread.busy (Interact.ask msg k) ∧
      s.net.step proto fuel L (L.src.1, Net.Event.send msg) = Outcome.ret net ∧
      u = { s with
        thread := Thread.busy (k (Except.ok ()))
        net := net
        sent := s.sent ++ [msg] }) ∨
    (∃ e' net, e = Event.net e' ∧ Open L s.net e' ∧ may (postAt L e') ∧
      (s.net.nets L.dst.1).Sole tx L.dst.2 ∧ s.net.step proto fuel L e' = Outcome.ret net ∧
      u = { s with net := net }) ∨
    (∃ o, e = Event.own o ∧ own s o = Outcome.ret u) := by
  rcases step_cases hs with hret | hsent | ⟨msg, k, rfl, hth, hfull, -⟩ | ⟨e', net, rfl, hnet, rfl⟩ |
    hown
  · exact Or.inl hret
  · exact Or.inr (Or.inl hsent)
  · refine absurd (hok ?_) hfull
    rw [hth]
    rfl
  · exact Or.inr (Or.inr (Or.inl ⟨e', net, rfl, hok.1, hok.2.1, hok.2.2, hnet, rfl⟩))
  · exact Or.inr (Or.inr (Or.inr hown))

/-! ## The invariant -/

omit [DecidableEq ι] in
lemma nets_snoc (he : e.net? = none) (es : List (Event ι E)) :
    (es ++ [e]).filterMap Event.net? = es.filterMap Event.net? := by
  simp [he]

section Invariant

variable (proto : Protocol P Out) (fuel : ℕ) (L : Link ι) (tx : ℕ) (nets : ι → Net P Out)

/-- The invariant: the engines have gone through `ns`, and what they read is what the events of the
run had them read. -/
structure Inv (es : List (Event ι E)) (s : Posting ι P Out A X) (ns : List (ι × Net.Event)) :
    Prop where
  reached : Reach (Network.step proto fuel L) (Open L) (Network.start nets) ns s.net
  reads : readsOf L ns = readsOf L (es.filterMap Event.net?)
  tokened : (s.net.nets L.dst.1).Tokened tx L.dst.2
  within : s.taken ≤ (s.arrived L tx).length

end Invariant

variable {nets : ι → Net P Out} {es : List (Event ι E)} {ns : List (ι × Net.Event)}

lemma inv_start (hquiet : ∀ m ∈ (nets L.dst.1).sent, m.1 ≠ tx) (thread : Thread StreamBuf A)
    (rest : X) :
    Inv proto fuel L tx nets ([] : List (Event ι E)) ⟨thread, Network.start nets, 0, [], rest⟩
      [] := by
  refine ⟨Reach.nil, rfl, ?_, Nat.zero_le _⟩
  intro m hm htx
  exact absurd htx (hquiet m hm)

/-- The engines stay as they are, and something may be taken off the channel. -/
lemma Inv.stay (h : Inv proto fuel L tx nets es s ns) (he : e.net? = none) (hnet : u.net = s.net)
    (htaken : u.taken ≤ (s.arrived L tx).length) : Inv proto fuel L tx nets (es ++ [e]) u ns := by
  refine ⟨?_, ?_, ?_, ?_⟩
  · rw [hnet]
    exact h.reached
  · rw [nets_snoc he]
    exact h.reads
  · rw [hnet]
    exact h.tokened
  · rw [arrived, hnet]
    exact htaken

/-- An engine takes an event. -/
lemma Inv.moved (h : Inv proto fuel L tx nets es s ns) {e' : ι × Net.Event}
    (hs : s.net.step proto fuel L e' = Outcome.ret u.net) (htaken : u.taken = s.taken)
    (hopen : Open L s.net e') (htok : (u.net.nets L.dst.1).Tokened tx L.dst.2)
    (hreads : readsOf L [e'] = readsOf L (e.net?.toList)) :
    Inv proto fuel L tx nets (es ++ [e]) u (ns ++ [e']) := by
  refine ⟨Reach.snoc h.reached hopen hs, ?_, htok, ?_⟩
  · have hlast : [e].filterMap Event.net? = e.net?.toList := by cases he : e.net? <;> simp [he]
    rw [List.filterMap_append, hlast, readsOf, readsOf, List.filterMap_append,
      List.filterMap_append]
    exact congrArg₂ (· ++ ·) h.reads hreads
  · have hpre : s.arrived L tx <+: u.arrived L tx := channel_prefix tx hs L.dst.1
    rw [htaken]
    exact Nat.le_trans h.within hpre.length_le

/-- The thread sends a message. -/
lemma Inv.sent (h : Inv proto fuel L tx nets es s ns) {msg : StreamBuf}
    (hs : s.net.step proto fuel L (L.src.1, Net.Event.send msg) = Outcome.ret u.net)
    (htaken : u.taken = s.taken) :
    Inv proto fuel L tx nets (es ++ [Event.proceed]) u (ns ++ [(L.src.1, Net.Event.send msg)]) := by
  refine h.moved hs htaken ⟨fun _ => rfl, fun _ => rfl⟩ (tokened_send h.tokened hs) ?_
  simp [readsOf, readAt, Net.Event.read?, Event.net?]

/-- What has been taken stays what it was while an engine moves. -/
lemma Inv.received_eq (h : Inv proto fuel L tx nets es s ns) {e' : ι × Net.Event}
    (hs : s.net.step proto fuel L e' = Outcome.ret u.net) (htaken : u.taken = s.taken) :
    u.received L tx = s.received L tx := by
  obtain ⟨more, hmore⟩ : s.arrived L tx <+: u.arrived L tx := channel_prefix tx hs L.dst.1
  rw [received, received, htaken, ← hmore, List.take_append_of_le_length h.within]

/-! ## When nobody else sends on the channel -/

/-- What a step does to the receiving engine: nothing, or an event that it may get. -/
lemma step_net {keeps : Net.Event → Bool}
    (hown : ∀ s o u, own s o = Outcome.ret u → u.net = s.net)
    (hsend : ∀ msg, keeps (Net.Event.send msg) = true) (halone : LeavesAlone L may keeps s e)
    (hs : s.step proto fuel L own e = Outcome.ret u) :
    u.net.nets L.dst.1 = s.net.nets L.dst.1 ∨ ∃ e', keeps e' = true ∧
      (s.net.nets L.dst.1).step proto fuel e' = Outcome.ret (u.net.nets L.dst.1) := by
  rcases step_cases hs with ⟨r, rfl, -, rfl⟩ | ⟨msg, k, net, rfl, -, hnet, rfl⟩ |
    ⟨msg, k, rfl, -, -, rfl⟩ | ⟨e', net, rfl, hnet, rfl⟩ | ⟨o, rfl, hs⟩
  · exact Or.inl rfl
  · rcases step_at hnet L.dst.1 with hsame | ⟨-, hstep⟩
    · exact Or.inl hsame
    · exact Or.inr ⟨_, hsend msg, hstep⟩
  · exact Or.inl rfl
  · rcases step_at hnet L.dst.1 with hsame | ⟨hdst, hstep⟩
    · exact Or.inl hsame
    · exact Or.inr ⟨e'.2, (halone.2.2 hdst.symm).2, hstep⟩
  · exact Or.inl (by rw [hown s o u hs])

/-- **Left alone is undisturbed.**  Let the receiving engine have a property that makes the channel
the connection's own and that it keeps in every event it may get.  Then a run that leaves the
connection alone is undisturbed. -/
lemma undisturbed_of {K : Net P Out → Prop} {keeps : Net.Event → Bool} {s₀ : Posting ι P Out A X}
    (hown : ∀ s o u, own s o = Outcome.ret u → u.net = s.net)
    (hsend : ∀ msg, keeps (Net.Event.send msg) = true) (hsole : ∀ r, K r → r.Sole tx L.dst.2)
    (hkeeps : ∀ r e v, K r → keeps e = true → r.step proto fuel e = Outcome.ret v → K v)
    (h₀ : K (s₀.net.nets L.dst.1))
    (h : Reach (step proto fuel L own) (LeavesAlone L may keeps) s₀ es s) :
    Reach (step proto fuel L own) (Undisturbed L tx may) s₀ es s ∧ K (s.net.nets L.dst.1) := by
  induction h with
  | nil => exact ⟨Reach.nil, h₀⟩
  | @snoc es t u e _ halone hs ih =>
      obtain ⟨hrun, ht⟩ := ih
      refine ⟨Reach.snoc hrun ?_ hs, ?_⟩
      · cases e with
        | net e' =>
            obtain ⟨hpost, hsrc, hdst⟩ := halone
            exact ⟨⟨hsrc, fun h => (hdst h).1⟩, hpost, hsole _ ht⟩
        | proceed => exact halone
        | own o => trivial
      · rcases step_net hown hsend halone hs with hsame | ⟨e', he', hstep⟩
        · rw [hsame]
          exact ht
        · exact hkeeps _ e' _ ht he' hstep

/-- The smallest queue: it holds one message. -/
def oneMessage : NetEngineConfig := { NetEngineConfig.defaults with queueSize := 1 }

end Posting

end Rx
