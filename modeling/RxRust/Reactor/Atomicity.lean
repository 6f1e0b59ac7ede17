import RxRust.Reactor.Engine

/-!
# Requests that fail

`connect` and `listen` take a slot of a slab before their last steps, and give it back on no path.
So a request that fails has left the engine as it was exactly if it failed before the slot was
taken.

* `Request`, `Registry` — the two requests with the outcomes of their steps, and an engine with the
  tokens that are registered with its event loop.
* `Registry.Kept` — the slabs and the registered tokens are as before.
* `Request.Clean` — no step after the insertion into the slab fails.
* **`request_kept_iff`** — a request leaves the engine as it was, if it fails, exactly when it is
  clean; and so do any number of them.
-/

namespace Rx

open Core

/-- A call of `connect` or `listen`, after the name has been resolved, with the outcomes of its
steps. -/
inductive Request where
  | connect (hostname : String) (port : ℕ) (socket : Except String Unit) (slot : Option Token)
      (register connected : Except String Unit)
  | listen (addr : String) (port : ℕ) (socket bind listened : Except String Unit)
      (slot : Option Token) (register : Except String Unit)

namespace Request

/-- The token that is registered with the event loop. -/
def registers : Request → Option Token
  | connect _ _ (Except.ok ()) slot (Except.ok ()) _ => slot
  | listen _ _ (Except.ok ()) (Except.ok ()) (Except.ok ()) slot (Except.ok ()) => slot
  | _ => none

/-- The request does not get as far as a slot, or no step after that fails. -/
def Clean : Request → Prop
  | connect _ _ socket slot register connected =>
      socket ≠ Except.ok () ∨ slot = none ∨ (register = Except.ok () ∧ connected = Except.ok ())
  | listen _ _ socket bind listened slot register =>
      socket ≠ Except.ok () ∨ bind ≠ Except.ok () ∨ listened ≠ Except.ok () ∨ slot = none ∨
        register = Except.ok ()

end Request

variable {P Out : Type}

/-- An engine and the tokens that are registered with its event loop. -/
structure Registry (P Out : Type) where
  net : Net P Out
  registered : Token → Bool

namespace Registry

/-- The call on the engine; what a successful one returns is left out. -/
def call (proto : Protocol P Out) (s : Net P Out) :
    Request → Outcome (Net P Out × Except String Unit)
  | Request.connect hostname port socket slot register connected => do
      let (net, r) ← s.connect proto hostname port socket slot register connected
      pure (net, r.map fun _ => ())
  | Request.listen addr port socket bind listened slot register => do
      let (net, r) ← s.listen addr port socket bind listened slot register
      pure (net, r.map fun _ => ())

/-- One request. -/
def request (proto : Protocol P Out) (self : Registry P Out) (q : Request) :
    Outcome (Registry P Out × Except String Unit) := do
  let (net, r) ← call proto self.net q
  match q.registers with
  | some t => pure (⟨net, Function.update self.registered t true⟩, r)
  | none => pure (⟨net, self.registered⟩, r)

/-- One request of which the result is not looked at. -/
def step (proto : Protocol P Out) (self : Registry P Out) (q : Request) :
    Outcome (Registry P Out) := Prod.fst <$> self.request proto q

/-- The contents of the slabs and the registered tokens are as before. -/
structure Kept (s u : Registry P Out) : Prop where
  conns : u.net.conns = s.net.conns
  listeners : u.net.listeners = s.net.listeners
  registered : u.registered = s.registered

/-- The request fails. -/
def Fails (proto : Protocol P Out) (s : Registry P Out) (q : Request) : Prop :=
  ∃ u e, s.request proto q = Outcome.ret (u, Except.error e)

variable {proto : Protocol P Out}

/-- What a call of `connect` does: it fails before there is a slot, or takes one. -/
lemma call_connect {s u : Net P Out} {hostname : String} {port : ℕ} {socket : Except String Unit}
    {slot : Option Token} {register connected : Except String Unit} {r : Except String Unit}
    (h : call proto s (Request.connect hostname port socket slot register connected)
      = Outcome.ret (u, r)) :
    ((socket ≠ Except.ok () ∨ slot = none) ∧ u.conns = s.conns ∧ u.listeners = s.listeners) ∨
      ∃ t, socket = Except.ok () ∧ slot = some t ∧ u.conns.get t ≠ s.conns.get t ∧
        (r = Except.ok () ↔ register = Except.ok () ∧ connected = Except.ok ()) := by
  obtain ⟨⟨v, r'⟩, hv, h⟩ := Outcome.bind_eq_ret.mp h
  obtain ⟨rfl, rfl⟩ := Prod.mk.inj (Outcome.ret.inj h)
  cases socket with
  | error e =>
      obtain ⟨rfl, -⟩ := Prod.mk.inj (Outcome.ret.inj hv)
      exact Or.inl ⟨Or.inl (by simp), rfl, rfl⟩
  | ok v =>
      obtain ⟨q, hins, hv⟩ := Outcome.bind_eq_ret.mp hv
      rcases Slab.insert_result hins with ⟨rfl, rfl⟩ | ⟨t, rfl, hfree, hget, rfl⟩
      · obtain ⟨rfl, -⟩ := Prod.mk.inj (Outcome.ret.inj hv)
        exact Or.inl ⟨Or.inr rfl, rfl, rfl⟩
      · refine Or.inr ⟨t, rfl, rfl, ?_⟩
        cases register with
        | error e =>
            obtain ⟨rfl, rfl⟩ := Prod.mk.inj (Outcome.ret.inj hv)
            exact ⟨by simp [Net.opened, Net.pass, hget, hfree], by simp [Except.map]⟩
        | ok v =>
            cases connected with
            | error e =>
                obtain ⟨rfl, rfl⟩ := Prod.mk.inj (Outcome.ret.inj hv)
                exact ⟨by simp [Net.opened, Net.pass, hget, hfree], by simp [Except.map]⟩
            | ok v =>
                obtain ⟨rfl, rfl⟩ := Prod.mk.inj (Outcome.ret.inj hv)
                exact ⟨by simp [Net.opened, Net.pass, hget, hfree], by simp [Except.map]⟩

/-- What a call of `listen` does. -/
lemma call_listen {s u : Net P Out} {addr : String} {port : ℕ}
    {socket bind listened : Except String Unit} {slot : Option Token}
    {register : Except String Unit} {r : Except String Unit}
    (h : call proto s (Request.listen addr port socket bind listened slot register)
      = Outcome.ret (u, r)) :
    ((socket ≠ Except.ok () ∨ bind ≠ Except.ok () ∨ listened ≠ Except.ok () ∨ slot = none) ∧
        u.conns = s.conns ∧ u.listeners = s.listeners) ∨
      ∃ t, socket = Except.ok () ∧ bind = Except.ok () ∧ listened = Except.ok () ∧ slot = some t ∧
        u.listeners.get t ≠ s.listeners.get t ∧ (r = Except.ok () ↔ register = Except.ok ()) := by
  obtain ⟨⟨v, r'⟩, hv, h⟩ := Outcome.bind_eq_ret.mp h
  obtain ⟨rfl, rfl⟩ := Prod.mk.inj (Outcome.ret.inj h)
  cases socket with
  | error e =>
      obtain ⟨rfl, -⟩ := Prod.mk.inj (Outcome.ret.inj hv)
      exact Or.inl ⟨Or.inl (by simp), rfl, rfl⟩
  | ok _ =>
      cases bind with
      | error e =>
          obtain ⟨rfl, -⟩ := Prod.mk.inj (Outcome.ret.inj hv)
          exact Or.inl ⟨Or.inr (Or.inl (by simp)), rfl, rfl⟩
      | ok _ =>
          cases listened with
          | error e =>
              obtain ⟨rfl, -⟩ := Prod.mk.inj (Outcome.ret.inj hv)
              exact Or.inl ⟨Or.inr (Or.inr (Or.inl (by simp))), rfl, rfl⟩
          | ok _ =>
              obtain ⟨q, hins, hv⟩ := Outcome.bind_eq_ret.mp hv
              rcases Slab.insert_result hins with ⟨rfl, rfl⟩ | ⟨t, rfl, hfree, hget, rfl⟩
              · obtain ⟨rfl, -⟩ := Prod.mk.inj (Outcome.ret.inj hv)
                exact Or.inl ⟨Or.inr (Or.inr (Or.inr rfl)), rfl, rfl⟩
              · refine Or.inr ⟨t, rfl, rfl, rfl, rfl, ?_⟩
                cases register with
                | error e =>
                    obtain ⟨rfl, rfl⟩ := Prod.mk.inj (Outcome.ret.inj hv)
                    exact ⟨by simp [Net.pass, hget, hfree], by simp [Except.map]⟩
                | ok _ =>
                    obtain ⟨rfl, rfl⟩ := Prod.mk.inj (Outcome.ret.inj hv)
                    exact ⟨by simp [Net.pass, hget, hfree], by simp [Except.map]⟩

/-- What a request does: it fails before there is a slot and registers nothing, or it takes a slot,
and then succeeds exactly if no later step fails. -/
lemma call_cases {s u : Net P Out} {q : Request} {r : Except String Unit}
    (h : call proto s q = Outcome.ret (u, r)) :
    (q.Clean ∧ q.registers = none ∧ u.conns = s.conns ∧ u.listeners = s.listeners) ∨
      (u.conns ≠ s.conns ∨ u.listeners ≠ s.listeners) ∧ (r = Except.ok () ↔ q.Clean) := by
  cases q with
  | connect hostname port socket slot register connected =>
      rcases call_connect h with ⟨hearly, hconns, hlisteners⟩ | ⟨t, rfl, rfl, hget, hr⟩
      · refine Or.inl ⟨?_, ?_, hconns, hlisteners⟩
        · exact hearly.imp_right Or.inl
        · rcases hearly with hsock | rfl
          · cases socket with
            | error e => rfl
            | ok _ => exact absurd rfl hsock
          · cases socket <;> cases register <;> rfl
      · refine Or.inr ⟨Or.inl ?_, ?_⟩
        · intro heq
          exact hget (congrArg (fun c => c.get t) heq)
        · simpa [Request.Clean] using hr
  | listen addr port socket bind listened slot register =>
      rcases call_listen h with ⟨hearly, hconns, hlisteners⟩ | ⟨t, rfl, rfl, rfl, rfl, hget, hr⟩
      · refine Or.inl ⟨?_, ?_, hconns, hlisteners⟩
        · exact hearly.imp_right (Or.imp_right (Or.imp_right Or.inl))
        · cases socket with
          | error e => rfl
          | ok _ =>
              cases bind with
              | error e => rfl
              | ok _ =>
                  cases listened with
                  | error e => rfl
                  | ok _ =>
                      obtain rfl : slot = none := by simpa using hearly
                      cases register <;> rfl
      · refine Or.inr ⟨Or.inr ?_, ?_⟩
        · intro heq
          exact hget (congrArg (fun c => c.get t) heq)
        · simpa [Request.Clean] using hr

/-- One request that fails. -/
lemma kept_iff_clean {s u : Registry P Out} {q : Request} {r : Except String Unit}
    (h : s.request proto q = Outcome.ret (u, r)) :
    (∀ e, r = Except.error e → s.Kept u) ↔ q.Clean := by
  obtain ⟨⟨net, r'⟩, hcall, h⟩ := Outcome.bind_eq_ret.mp h
  rcases call_cases hcall with ⟨hclean, hnone, hconns, hlisteners⟩ | ⟨hchanged, hok⟩
  · simp only [hnone] at h
    obtain ⟨rfl, rfl⟩ := Prod.mk.inj (Outcome.ret.inj h)
    exact iff_of_true (fun _ _ => ⟨hconns, hlisteners, rfl⟩) hclean
  · obtain ⟨hnet, rfl⟩ : u.net = net ∧ r' = r := by
      cases hq : q.registers with
      | none =>
          rw [hq] at h
          obtain ⟨rfl, rfl⟩ := Prod.mk.inj (Outcome.ret.inj h)
          exact ⟨rfl, rfl⟩
      | some t =>
          rw [hq] at h
          obtain ⟨rfl, rfl⟩ := Prod.mk.inj (Outcome.ret.inj h)
          exact ⟨rfl, rfl⟩
    rw [← hok]
    cases r' with
    | ok v => simp
    | error e =>
        refine iff_of_false ?_ (by simp)
        intro hkept
        have hk := hkept e rfl
        rcases hchanged with hne | hne
        · exact hne (hnet ▸ hk.conns)
        · exact hne (hnet ▸ hk.listeners)

/-- **Requests that fail.**  For every engine and every combination of outcomes, a request that
fails leaves the slabs and the registered tokens as they were exactly if it got no slot or no step
after the insertion failed; and any number of failed requests that are so leave them as they
were. -/
theorem request_kept_iff :
    (∀ (s : Registry P Out) q u r, s.request proto q = Outcome.ret (u, r) →
      ((∀ e, r = Except.error e → s.Kept u) ↔ q.Clean)) ∧
    ∀ (s : Registry P Out) qs u,
      Reach (step proto) (fun t q => Fails proto t q ∧ q.Clean) s qs u → s.Kept u := by
  refine ⟨fun s q u r h => kept_iff_clean h, ?_⟩
  intro s qs u h
  refine h.invariant (P := fun t => s.Kept t) ⟨rfl, rfl, rfl⟩ ?_
  rintro t q v ht ⟨⟨v', e, hv'⟩, hclean⟩ hv
  obtain ⟨⟨w, r⟩, hw, rfl⟩ := Outcome.map_eq_ret.mp hv
  have hr : r = Except.error e := congrArg Prod.snd (Outcome.ret.inj (hw.symm.trans hv'))
  have hk : t.Kept w := (kept_iff_clean hw).mpr hclean e hr
  exact ⟨hk.conns.trans ht.conns, hk.listeners.trans ht.listeners,
    hk.registered.trans ht.registered⟩

/-- An engine that has just been made. -/
def fresh : Registry Unit AROIobuf := ⟨Net.new NetEngineConfig.defaults, fun _ => false⟩

/-- An address that is taken, twice, and no socket to be had. -/
theorem request_kept_taken_address :
    let taken := Request.listen "localhost" 80 (Except.ok ()) (Except.error "EADDRINUSE")
      (Except.ok ()) none (Except.ok ())
    let noSocket := Request.connect "localhost" 80 (Except.error "EMFILE") none (Except.ok ())
      (Except.ok ())
    ∃ u, Reach (step (BufProtocol 8)) (fun t q => Fails (BufProtocol 8) t q ∧ q.Clean) fresh
        [taken, taken, noSocket] u ∧ fresh.Kept u := by
  intro taken noSocket
  have htaken : taken.Clean := Or.inr (Or.inl (by simp))
  have hsocket : noSocket.Clean := Or.inl (by simp)
  have hrun : Reach (step (BufProtocol 8)) (fun t q => Fails (BufProtocol 8) t q ∧ q.Clean) fresh
      ([] ++ [taken] ++ [taken] ++ [noSocket]) fresh := by
    refine Reach.snoc (Reach.snoc (Reach.snoc Reach.nil (u := fresh) ?_ rfl) (u := fresh) ?_ rfl) ?_ rfl
    · exact ⟨⟨fresh, _, rfl⟩, htaken⟩
    · exact ⟨⟨fresh, _, rfl⟩, htaken⟩
    · exact ⟨⟨fresh, _, rfl⟩, hsocket⟩
  exact ⟨fresh, hrun, request_kept_iff.2 fresh _ fresh hrun⟩

/-- A refused connection keeps its slot. -/
theorem refused_connect_keeps_slot :
    ¬ ∀ (s : Registry Unit AROIobuf) q u e,
      s.request (BufProtocol 8) q = Outcome.ret (u, Except.error e) → s.Kept u := by
  intro h
  have hkept := h fresh (Request.connect "localhost" 80 (Except.ok ()) (some 256) (Except.ok ())
    (Except.error "ECONNREFUSED")) _ _ rfl
  have hget := congrArg (fun c => (c.get 256).isSome) hkept.conns
  exact Bool.noConfusion hget

end Registry

end Rx
