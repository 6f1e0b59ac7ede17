import RxRust.Reactor.Views

/-!
# Frames share memory with the read buffer

A frame goes to another thread as a view of the buffer that is still being read into.  No line
checks that this is safe; it rests on where the marker is.  Frames lie below the marker, the marker
never passes the end of what is filled, and the next read writes from there on.

* `Access` — what happens to the memory of the read buffers: bytes are written, a frame is sent.
* `Access.Spares` — an access that comes after a frame stays behind it.
* `Storage` — the invariant of the buffers, kept by a read (`fill`), by the frames of a read
  (`send`) and by a roll-over (`fresh`).
* `Tape` — an engine with one connection, the buffers this has given up and the accesses so far.
* `Tape.sound` — the invariant holds along every run of the event loop's calls.  It takes a
  threshold that is not zero as a 32-bit number: the room below which a buffer is replaced is
  `min_read_buf_sz as u32`, and with a multiple of `2 ^ 32` a buffer is filled up and never replaced
  (`Tape.left_full`).
-/

namespace Rx

open Core

/-! ## Accesses -/

/-- Bytes are written to a buffer, or a view of it is sent; buffers are numbered from zero. -/
inductive Access where
  | write (buf lo len : ℕ)
  | frame (buf : ℕ) (view : AROIobuf)

namespace Access

/-- The bytes are among those the buffer holds, and a frame shows them. -/
def Inside (bufs : List AppendBuf) : Access → Prop
  | write k lo len => ∃ b, bufs[k]? = some b ∧ lo + len ≤ b.bytes.length
  | frame k v => ∃ b, bufs[k]? = some b ∧ v.Of b.bytes

/-- If the first access is a frame, the second stays behind it. -/
def Spares : Access → Access → Prop
  | write _ _ _, _ => True
  | frame k v, write j lo _ => j = k → v.lo + v.len ≤ lo
  | frame k v, frame j u => j = k → v.lo + v.len ≤ u.lo

/-- The bytes that leave the buffer `k` in a frame. -/
def eaten (k : ℕ) : Access → ℕ
  | write _ _ _ => 0
  | frame j v => if j = k then v.len else 0

def sent : Access → Option AROIobuf
  | write _ _ _ => none
  | frame _ v => some v

/-- An access inside is to one of the buffers. -/
lemma Inside.frame_lt {bufs : List AppendBuf} {k : ℕ} {v : AROIobuf}
    (h : (frame k v).Inside bufs) : k < bufs.length := by
  obtain ⟨b, hb, -⟩ := h
  exact (List.getElem?_eq_some_iff.mp hb).1

/-- It stays inside when every buffer keeps what it holds and only gets more. -/
lemma Inside.mono {bufs bufs' : List AppendBuf} {a : Access} (h : a.Inside bufs)
    (hmono : ∀ (k : ℕ) (b : AppendBuf), bufs[k]? = some b →
      ∃ b' : AppendBuf, bufs'[k]? = some b' ∧ b.bytes <+: b'.bytes) :
    a.Inside bufs' := by
  cases a with
  | write k lo len =>
      obtain ⟨b, hb, hle⟩ := h
      obtain ⟨b', hb', hp⟩ := hmono k b hb
      exact ⟨b', hb', Nat.le_trans hle hp.length_le⟩
  | frame k v =>
      obtain ⟨b, hb, hle, hw⟩ := h
      obtain ⟨b', hb', more, hmore⟩ := hmono k b hb
      refine ⟨b', hb', ?_, ?_⟩
      · rw [← hmore, List.length_append]
        omega
      · rw [hw, ← hmore, List.drop_append_of_le_length (by omega), List.take_append_of_le_length]
        rw [List.length_drop]
        omega

end Access

/-- The bytes that have left the buffer `k`. -/
def eatenIn (k : ℕ) (log : List Access) : ℕ := (log.map (Access.eaten k)).sum

@[simp] lemma eatenIn_append (k : ℕ) (log log' : List Access) :
    eatenIn k (log ++ log') = eatenIn k log + eatenIn k log' := by
  simp [eatenIn]

@[simp] lemma eatenIn_write (k j lo len : ℕ) : eatenIn k [Access.write j lo len] = 0 := rfl

lemma eatenIn_frames (k : ℕ) (vs : List AROIobuf) :
    eatenIn k (vs.map (Access.frame k)) = (vs.map AROIobuf.len).sum := by
  simp [eatenIn, Access.eaten, Function.comp_def]

lemma eatenIn_frames_ne {k j : ℕ} (h : j ≠ k) (vs : List AROIobuf) :
    eatenIn k (vs.map (Access.frame j)) = 0 := by
  simp [eatenIn, Access.eaten, Function.comp_def, h]

/-- Nothing has left a buffer that is not there. -/
lemma eatenIn_out {bufs : List AppendBuf} {log : List Access} {k : ℕ}
    (h : ∀ a ∈ log, a.Inside bufs) (hk : bufs.length ≤ k) : eatenIn k log = 0 := by
  rw [eatenIn, List.sum_eq_zero_iff_forall_eq_nat]
  intro n hn
  obtain ⟨a, ha, rfl⟩ := List.mem_map.mp hn
  cases a with
  | write j lo len => rfl
  | frame j v =>
      have hj := Access.Inside.frame_lt (h _ ha)
      have hne : j ≠ k := by omega
      simp [Access.eaten, hne]

/-! ## The buffers of a connection -/

/-- The buffers that were given up and the one in use, with its marker `m`, and the accesses to them
in the order in which they were made. -/
structure Storage (past : List AppendBuf) (b : AppendBuf) (m : ℕ) (log : List Access) : Prop where
  marker : m ≤ b.bytes.length
  inside : ∀ a ∈ log, a.Inside (past ++ [b])
  spares : log.Pairwise Access.Spares
  below : ∀ v, Access.frame past.length v ∈ log → v.lo + v.len ≤ m
  /-- The marker has not wrapped: it is the sum of the frames. -/
  eaten : m = eatenIn past.length log
  eaten_le : ∀ (k : ℕ) (b' : AppendBuf), (past ++ [b])[k]? = some b' →
    eatenIn k log ≤ b'.bytes.length

namespace Storage

variable {past : List AppendBuf} {b : AppendBuf} {m : ℕ} {log : List Access}

/-- The buffer in use is the last. -/
lemma getElem_last (past : List AppendBuf) (b : AppendBuf) :
    (past ++ [b])[past.length]? = some b := by
  simp

/-- Changing the buffer in use leaves the others alone. -/
lemma getElem_cases {b₁ b₂ : AppendBuf} {k : ℕ} (h : (past ++ [b₁])[k]? = some b₂) :
    (k = past.length ∧ b₁ = b₂) ∨ (k ≠ past.length ∧ ∀ b', (past ++ [b'])[k]? = some b₂) := by
  by_cases hk : k = past.length
  · subst hk
    rw [getElem_last] at h
    exact Or.inl ⟨rfl, Option.some.inj h⟩
  · have hlt : k < (past ++ [b₁]).length := (List.getElem?_eq_some_iff.mp h).1
    rw [List.length_append, List.length_singleton] at hlt
    have hpast : k < past.length := by omega
    refine Or.inr ⟨hk, ?_⟩
    intro b'
    rw [List.getElem?_append_left hpast] at h ⊢
    exact h

/-- A write spares the frames that end before it. -/
lemma spares_write (h : log.Pairwise Access.Spares) {j lo len : ℕ}
    (hbelow : ∀ v, Access.frame j v ∈ log → v.lo + v.len ≤ lo) :
    (log ++ [Access.write j lo len]).Pairwise Access.Spares := by
  rw [List.pairwise_append]
  refine ⟨h, List.pairwise_singleton _ _, ?_⟩
  intro a ha a' ha'
  obtain rfl := List.mem_singleton.mp ha'
  cases a with
  | write k lo' len' => trivial
  | frame k v =>
      rintro rfl
      exact hbelow v ha

/-- **A read** writes behind everything that was sent. -/
lemma fill (h : Storage past b m log) {data : List UInt8} (hfits : data.length ≤ b.len) :
    Storage past (b.fill data) m
      (log ++ [Access.write past.length b.bytes.length data.length]) := by
  have hbytes := AppendBuf.fill_bytes hfits
  have hlen : (b.fill data).bytes.length = b.bytes.length + data.length := by
    rw [hbytes, List.length_append]
  have hmarker := h.marker
  refine ⟨by omega, ?_, ?_, ?_, ?_, ?_⟩
  · intro a ha
    rcases List.mem_append.mp ha with ha | ha
    · refine (h.inside a ha).mono ?_
      intro k b' hb'
      rcases getElem_cases hb' with ⟨rfl, rfl⟩ | ⟨-, hsame⟩
      · exact ⟨_, getElem_last _ _, by rw [hbytes]; exact List.prefix_append _ _⟩
      · exact ⟨b', hsame _, List.prefix_refl _⟩
    · obtain rfl := List.mem_singleton.mp ha
      exact ⟨_, getElem_last _ _, Nat.le_of_eq hlen.symm⟩
  · exact spares_write h.spares fun v hv => Nat.le_trans (h.below v hv) hmarker
  · intro v hv
    refine h.below v ?_
    simpa using hv
  · rw [eatenIn_append, eatenIn_write]
    exact h.eaten
  · intro k b' hb'
    rw [eatenIn_append, eatenIn_write, Nat.add_zero]
    rcases getElem_cases hb' with ⟨rfl, rfl⟩ | ⟨-, hsame⟩
    · exact Nat.le_trans (h.eaten_le _ _ (getElem_last _ _)) (by omega)
    · exact h.eaten_le k b' (hsame b)

/-- **The frames of a read** lie side by side from the marker on. -/
lemma send (h : Storage past b m log) {vs : List AROIobuf} {m' : ℕ} (htiles : Tiles m vs m')
    (hshown : ∀ v ∈ vs, v.Of b.bytes) (hle : m' ≤ b.bytes.length) :
    Storage past b m' (log ++ vs.map (Access.frame past.length)) := by
  have heaten : m' = eatenIn past.length (log ++ vs.map (Access.frame past.length)) := by
    rw [eatenIn_append, eatenIn_frames, ← h.eaten]
    exact htiles.sum.symm
  refine ⟨hle, ?_, ?_, ?_, heaten, ?_⟩
  · intro a ha
    rcases List.mem_append.mp ha with ha | ha
    · exact h.inside a ha
    · obtain ⟨v, hv, rfl⟩ := List.mem_map.mp ha
      exact ⟨b, getElem_last _ _, hshown v hv⟩
  · rw [List.pairwise_append]
    refine ⟨h.spares, ?_, ?_⟩
    · rw [List.pairwise_map]
      exact htiles.pairwise.imp fun hvu _ => hvu
    · intro a ha a' ha'
      obtain ⟨u, hu, rfl⟩ := List.mem_map.mp ha'
      cases a with
      | write j lo len => trivial
      | frame j v =>
          rintro rfl
          exact Nat.le_trans (h.below v ha) (htiles.mem hu).1
  · intro v hv
    rcases List.mem_append.mp hv with hv | hv
    · exact Nat.le_trans (h.below v hv) htiles.le
    · obtain ⟨u, hu, hvu⟩ := List.mem_map.mp hv
      obtain rfl : u = v := by simpa using hvu
      exact (htiles.mem hu).2
  · intro k b' hb'
    rcases getElem_cases hb' with ⟨rfl, rfl⟩ | ⟨hk, -⟩
    · rw [← heaten]
      exact hle
    · rw [eatenIn_append, eatenIn_frames_ne (Ne.symm hk), Nat.add_zero]
      exact h.eaten_le k b' hb'

/-- **A roll-over** writes to a buffer of which nothing has been sent. -/
lemma fresh (h : Storage past b m log) (b' : AppendBuf) :
    Storage (past ++ [b]) b' 0 (log ++ [Access.write (past.length + 1) 0 b'.bytes.length]) := by
  have hlen : (past ++ [b]).length = past.length + 1 := by simp
  have hlast : (past ++ [b] ++ [b'])[past.length + 1]? = some b' := by
    rw [← hlen]
    exact getElem_last _ _
  have hnone : ∀ v, Access.frame (past.length + 1) v ∉ log := by
    intro v hv
    have := (h.inside _ hv).frame_lt
    omega
  have heaten : eatenIn (past.length + 1) log = 0 := eatenIn_out h.inside (Nat.le_of_eq hlen)
  refine ⟨Nat.zero_le _, ?_, ?_, ?_, ?_, ?_⟩
  · intro a ha
    rcases List.mem_append.mp ha with ha | ha
    · refine (h.inside a ha).mono ?_
      intro k b₁ hb₁
      have hlt := (List.getElem?_eq_some_iff.mp hb₁).1
      exact ⟨b₁, by rw [List.getElem?_append_left hlt]; exact hb₁, List.prefix_refl _⟩
    · obtain rfl := List.mem_singleton.mp ha
      exact ⟨b', hlast, by omega⟩
  · exact spares_write h.spares fun v hv => absurd hv (hnone v)
  · intro v hv
    rw [hlen] at hv
    exact absurd (by simpa using hv) (hnone v)
  · rw [hlen, eatenIn_append, eatenIn_write, heaten]
  · intro k b₁ hb₁
    rw [eatenIn_append, eatenIn_write, Nat.add_zero]
    rcases getElem_cases hb₁ with ⟨rfl, rfl⟩ | ⟨hk, -⟩
    · rw [hlen, heaten]
      exact Nat.zero_le _
    · have hlt : k < (past ++ [b]).length := by
        have := (List.getElem?_eq_some_iff.mp hb₁).1
        rw [List.length_append, List.length_singleton] at this
        omega
      rw [List.getElem?_append_left hlt] at hb₁
      exact h.eaten_le k b₁ hb₁

end Storage

/-! ## The engine with the memory of one connection -/

/-- The answer fits the window of the buffer. -/
def ReadAnswer.Fits (b : AppendBuf) : ReadAnswer → Prop
  | ready data => data.length ≤ b.len
  | wouldBlock => True
  | err _ => True

/-- An engine and one connection, with the buffers this has given up and the accesses so far. -/
structure Tape where
  watch : Watch Unit AROIobuf
  past : List AppendBuf
  log : List Access

namespace Tape

/-- Nothing has been read yet. -/
def start (s : Net Unit AROIobuf) (c : Connection Unit) : Tape := ⟨⟨s, c⟩, [], []⟩

/-- The connection has been read and left as `w` has it: the read wrote at the window, frames were
sent, and if the room was low what was left over went to a new buffer. -/
def noted (t : Token) (p : Tape) (w : Watch Unit AROIobuf) (data : List UInt8) : Tape :=
  let k := p.past.length
  let buf := p.watch.last.buf.fill data
  let sent := (w.net.tagged t).drop (p.watch.net.tagged t).length
  let log := p.log ++ [Access.write k p.watch.last.buf.bytes.length data.length]
    ++ sent.map fun m => Access.frame k m.2.item
  if buf.len < p.watch.net.config.low then
    ⟨w, p.past ++ [buf], log ++ [Access.write (k + 1) 0 w.last.buf.bytes.length]⟩
  else ⟨w, p.past, log⟩

/-- One call of the event loop. -/
def call (size fuel : ℕ) (t : Token) (p : Tape) (e : LoopCall) : Outcome Tape := do
  let w ← p.watch.call (BufProtocol size) fuel t e
  match e.heard t with
  | none => pure { p with watch := w }
  | some data => pure (p.noted t w data)

/-- The connection has not been removed. -/
def Live (t : Token) (p : Tape) (e : LoopCall) : Prop := p.watch.Live t e

/-- What holds of the connection `c` under `t`, of the engine `s`, after some calls. -/
structure Sound (cfg : NetEngineConfig) (t : Token) (s : Net Unit AROIobuf) (c : Connection Unit)
    (p : Tape) : Prop where
  laid : Net.Laid (Net.new cfg) p.watch.net
  held : ∀ k, p.watch.net.conns.get t = some k → p.watch.last = k
  connTx : p.watch.last.connTx = c.connTx
  cap : p.watch.last.buf.cap = cfg.readBufSz
  storage : Storage p.past p.watch.last.buf p.watch.last.marker p.log
  free : 1 ≤ p.watch.last.buf.len
  sent : p.watch.net.tagged t
    = s.tagged t ++ (p.log.filterMap Access.sent).map fun v => (c.connTx, ⟨v, t⟩)

section Run

variable {size fuel : ℕ} {cfg : NetEngineConfig} {t : Token} {s : Net Unit AROIobuf}
  {c : Connection Unit} {p q : Tape}

/-- A call that does not read the connection. -/
lemma Sound.same (h : p.Sound cfg t s c) {w : Watch Unit AROIobuf} {e : LoopCall}
    (hlive : p.Live t e) (he : e.heard t = none)
    (hw : p.watch.call (BufProtocol size) fuel t e = Outcome.ret w) :
    Sound cfg t s c { p with watch := w } := by
  obtain ⟨k, hk⟩ := Option.ne_none_iff_exists'.mp hlive
  have hsame := Watch.call_same h.laid hk (h.held k hk) he hw
  have hlaid := Net.handle_laid h.laid hk (Watch.call_eq_ret hw).1
  refine ⟨hlaid, Watch.held_of_call hw, ?_, ?_, ?_, ?_, ?_⟩
  · exact hsame.connTx.trans h.connTx
  · show w.last.buf.cap = cfg.readBufSz
    rw [hsame.buf]
    exact h.cap
  · show Storage p.past w.last.buf w.last.marker p.log
    rw [hsame.buf, hsame.marker]
    exact h.storage
  · show 1 ≤ w.last.buf.len
    rw [hsame.buf]
    exact h.free
  · exact hsame.tagged.trans h.sent

/-- The frames that are noted are the ones the engine has sent. -/
lemma sent_frames (k tx : ℕ) (msgs : List (ProtoMsg AROIobuf))
    (old : List (ℕ × ProtoMsg AROIobuf)) :
    ((old ++ msgs.map fun m => (tx, m)).drop old.length).map (fun m => Access.frame k m.2.item)
      = (msgs.map ProtoMsg.item).map (Access.frame k) := by
  rw [List.drop_left, List.map_map, List.map_map]
  rfl

lemma filterMap_write (k lo len : ℕ) : [Access.write k lo len].filterMap Access.sent = [] := rfl

lemma filterMap_frame (k : ℕ) (vs : List AROIobuf) :
    (vs.map (Access.frame k)).filterMap Access.sent = vs := by
  rw [List.filterMap_map]
  exact List.filterMap_some

/-- Messages of one connection are known by their items. -/
lemma map_item {tx : ℕ} {msgs : List (ProtoMsg AROIobuf)} (h : ∀ m ∈ msgs, m.tok = t) :
    msgs.map (fun m => (tx, m)) = (msgs.map ProtoMsg.item).map fun v => (tx, ⟨v, t⟩) := by
  rw [List.map_map]
  refine List.map_congr_left ?_
  intro m hm
  show (tx, m) = (tx, ⟨m.item, t⟩)
  rw [← h m hm]

/-- A call that reads the connection. -/
lemma Sound.heard (hsize : size ≤ cfg.readBufSz) (hlow : 1 ≤ cfg.low) (h : p.Sound cfg t s c)
    {w : Watch Unit AROIobuf} {e : LoopCall} {data : List UInt8} (hlive : p.Live t e)
    (he : e.heard t = some data)
    (hw : p.watch.call (BufProtocol size) fuel t e = Outcome.ret w) :
    Sound cfg t s c (p.noted t w data) := by
  obtain ⟨k, hk⟩ := Option.ne_none_iff_exists'.mp hlive
  obtain ⟨hup, answer, rfl⟩ := LoopCall.eq_readable he
  obtain rfl := h.held k hk
  obtain ⟨c', msgs, hread, hbuf, hmarker, htx, htagged⟩ := Watch.call_readable h.laid hk rfl hw
  have hconfig : p.watch.net.config = cfg := h.laid.config
  have hreceived : p.watch.last.received (BufProtocol size) p.watch.net.config t fuel data
      = Outcome.ret (c', msgs) := hread
  rw [hconfig] at hreceived
  obtain ⟨m, hm⟩ := received_heard hsize hreceived
  have hlaid := Net.handle_laid h.laid hk (Watch.call_eq_ret hw).1
  have hheld := Watch.held_of_call hw
  have hstored := (h.storage.fill hm.fits).send hm.tiles hm.shown hm.le
  have hitems := @map_item t c.connTx msgs (Net.readAnswered_tok hread)
  rw [h.connTx] at htx htagged
  have hsent : w.net.tagged t = s.tagged t ++ ((p.log
      ++ [Access.write p.past.length p.watch.last.buf.bytes.length data.length]
      ++ (msgs.map ProtoMsg.item).map (Access.frame p.past.length)).filterMap Access.sent).map
        fun v => (c.connTx, ⟨v, t⟩) := by
    rw [htagged, h.sent, hitems, List.filterMap_append, List.filterMap_append, filterMap_write,
      filterMap_frame, List.append_nil, List.map_append, List.append_assoc]
  simp only [noted, htagged, sent_frames, hconfig]
  by_cases hroll : (p.watch.last.buf.fill data).len < cfg.low
  · obtain ⟨hzero, hcap, hshort⟩ := hm.rolls hroll
    rw [← hmarker] at hzero
    rw [← hbuf] at hcap hshort
    rw [if_pos hroll]
    refine ⟨hlaid, hheld, htx, hcap, ?_, ?_, ?_⟩
    · show Storage _ w.last.buf w.last.marker _
      rw [hzero]
      exact hstored.fresh w.last.buf
    · show 1 ≤ w.last.buf.len
      rw [AppendBuf.len, hcap]
      omega
    · rw [List.filterMap_append, filterMap_write, List.append_nil]
      exact hsent
  · obtain ⟨hm', hfilled⟩ := hm.stays hroll
    rw [← hmarker] at hm'
    rw [← hbuf] at hfilled
    rw [if_neg hroll]
    refine ⟨hlaid, hheld, htx, ?_, ?_, ?_, ?_⟩
    · show w.last.buf.cap = cfg.readBufSz
      rw [hfilled, AppendBuf.fill_cap]
      exact h.cap
    · show Storage _ w.last.buf w.last.marker _
      rw [hm', hfilled]
      exact hstored
    · show 1 ≤ w.last.buf.len
      rw [hfilled]
      omega
    · exact hsent

/-- **One call.** -/
lemma Sound.step (hsize : size ≤ cfg.readBufSz) (hlow : 1 ≤ cfg.low) (h : p.Sound cfg t s c)
    {e : LoopCall} (hlive : p.Live t e) (hq : p.call size fuel t e = Outcome.ret q) :
    q.Sound cfg t s c := by
  obtain ⟨w, hw, hq⟩ := Outcome.bind_eq_ret.mp hq
  cases he : e.heard t with
  | none =>
      rw [he] at hq
      obtain rfl := Outcome.ret.inj hq
      exact h.same hlive he hw
  | some data =>
      rw [he] at hq
      obtain rfl := Outcome.ret.inj hq
      exact h.heard hsize hlow hlive he hw

/-- **The next read comes back**: neither of the two `unwrap`s fails, and the decode loop ends. -/
lemma Sound.returns (hpos : 1 ≤ size) (hfuel : cfg.readBufSz < fuel) (h : p.Sound cfg t s c)
    {k : Connection Unit} (hk : p.watch.net.conns.get t = some k) (hup : Bool)
    (answer : AcceptAnswer) {read : ReadAnswer} (hread : read.Fits p.watch.last.buf) :
    ∃ q, p.call size fuel t (LoopCall.readable t hup answer read) = Outcome.ret q := by
  obtain rfl := h.held k hk
  have hanswered : ∃ r, p.watch.last.readAnswered (BufProtocol size) cfg t fuel read
      = Outcome.ret r := by
    cases read with
    | ready data =>
        have hlen : data.length ≤ p.watch.last.buf.len := hread
        rw [AppendBuf.len, h.cap] at hlen
        have hshows : Shows cfg p.watch.last ⟨p.watch.last.buf.bytes.drop p.watch.last.marker,
            p.watch.last.buf.bytes.length⟩ := ⟨h.cap, h.storage.marker, rfl, rfl⟩
        obtain ⟨c', msgs, hrecv, -⟩ :=
          @received_spec size hpos cfg t fuel _ _ data hshows hlen (by omega)
        exact ⟨(c', msgs), hrecv⟩
    | wouldBlock => exact ⟨_, rfl⟩
    | err e => exact ⟨_, rfl⟩
  obtain ⟨⟨c', msgs⟩, hanswered⟩ := hanswered
  obtain ⟨net, hnet⟩ : ∃ net, p.watch.net.handle (BufProtocol size) fuel
      (LoopCall.readable t hup answer read) = Outcome.ret net := by
    have hl := Net.get_listeners_of_laid h.laid hk
    have hconfig : p.watch.net.config = cfg := h.laid.config
    simp only [Net.handle, Net.readable, hl, hk, hconfig, hanswered]
    exact ⟨_, rfl⟩
  obtain ⟨w, hw⟩ : ∃ w, p.watch.call (BufProtocol size) fuel t
      (LoopCall.readable t hup answer read) = Outcome.ret w := by
    rw [Watch.call, hnet, Outcome.ret_bind]
    cases net.conns.get t with
    | none => exact ⟨_, rfl⟩
    | some k => exact ⟨_, rfl⟩
  rw [call, hw, Outcome.ret_bind]
  cases (LoopCall.readable t hup answer read).heard t with
  | none => exact ⟨_, rfl⟩
  | some data => exact ⟨_, rfl⟩

end Run

/-- **Frames may share memory with the buffer.**  A `BufProtocol` connection of a running engine has
just been made; a frame fits into a read buffer, and the room below which a buffer is replaced is
not zero. Then after any calls of the event loop, with reads of any lengths, up to the one that
drops the connection: the marker is within what is filled, and is the true sum of the frames sent
from this buffer; at least one byte is free; every frame sent lies inside what its buffer holds and
shows it; whatever was written or sent after a frame stays behind it; and the next read comes
back. -/
theorem sound {size fuel : ℕ} {cfg : NetEngineConfig} {before : List Net.Event}
    {s : Net Unit AROIobuf} {t : Token} {c : Connection Unit} {es : List LoopCall} {p : Tape}
    (hpos : 1 ≤ size) (hsize : size ≤ cfg.readBufSz) (hlow : 1 ≤ cfg.low)
    (hfuel : cfg.readBufSz < fuel)
    (hs : Reach (Net.step (BufProtocol size) fuel) anyStep (Net.new cfg) before s)
    (hc : s.conns.get t = some c) (hmarker : c.marker = 0) (hbuf : c.buf = cfg.newBuf)
    (h : Reach (call size fuel t) (Live t) (start s c) es p) :
    p.Sound cfg t s c ∧ ∀ k, p.watch.net.conns.get t = some k →
      ∀ hup answer (read : ReadAnswer), read.Fits p.watch.last.buf →
        ∃ q, p.call size fuel t (LoopCall.readable t hup answer read) = Outcome.ret q := by
  have hstart : (start s c).Sound cfg t s c := by
    refine ⟨Net.laid_reach hs, ?_, rfl, ?_, ?_, ?_, ?_⟩
    · intro k hk
      exact Option.some.inj (hc.symm.trans hk)
    · show c.buf.cap = cfg.readBufSz
      rw [hbuf]
      rfl
    · show Storage [] c.buf c.marker []
      rw [hmarker]
      refine ⟨Nat.zero_le _, ?_, List.Pairwise.nil, ?_, rfl, fun _ _ _ => Nat.zero_le _⟩
      · intro a ha
        cases ha
      · intro v hv
        cases hv
    · show 1 ≤ c.buf.len
      rw [hbuf]
      show 1 ≤ cfg.readBufSz - 0
      omega
    · exact (List.append_nil _).symm
  have hp : p.Sound cfg t s c :=
    h.invariant hstart fun _ _ _ ht hlive hq => ht.step hsize hlow hlive hq
  exact ⟨hp, fun k hk hup answer read hread => hp.returns hpos hfuel hk hup answer hread⟩

/-- The configuration of an engine whose buffers have `room` bytes and are replaced when fewer than
`min` are free. -/
def tight (room min : ℕ) (h : room < 2 ^ 32) : NetEngineConfig := ⟨16, room, min, 1, h⟩

/-- Three reads, an empty one between them: the second replaces the buffer, the last comes with the
hang-up. -/
def threeReads : List LoopCall :=
  [LoopCall.readable 256 false AcceptAnswer.failed (ReadAnswer.ready [1, 2, 3]),
    LoopCall.readable 256 false AcceptAnswer.failed (ReadAnswer.ready []),
    LoopCall.readable 256 false AcceptAnswer.failed (ReadAnswer.ready [4, 5, 6]),
    LoopCall.readable 256 true AcceptAnswer.failed (ReadAnswer.ready [7, 8])]

/-- Frames of two bytes from buffers of eight. -/
theorem sound_roll_over : ∃ s c p,
    Reach (Net.step (BufProtocol 2) 9) anyStep (Net.new (tight 8 4 (by decide)))
        [Net.Event.connected 256] s ∧
      s.conns.get 256 = some c ∧ Reach (call 2 9 256) (Live 256) (start s c) threeReads p ∧
      p.past.length = 1 ∧ (p.watch.net.tagged 256).length = 3 ∧
      p.Sound (tight 8 4 (by decide)) 256 s c := by
  obtain ⟨s, hexec, c, hc, hmarker, hbuf, p, hp, hpast, hsent⟩ : ∃ s,
      execute (Net.step (BufProtocol 2) 9) (fun _ _ => true) (Net.new (tight 8 4 (by decide)))
        [Net.Event.connected 256] = some s ∧
      ∃ c, s.conns.get 256 = some c ∧ c.marker = 0 ∧ c.buf = (tight 8 4 (by decide)).newBuf ∧
      ∃ p, execute (call 2 9 256) (fun p _ => p.watch.net.conns.contains 256) (start s c) threeReads
        = some p ∧ p.past.length = 1 ∧ (p.watch.net.tagged 256).length = 3 :=
    ⟨_, rfl, _, rfl, rfl, rfl, _, rfl, rfl, rfl⟩
  have hs : Reach (Net.step (BufProtocol 2) 9) anyStep _ _ s :=
    reach_of_execute (fun _ _ _ => trivial) hexec
  have hrun : Reach (call 2 9 256) (Live 256) (start s c) threeReads p :=
    reach_of_execute (fun _ _ hv => Option.isSome_iff_ne_none.mp hv) hp
  exact ⟨s, c, p, hs, hc, hrun, hpast, hsent,
    (sound (by decide) (by decide) (by decide) (by decide) hs hc hmarker hbuf hrun).1⟩

/-- With `min_read_buf_sz` a multiple of `2 ^ 32` a buffer that has been filled up stays. -/
theorem left_full : ∃ s c p,
    1 ≤ (tight 2 (2 ^ 32) (by decide)).minReadBufSz ∧
      Reach (Net.step (BufProtocol 2) 3) anyStep (Net.new (tight 2 (2 ^ 32) (by decide)))
        [Net.Event.connected 256] s ∧
      s.conns.get 256 = some c ∧ c.marker = 0 ∧ c.buf = (tight 2 (2 ^ 32) (by decide)).newBuf ∧
      Reach (call 2 3 256) (Live 256) (start s c)
        [LoopCall.readable 256 false AcceptAnswer.failed (ReadAnswer.ready [1, 2])] p ∧
      p.watch.net.conns.get 256 = some p.watch.last ∧ p.watch.last.buf.len = 0 := by
  obtain ⟨s, hexec, c, hc, hmarker, hbuf, p, hp, hlast, hfull⟩ : ∃ s,
      execute (Net.step (BufProtocol 2) 3) (fun _ _ => true)
        (Net.new (tight 2 (2 ^ 32) (by decide))) [Net.Event.connected 256] = some s ∧
      ∃ c, s.conns.get 256 = some c ∧ c.marker = 0 ∧
        c.buf = (tight 2 (2 ^ 32) (by decide)).newBuf ∧
      ∃ p, execute (call 2 3 256) (fun p _ => p.watch.net.conns.contains 256) (start s c)
        [LoopCall.readable 256 false AcceptAnswer.failed (ReadAnswer.ready [1, 2])] = some p ∧
        p.watch.net.conns.get 256 = some p.watch.last ∧ p.watch.last.buf.len = 0 :=
    ⟨_, rfl, _, rfl, rfl, rfl, _, rfl, rfl, rfl⟩
  exact ⟨s, c, p, by decide, reach_of_execute (fun _ _ _ => trivial) hexec, hc, hmarker, hbuf,
    reach_of_execute (fun _ _ hv => Option.isSome_iff_ne_none.mp hv) hp, hlast, hfull⟩

end Tape

end Rx
