import NexoOS.Net.TcpClose

/-!
# Two sockets over an arbitrary network

One socket opens actively, the other listens; every segment either of them
emits goes into a pool the network keeps for ever, and may hand to the other
side any number of times, in any order, or never.

The sending side of the argument is here: every segment in the pool, and
every slot that can be retransmitted, *carries* a piece of the sender's
stream at the position its sequence number names.
-/

namespace NexoOS.Net.Tcp

open Function SeqNum

/-! ## The network -/

inductive Side where
  | active
  | passive
  deriving DecidableEq

def Side.other : Side → Side
  | .active => .passive
  | .passive => .active

@[simp]
theorem Side.other_other (x : Side) : x.other.other = x := by
  cases x <;> rfl

theorem Side.other_ne (x : Side) : x.other ≠ x := by
  cases x <;> decide

theorem Side.eq_other {x y : Side} (h : y ≠ x) : x = y.other := by
  revert h
  cases x <;> cases y <;> decide

/-- The segment on the wire for `t`, as `emit_seg` of the network service
writes it: ports and window of the socket, payload of the slot. -/
def TcpSocket.emitSeg (s : TcpSocket) (t : TxSeg) : TcpSegment :=
  { srcPort := s.localPort, dstPort := s.remotePort, seq := t.seq, ack := t.ack,
    flags := t.flags, window := UInt16.ofNat s.window,
    payload := s.slotPayload t.slot (min t.payloadLen mss) }

/-- A socket and every segment it ever emitted. -/
structure Peer where
  conn : Conn
  out : List TcpSegment

def Peer.step (p : Peer) (e : Event) : Peer :=
  { conn := p.conn.step e,
    out := p.out ++ ((p.conn.sock.step e).2.map (p.conn.sock.step e).1.emitSeg).toList }

def Peer.after (p : Peer) (e : Event) (r : TcpSocket × Option TxSeg) : Peer :=
  { conn := p.conn.after e r, out := p.out ++ (r.2.map r.1.emitSeg).toList }

theorem Peer.step_eq (p : Peer) (e : Event) : p.step e = p.after e (p.conn.sock.step e) := by
  rw [Peer.step, Conn.step_eq]
  rfl

abbrev Link := Side → Peer

/-- A call of the application or the timer at side `x`, or the network
handing it the `i`-th segment the other side emitted. -/
inductive LinkEvent where
  | send (x : Side) (data : List UInt8) (now : Nat)
  | close (x : Side) (now : Nat)
  | poll (x : Side) (now : Nat)
  | takeRx (x : Side) (n : Nat)
  | windowUpdate (x : Side)
  | deliver (x : Side) (i : Nat) (now : Nat)
  | deliverSyn (x : Side) (srcIp : Ipv4Addr) (i : Nat) (now : Nat)

def LinkEvent.side : LinkEvent → Side
  | .send x .. | .close x .. | .poll x .. | .takeRx x .. | .windowUpdate x
  | .deliver x .. | .deliverSyn x .. => x

namespace Link

/-- The call an event makes on the socket of its side. -/
def event (n : Link) : LinkEvent → Option Event
  | .send _ data now => some (.send data now)
  | .close _ now => some (.close now)
  | .poll _ now => some (.poll now)
  | .takeRx _ k => some (.takeRx k)
  | .windowUpdate _ => some .windowUpdate
  | .deliver x i now => (n x.other).out[i]?.map fun seg => .onSegment seg now
  | .deliverSyn x ip i now => (n x.other).out[i]?.map fun seg => .onSyn ip seg now

def step (n : Link) (ev : LinkEvent) : Link :=
  match n.event ev with
  | none => n
  | some e => update n ev.side ((n ev.side).step e)

def run (n : Link) (evs : List LinkEvent) : Link := evs.foldl step n

/-- Both ends before anything is delivered: the SYN of the active side is
on its way. -/
def start (localPort : UInt16) (remoteIp : Ipv4Addr) (remotePort : UInt16)
    (issA issP : UInt32) (now : Nat) : Link
  | .active =>
    let (sock, syn) := connect localPort remoteIp remotePort issA now
    { conn := .ofConnect localPort remoteIp remotePort issA now, out := [sock.emitSeg syn] }
  | .passive => { conn := .ofListen remotePort issP, out := [] }

end Link

/-! ## What a segment carries -/

/-- A segment of a stream `sent` that starts after the SYN number `iss`. -/
structure Carries (iss : Nat) (sent : List UInt8) (seq : UInt32) (flags : UInt8)
    (payload : List UInt8) : Prop where
  noRst : ¬ hasFlag flags tcpRst
  syn : hasFlag flags tcpSyn → seq = wrap iss
  data : payload ≠ [] → ∃ k, seq = wrap (iss + 1 + k) ∧ payload <+: sent.drop k

namespace Carries

variable {iss : Nat} {sent : List UInt8} {seq : UInt32} {flags : UInt8} {payload : List UInt8}

theorem mono (h : Carries iss sent seq flags payload) {sent' : List UInt8}
    (hpre : sent <+: sent') : Carries iss sent' seq flags payload := by
  refine ⟨h.noRst, h.syn, fun hne => ?_⟩
  obtain ⟨k, hseq, hpay⟩ := h.data hne
  exact ⟨k, hseq, hpay.trans (hpre.drop k)⟩

theorem control (hrst : ¬ hasFlag flags tcpRst) (hsyn : hasFlag flags tcpSyn = false) :
    Carries iss sent seq flags [] :=
  ⟨hrst, fun hc => by simp [hsyn] at hc, fun hc => absurd rfl hc⟩

theorem handshake (hrst : ¬ hasFlag flags tcpRst) (hseq : seq = wrap iss) :
    Carries iss sent seq flags [] :=
  ⟨hrst, fun _ => hseq, fun hc => absurd rfl hc⟩

/-- The segment at the position the receiver expects continues its bytes. -/
theorem next (h : Carries iss sent seq flags payload) (hne : payload ≠ []) {got : List UInt8}
    (hgot : got <+: sent) (hlen : sent.length < 2 ^ 31)
    (hseq : seq = wrap (iss + 1 + got.length)) : got ++ payload <+: sent := by
  obtain ⟨k, hk, hpay⟩ := h.data hne
  have hklt : k < sent.length := by
    by_contra hge
    rw [List.drop_of_length_le (by omega)] at hpay
    exact hne (List.prefix_nil.mp hpay)
  have hgle := hgot.length_le
  have hkeq : k = got.length := by
    have := wrap_inj (hk.symm.trans hseq) (by omega) (by omega)
    omega
  subst hkeq
  obtain ⟨rest, rfl⟩ := hgot
  rw [List.drop_left] at hpay
  exact List.prefix_append_right_inj got |>.mpr hpay

end Carries

/-! ## The sending side -/

/-- The stream a socket has accepted is what its segments carry: those it
emitted and those a timer may emit again. -/
structure Sender (p : Peer) : Prop where
  reset_closed : p.conn.sock.reset = true → p.conn.sock.state = .closed
  fin : p.conn.sock.reset = false → p.conn.fin = p.conn.sock.state.closing
  nxt : p.conn.sock.sndNxt = wrap (p.conn.iss.toNat + p.conn.total)
  slots : ∀ i, (p.conn.sock.pend i).used →
    Carries p.conn.iss.toNat p.conn.sent (p.conn.sock.pend i).seq (p.conn.sock.pend i).flags
      (p.conn.sock.slotPayload i.val (p.conn.sock.pend i).len)
  out : ∀ seg ∈ p.out, Carries p.conn.iss.toNat p.conn.sent seg.seq seg.flags seg.payload

namespace Sender

variable {p : Peer}

theorem open_fin (h : Sender p)
    (hs : p.conn.sock.state = .established ∨ p.conn.sock.state = .closeWait) :
    p.conn.fin = false := by
  have hr : p.conn.sock.reset = false := by
    by_contra hr
    have := h.reset_closed (by simpa using hr)
    rcases hs with hs | hs <;> simp [hs] at this
  rw [h.fin hr]
  rcases hs with hs | hs <;> rw [hs] <;> rfl

end Sender

theorem TcpSocket.slotPayload_zero (s : TcpSocket) (slot : Nat) : s.slotPayload slot 0 = [] := by
  rw [TcpSocket.slotPayload]
  split <;> simp

theorem carries_ackSeg (s t : TcpSocket) (iss : Nat) (sent : List UInt8) :
    Carries iss sent s.ackSeg.seq s.ackSeg.flags
      (t.slotPayload s.ackSeg.slot (min s.ackSeg.payloadLen mss)) := by
  have : min s.ackSeg.payloadLen mss = 0 := rfl
  rw [this, TcpSocket.slotPayload_zero]
  change Carries iss sent s.sndNxt tcpAck []
  exact .control (by decide) (by decide)

namespace TcpSocket

variable {s t : TcpSocket} {e : Event} {r : TcpSocket × Option TxSeg}

/-- Whatever a segment is answered with is a bare ACK. -/
theorem onSegment_answer {seg : TcpSegment} (now : Nat) {a : TxSeg}
    (h : (s.onSegment seg now).2 = some a) : ∃ u : TcpSocket, a = u.ackSeg := by
  rw [onSegment] at h
  split at h
  · cases h
  dsimp only at h
  split at h
  · rw [onSynRcvd] at h
    split at h
    · dsimp only at h
      split at h
      · exact ⟨_, (Option.some.inj h).symm⟩
      · cases h
    · cases h
  · rw [onSynSent] at h
    split at h
    · exact ⟨_, (Option.some.inj h).symm⟩
    · cases h
  iterate 3
    rw [onData] at h
    split at h
    · exact ⟨_, (Option.some.inj h).symm⟩
    split at h
    · exact ⟨_, (Option.some.inj h).symm⟩
    · cases h
  all_goals cases h

theorem slotPayload_min (s : TcpSocket) (slot len : Nat) :
    s.slotPayload slot (min len mss) = s.slotPayload slot len := by
  rw [slotPayload, slotPayload, Nat.min_assoc, Nat.min_self]

theorem slotPayload_congr {i : Fin txSlots} (h : t.tx i = s.tx i) (len : Nat) :
    t.slotPayload i.val len = s.slotPayload i.val len := by
  simp only [slotPayload, i.isLt, dif_pos, h]

/-- The slot's deadline has passed. -/
def Expired (s : TcpSocket) (now : Nat) (i : Fin txSlots) : Prop :=
  (s.pend i).used ∧ (s.pend i).deadline ≤ now

instance (s : TcpSocket) (now : Nat) (i : Fin txSlots) : Decidable (s.Expired now i) :=
  inferInstanceAs (Decidable (_ ∧ _))

/-- Of the slots looked at, `o` is an expired one whose distance from `snd_una` is
least, or none has expired. -/
def Best (s : TcpSocket) (now : Nat) (P : Fin txSlots → Prop) : Option (Fin txSlots) → Prop
  | none => ∀ j, P j → ¬ s.Expired now j
  | some k => s.Expired now k ∧
    ∀ j, P j → s.Expired now j → (s.pend k).seq - s.sndUna ≤ (s.pend j).seq - s.sndUna

theorem Best.older {now : Nat} {P : Fin txSlots → Prop} {o : Option (Fin txSlots)}
    (h : s.Best now P o) (i : Fin txSlots) :
    s.Best now (fun j => j = i ∨ P j) (s.older now o i) := by
  have hexp : ¬ (¬ (s.pend i).used ∨ now < (s.pend i).deadline) ↔ s.Expired now i := by
    rw [not_or, not_not, Nat.not_lt]
    rfl
  unfold TcpSocket.older
  split
  · rename_i hc
    have hi : ¬ s.Expired now i := fun he => hexp.2 he hc
    cases o with
    | none =>
      rintro j (rfl | hj)
      · exact hi
      · exact h j hj
    | some k =>
      refine ⟨h.1, ?_⟩
      rintro j (rfl | hj) he
      · exact absurd he hi
      · exact h.2 j hj he
  · rename_i hc
    have hi := hexp.1 hc
    cases o with
    | none =>
      refine ⟨hi, ?_⟩
      rintro j (rfl | hj) he
      · exact UInt32.le_refl _
      · exact absurd he (h j hj)
    | some k =>
      dsimp only
      split
      · rename_i hlt
        refine ⟨hi, ?_⟩
        rintro j (rfl | hj) he
        · exact UInt32.le_refl _
        · exact UInt32.le_trans (UInt32.le_of_lt hlt) (h.2 j hj he)
      · rename_i hge
        refine ⟨h.1, ?_⟩
        rintro j (rfl | hj) he
        · exact UInt32.not_lt.1 hge
        · exact h.2 j hj he

theorem best_oldestExpired (s : TcpSocket) (now : Nat) :
    s.Best now (fun _ => True) (s.oldestExpired now) := by
  have hscan : ∀ (l : List (Fin txSlots)) (P : Fin txSlots → Prop) o, s.Best now P o →
      s.Best now (fun j => j ∈ l ∨ P j) (l.foldl (s.older now) o) := by
    intro l
    induction l with
    | nil =>
      intro P o h
      simpa using h
    | cons i l ih =>
      intro P o h
      simpa only [List.mem_cons, List.foldl_cons, or_assoc, or_left_comm] using ih _ _ (h.older i)
  have h := hscan (List.finRange txSlots) (fun _ => False) none nofun
  simp only [List.mem_finRange, true_or] at h
  exact h

theorem oldestExpired_used {now : Nat} {i : Fin txSlots} (h : s.oldestExpired now = some i) :
    (s.pend i).used := by
  have hbest := best_oldestExpired s now
  rw [h] at hbest
  exact hbest.1.1

theorem processAck_slot {seg : TcpSegment} {i : Fin txSlots}
    (hi : ((s.processAck seg).pend i).used) :
    (s.pend i).used ∧ (s.processAck seg).pend i = s.pend i := by
  by_cases hc : hasFlag seg.flags tcpAck = true ∧ seg.ack - s.sndUna ≤ s.sndNxt - s.sndUna
  · rw [processAck_pos hc.1 hc.2] at hi ⊢
    dsimp only at hi ⊢
    split at hi
    · cases hi
    · rename_i hn
      exact ⟨hi, if_neg hn⟩
  · rw [processAck_neg hc] at hi ⊢
    exact ⟨hi, rfl⟩

theorem onSegment_slots (s : TcpSocket) (seg : TcpSegment) (now : Nat) (i : Fin txSlots) :
    (s.onSegment seg now).1.sndNxt = s.sndNxt ∧ (s.onSegment seg now).1.tx = s.tx ∧
    (((s.onSegment seg now).1.pend i).used → (s.onSegment seg now).1.pend i = s.pend i) := by
  by_cases hrst : hasFlag seg.flags tcpRst = true
  · rw [onSegment, if_pos hrst]
    exact ⟨rfl, rfl, fun hc => absurd hc Bool.false_ne_true⟩
  have hsame := sameSender_onSegment (s := s) now hrst
  rw [hsame.sndNxt, hsame.tx, hsame.pend]
  obtain ⟨pend, una, heq⟩ := s.processAck_eq seg
  exact ⟨by rw [heq], by rw [heq], fun hi => (processAck_slot hi).2⟩

/-- What goes out is a bare ACK or the segment of a slot in use. -/
theorem Steps.emits (hs : s.Steps e r) {a : TxSeg} (ha : r.2 = some a) :
    (∃ u : TcpSocket, a = u.ackSeg) ∨
      ∃ i ack, (r.1.pend i).used ∧ a = (r.1.pend i).toSeg ack i := by
  have hput : ∀ {slot : Fin txSlots} {q : TxPend} {ack : UInt32},
      r.1.pend = update s.pend slot q → q.used → r.2 = some (q.toSeg ack slot) →
      ∃ i ack, (r.1.pend i).used ∧ a = (r.1.pend i).toSeg ack i := by
    intro slot q ack hpend hu hr
    refine ⟨slot, ack, ?_⟩
    rw [hpend, update_self]
    exact ⟨hu, Option.some.inj (ha.symm.trans hr)⟩
  cases hs with
  | segment => exact .inl (onSegment_answer _ ha)
  | windowUpdate => exact .inl ⟨s, (Option.some.inj ha).symm⟩
  | idle | reset | takeRx => cases ha
  | @retry now i _ hi => exact .inr (hput (q := (s.pend i).again now) rfl (oldestExpired_used hi) rfl)
  | syn | send | close => exact .inr (hput rfl rfl rfl)

end TcpSocket

namespace Sender

variable {p : Peer} {e : Event} {r : TcpSocket × Option TxSeg}

theorem after_nxt (h : Sender p) (hs : p.conn.sock.Steps e r) :
    r.1.sndNxt = wrap (p.conn.iss.toNat + (p.conn.after e r).total) := by
  have hquiet : (p.conn.after e r).total = p.conn.total → r.1.sndNxt = p.conn.sock.sndNxt →
      r.1.sndNxt = wrap (p.conn.iss.toNat + (p.conn.after e r).total) := fun ht hn => by
    rw [ht, hn, h.nxt]
  cases hs with
  | idle | reset => exact hquiet (p.conn.after_quiet (.inl rfl)).2.2 rfl
  | segment =>
    exact hquiet (p.conn.after_quiet (.inr rfl)).2.2 (TcpSocket.onSegment_slots _ _ _ 0).1
  | send hst =>
    rw [p.conn.total_send (h.open_fin hst), ← Nat.add_assoc, wrap_add, ← h.nxt]
    rfl
  | close hst =>
    rw [p.conn.total_close (h.open_fin hst), ← Nat.add_assoc, ← wrap_succ, ← h.nxt]
  | _ => exact hquiet (p.conn.after_quiet (.inr rfl)).2.2 rfl

/-- The slots in use after a call are old ones or carry their piece. -/
theorem after_slots (h : Sender p)
    (hl : p.conn.sock.state = .listen → p.conn.sock.sndUna = p.conn.iss)
    (hs : p.conn.sock.Steps e r) (i : Fin txSlots) (hi : (r.1.pend i).used) :
    Carries p.conn.iss.toNat (p.conn.after e r).sent (r.1.pend i).seq (r.1.pend i).flags
      (r.1.slotPayload i.val (r.1.pend i).len) := by
  have hold : (r.1.pend i).used = (p.conn.sock.pend i).used ∧
      (r.1.pend i).seq = (p.conn.sock.pend i).seq ∧
      (r.1.pend i).flags = (p.conn.sock.pend i).flags ∧
      (r.1.pend i).len = (p.conn.sock.pend i).len → r.1.tx i = p.conn.sock.tx i →
      Carries p.conn.iss.toNat (p.conn.after e r).sent (r.1.pend i).seq (r.1.pend i).flags
        (r.1.slotPayload i.val (r.1.pend i).len) := by
    rintro ⟨hu, hseq, hflags, hlen⟩ htx
    rw [hseq, hflags, hlen, TcpSocket.slotPayload_congr htx]
    exact (h.slots i (hu ▸ hi)).mono (List.prefix_append _ _)
  have hother : ∀ {slot q}, r.1.pend = update p.conn.sock.pend slot q → i ≠ slot →
      r.1.tx i = p.conn.sock.tx i →
      Carries p.conn.iss.toNat (p.conn.after e r).sent (r.1.pend i).seq (r.1.pend i).flags
        (r.1.slotPayload i.val (r.1.pend i).len) := by
    intro slot q hpend hne
    refine hold ?_
    rw [hpend, update_of_ne hne]
    exact ⟨rfl, rfl, rfl, rfl⟩
  cases hs with
  | syn hst =>
    by_cases h0 : i = 0
    · subst h0
      dsimp only
      rw [update_self, hl hst]
      refine TcpSocket.slotPayload_zero .. ▸ .handshake ?_ (wrap_of_toNat _).symm
      show ¬ hasFlag (tcpSyn ||| tcpAck) tcpRst
      decide
    · exact hother rfl h0 rfl
  | @segment seg now =>
    have hkeep := TcpSocket.onSegment_slots p.conn.sock seg now i
    refine hold ?_ (congrFun hkeep.2.1 i)
    rw [hkeep.2.2 hi]
    exact ⟨rfl, rfl, rfl, rfl⟩
  | @send data now slot hst _ hmax =>
    by_cases his : i = slot
    · -- the new slot holds the bytes that now end the stream
      subst his
      have hpay : ∀ t : TcpSocket, t.tx i = data ++ (p.conn.sock.tx i).drop data.length →
          t.slotPayload i.val data.length = data := fun t ht => by
        simp [TcpSocket.slotPayload, ht, Nat.min_eq_left hmax]
      dsimp only
      rw [update_self]
      change Carries _ (_ ++ data) _ _ (TcpSocket.slotPayload _ i.val data.length)
      rw [hpay _ (update_self ..)]
      refine ⟨?_, ?_, fun _ => ⟨p.conn.sent.length, ?_, ?_⟩⟩
      · show ¬ hasFlag (tcpAck ||| tcpPsh) tcpRst
        decide
      · show hasFlag (tcpAck ||| tcpPsh) tcpSyn → _
        exact fun hc => absurd hc (by decide)
      · refine h.nxt.trans ?_
        simp [Conn.total, h.open_fin hst, Nat.add_assoc]
      · exact List.drop_left ▸ List.prefix_rfl
    · exact hother rfl his (update_of_ne his ..)
  | @close now slot hst =>
    by_cases his : i = slot
    · subst his
      dsimp only
      rw [update_self]
      refine TcpSocket.slotPayload_zero .. ▸ .control ?_ ?_
      · show ¬ hasFlag (tcpFin ||| tcpAck) tcpRst
        decide
      · show hasFlag (tcpFin ||| tcpAck) tcpSyn = false
        decide
    · exact hother rfl his rfl
  | reset => cases hi
  | @retry now k => exact hold (TxPend.update_again p.conn.sock.pend k i now) rfl
  | _ => exact hold ⟨rfl, rfl, rfl, rfl⟩ rfl

theorem step (h : Sender p) (hl : p.conn.sock.state = .listen → p.conn.sock.sndUna = p.conn.iss)
    (e : Event) : Sender (p.step e) := by
  rw [Peer.step_eq]
  have hs := p.conn.sock.steps e
  generalize p.conn.sock.step e = r at hs ⊢
  obtain ⟨hrc, hkeep⟩ := hs.reset_closed h.reset_closed
  have hslots := h.after_slots hl hs
  refine ⟨hrc, fun hr => ?_, h.after_nxt hs, hslots, fun seg hseg => ?_⟩
  · refine Conn.after_fin hs (h.fin ?_) hr
    by_contra hc
    rw [show (p.after e r).conn.sock.reset = _ from hkeep (Bool.not_eq_false _ ▸ hc)] at hr
    cases hr
  · simp only [Peer.after, List.mem_append, Option.mem_toList, Option.map_eq_some_iff] at hseg
    rcases hseg with hseg | ⟨a, ha, rfl⟩
    · exact (h.out seg hseg).mono (List.prefix_append _ _)
    rcases hs.emits ha with ⟨u, rfl⟩ | ⟨i, ack, hi, rfl⟩
    · exact carries_ackSeg u r.1 _ _
    have hcar := hslots i hi
    rw [← TcpSocket.slotPayload_min] at hcar
    exact hcar

end Sender
end NexoOS.Net.Tcp
