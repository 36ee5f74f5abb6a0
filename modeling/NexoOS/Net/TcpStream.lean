import NexoOS.Net.TcpLink
import NexoOS.Net.TcpReceive

/-!
# Stream integrity

What each side of a link reads is a prefix of what the other side wrote. A
receiver that still takes data expects the position after the bytes it has,
and a segment at that position carries the bytes that come next. The
handshake needs one fact more: while one side is listening, the other has
sent nothing but its SYN, so no ACK moves `snd_una` before the SYN-ACK.
-/

namespace NexoOS.Net.Tcp

open Function List Option TcpSocket

open SeqNum

/-! ## The receiving side -/

/-- A socket whose application took `taken` so far, against a peer that
accepted `sent` after the SYN number `iss`. -/
structure Receiver (iss : Nat) (sent taken : List UInt8) (s : TcpSocket) : Prop where
  pre : taken ++ s.rx <+: sent
  next : s.state.receiving → s.rcvNxt = wrap (iss + 1 + (taken ++ s.rx).length)
  fresh : s.state = .listen ∨ s.state = .synSent → taken ++ s.rx = []

namespace Receiver

variable {iss : Nat} {sent taken : List UInt8} {s t : TcpSocket}

theorem mono (h : Receiver iss sent taken s) {sent' : List UInt8} (hpre : sent <+: sent') :
    Receiver iss sent' taken s :=
  ⟨h.pre.trans hpre, h.next, h.fresh⟩

end Receiver

theorem State.Onward.receiving {a b : State} (h : a.Onward b) (hb : b.receiving = true) :
    a.receiving = true := by
  rw [State.receiving_iff] at hb ⊢
  refine ⟨Bool.eq_false_iff.2 fun hc => ?_, Bool.eq_false_iff.2 fun hc => ?_⟩
  · exact absurd (hb.1.symm.trans (h.1 hc)) Bool.false_ne_true
  · rcases h.2.1 hc with he | he
    · exact absurd (hb.2.symm.trans (he ▸ hc)) Bool.false_ne_true
    · exact absurd (hb.1.symm.trans he) Bool.false_ne_true

theorem Receiver.step {iss : Nat} {sent : List UInt8} {c : Conn}
    (h : Receiver iss sent c.taken c.sock) (hlen : sent.length < 2 ^ 31) (e : Event)
    (hin : ∀ seg, e.incoming = some seg → Carries iss sent seg.seq seg.flags seg.payload) :
    Receiver iss sent (c.step e).taken (c.step e).sock := by
  have hfresh : ∀ {st : State}, st.unsynced = true ↔ st = .listen ∨ st = .synSent := by
    intro st
    cases st <;> simp [State.unsynced]
  have hdel : TcpSocket.takes e = false → (c.step e).taken = c.taken := by
    intro he
    cases e with
    | takeRx n => cases he
    | _ => exact append_nil _
  by_cases hsyn : c.sock.takesSyn e = true
  · obtain ⟨hun, hrx, -, hst, ⟨seg, hseg, hflag, hn⟩, -⟩ := TcpSocket.step_takesSyn e hsyn
    have hempty := h.fresh (hfresh.1 hun)
    have htaken := hdel (by cases e <;> first | rfl | cases hsyn)
    have hall : (c.step e).taken ++ (c.step e).sock.rx = c.taken ++ c.sock.rx := by
      rw [htaken, ← hrx]
      rfl
    refine ⟨?_, fun _ => ?_, fun _ => ?_⟩ <;> rw [hall]
    · exact h.pre
    · rw [hempty]
      exact hn.trans (by rw [(hin seg hseg).syn hflag, wrap_succ]; rfl)
    · exact hempty
  rw [Bool.not_eq_true] at hsyn
  by_cases he : TcpSocket.takes e = true
  · cases e with
    | takeRx n =>
      -- the bytes move from the buffer to the application
      have hsplit : (c.step (.takeRx n)).taken ++ (c.step (.takeRx n)).sock.rx
          = c.taken ++ c.sock.rx := by
        simp only [Conn.step, TcpSocket.step, TcpSocket.delivered, TcpSocket.takeRx,
          append_assoc, take_append_drop]
      refine ⟨?_, fun hr => ?_, fun hf => ?_⟩ <;> rw [hsplit]
      · exact h.pre
      · exact h.next hr
      · exact h.fresh hf
    | _ => cases he
  rw [Bool.not_eq_true] at he
  obtain ⟨data, fin, hr⟩ := TcpSocket.received_step e he hsyn
  have hall : (c.step e).taken ++ (c.step e).sock.rx = c.taken ++ c.sock.rx ++ data := by
    rw [hdel he, append_assoc, ← hr.rx]
    rfl
  refine ⟨?_, fun hst => ?_, fun hf => ?_⟩ <;> rw [hall]
  · by_cases hne : data = []
    · rw [hne, append_nil]
      exact h.pre
    · obtain ⟨hrecv, seg, hseg, hseq, rfl⟩ := hr.origin hne
      exact (hin seg hseg).next hne h.pre hlen (hseq.trans (h.next hrecv))
  · have hfin : fin = false := by
      by_contra hc
      have hshut := (hr.shut (Bool.not_eq_false _ ▸ hc)).2
      exact absurd ((State.receiving_iff.1 hst).1.symm.trans hshut) Bool.false_ne_true
    refine hr.rcvNxt.trans ?_
    rw [h.next (hr.onward.receiving hst), hfin, ← wrap_add]
    simp only [length_append, Nat.add_assoc, Bool.toNat_false, Nat.add_zero]
  · have hsame := hr.onward.2.2 (hfresh.2 hf)
    have hun : c.sock.state.unsynced = true := hsame ▸ hfresh.2 hf
    rw [hr.data_eq_nil hun, append_nil]
    exact h.fresh (hfresh.1 hun)

/-! ## Before the handshake -/

/-- `p` is still as `listen` made it, and `q` has sent nothing but its SYN. -/
structure Unanswered (p q : Peer) : Prop where
  una : p.conn.sock.sndUna = p.conn.iss
  free : ∀ i, ¬ (p.conn.sock.pend i).used
  low : p.conn.sock.winLow = false
  out : p.out = []
  peerState : q.conn.sock.state = .synSent ∨ q.conn.sock.state = .closed
  peerLow : q.conn.sock.winLow = false
  peerSlots : ∀ i, (q.conn.sock.pend i).used → ¬ hasFlag (q.conn.sock.pend i).flags tcpAck
  peerOut : ∀ seg ∈ q.out, ¬ hasFlag seg.flags tcpAck

namespace TcpSocket

variable {s : TcpSocket} {e : Event} {r : TcpSocket × Option TxSeg}

theorem Steps.listen (hs : s.Steps e r) (h : r.1.state = .listen) : s.state = .listen := by
  cases hs with
  | @segment seg now hrst =>
    rcases onSegment_state (s := s) now hrst with
      hs | ⟨_, hs⟩ | ⟨_, hs⟩ | ⟨_, _, hs⟩ | ⟨_, _, hs | hs⟩ | ⟨_, _, hs⟩ <;> rw [hs] at h
    · exact h
    all_goals cases h
  | close =>
    change (if _ then _ else _) = _ at h
    split at h <;> cases h
  | syn | reset => cases h
  | _ => exact h

/-- A listening socket does nothing until a SYN arrives. -/
theorem Steps.of_listen (hs : s.Steps e r) (hst : s.state = .listen) (hlow : s.winLow = false)
    (hfree : ∀ i, ¬ (s.pend i).used)
    (hin : ∀ seg, e.incoming = some seg → ¬ hasFlag seg.flags tcpRst ∧ ¬ hasFlag seg.flags tcpAck)
    (hl : r.1.state = .listen) :
    r.2 = none ∧ r.1.sndUna = s.sndUna ∧ r.1.pend = s.pend ∧ r.1.winLow = s.winLow := by
  cases hs with
  | @segment seg now hrst =>
    have hidle : s.onSegment seg now = (s, none) := by
      rw [onSegment, if_neg hrst, processAck, if_neg (hin seg rfl).2]
      simp [hst]
    rw [hidle]
    exact ⟨rfl, rfl, rfl, rfl⟩
  | send hopen | close hopen => rcases hopen with ho | ho <;> cases hst.symm.trans ho
  | syn | reset => cases hl
  | retry _ hi => exact absurd (oldestExpired_used hi) (hfree _)
  | windowUpdate hw => cases hlow.symm.trans hw
  | _ => exact ⟨rfl, rfl, rfl, rfl⟩

/-- An unanswered socket can only repeat its SYN or give up. -/
theorem Steps.of_unanswered (hs : s.Steps e r) (hst : s.state = .synSent ∨ s.state = .closed)
    (hlow : s.winLow = false) (hin : e.incoming = none) :
    (r.1.state = .synSent ∨ r.1.state = .closed) ∧ r.1.winLow = false ∧
    (∀ i, (r.1.pend i).used → (s.pend i).used ∧ (r.1.pend i).flags = (s.pend i).flags) ∧
    ∀ t, r.2 = some t → ∃ i, (s.pend i).used ∧ t.flags = (s.pend i).flags := by
  cases hs with
  | syn | segment => cases hin
  | send hopen | close hopen =>
    rcases hst with hst | hst <;> rcases hopen with ho | ho <;> cases hst.symm.trans ho
  | reset => exact ⟨.inr rfl, hlow, fun i hi => absurd hi Bool.false_ne_true, nofun⟩
  | @retry now k _ hk =>
    have hsame := fun i => TxPend.update_again s.pend k i now
    refine ⟨hst, hlow, fun i hi => ⟨(hsame i).1.symm.trans hi, (hsame i).2.2.1⟩, fun t ht => ?_⟩
    exact ⟨k, oldestExpired_used hk, by rw [← some.inj ht]; rfl⟩
  | windowUpdate hw => cases hlow.symm.trans hw
  | _ => exact ⟨hst, hlow, fun i hi => ⟨hi, rfl⟩, nofun⟩

end TcpSocket

theorem Unanswered.step_left {p q : Peer} (h : Unanswered p q)
    (hs : p.conn.sock.state = .listen) {e : Event}
    (hin : ∀ seg, e.incoming = some seg → ¬ hasFlag seg.flags tcpRst ∧ ¬ hasFlag seg.flags tcpAck)
    (hl : (p.step e).conn.sock.state = .listen) : Unanswered (p.step e) q := by
  obtain ⟨hnone, huna, hpend, hlow⟩ := (p.conn.sock.steps e).of_listen hs h.low h.free hin hl
  refine ⟨huna.trans h.una, fun i => ?_, hlow.trans h.low, ?_, h.peerState, h.peerLow,
    h.peerSlots, h.peerOut⟩
  · simp only [Peer.step, Conn.step, hpend]
    exact h.free i
  · simp [Peer.step, hnone, h.out]

theorem Unanswered.step_right {p q : Peer} (h : Unanswered p q) {e : Event}
    (hin : e.incoming = none) : Unanswered p (q.step e) := by
  obtain ⟨hst, hlow, hslots, hout⟩ := (q.conn.sock.steps e).of_unanswered h.peerState h.peerLow hin
  refine ⟨h.una, h.free, h.low, h.out, hst, hlow, fun i hi => ?_, fun seg hseg => ?_⟩
  · obtain ⟨hu, hf⟩ := hslots i hi
    simp only [Peer.step, Conn.step, hf]
    exact h.peerSlots i hu
  simp only [Peer.step, mem_append, mem_toList, map_eq_some_iff] at hseg
  rcases hseg with hold | ⟨t, ht, rfl⟩
  · exact h.peerOut seg hold
  obtain ⟨i, hu, hf⟩ := hout t ht
  simp only [emitSeg, hf]
  exact h.peerSlots i hu

/-! ## The link -/

namespace Link

/-- The invariant of a link, for both directions. -/
structure Inv (n : Link) : Prop where
  sender : ∀ x, Sender (n x)
  receiver : ∀ x : Side, Receiver (n x.other).conn.iss.toNat (n x.other).conn.sent
    (n x).conn.taken (n x).conn.sock
  listen : ∀ x, (n x).conn.sock.state = .listen → Unanswered (n x) (n x.other)

theorem event_incoming {n : Link} {ev : LinkEvent} {e : Event} (h : n.event ev = some e)
    {seg : TcpSegment} (hin : e.incoming = some seg) : seg ∈ (n ev.side.other).out := by
  cases ev <;> simp only [event, some.injEq, map_eq_some_iff] at h
  case deliver x i now =>
    obtain ⟨seg', hget, rfl⟩ := h
    exact some.inj hin ▸ mem_of_getElem? hget
  case deliverSyn x ip i now =>
    obtain ⟨seg', hget, rfl⟩ := h
    exact some.inj hin ▸ mem_of_getElem? hget
  all_goals
    subst h
    cases hin

theorem step_sent (n : Link) (ev : LinkEvent) (x : Side) :
    (n x).conn.sent <+: (n.step ev x).conn.sent := by
  rcases he : n.event ev with _ | e
  · simp only [step, he, prefix_rfl]
  simp only [step, he]
  by_cases hx : x = ev.side
  · subst hx
    rw [update_self]
    exact prefix_append _ _
  · rw [update_of_ne hx]

theorem Inv.step {n : Link} (h : n.Inv) (ev : LinkEvent)
    (hlen : ∀ x, (n x).conn.sent.length < 2 ^ 31) : (n.step ev).Inv := by
  rw [Link.step]
  split
  · exact h
  rename_i e he
  generalize hx : ev.side = x at *
  have hcar : ∀ seg, e.incoming = some seg → Carries (n x.other).conn.iss.toNat
      (n x.other).conn.sent seg.seq seg.flags seg.payload := fun seg hs =>
    (h.sender x.other).out seg (hx ▸ event_incoming he hs)
  have hself : update n x ((n x).step e) x = (n x).step e := update_self ..
  have hother : update n x ((n x).step e) x.other = n x.other :=
    update_of_ne (Side.other_ne x) ..
  -- either side of the new link is the one that moved or the other one
  have hsides : ∀ y, y = x ∨ y = x.other := fun y => by
    by_cases hy : y = x
    · exact .inl hy
    · exact .inr (Side.eq_other fun hc => hy hc.symm)
  refine ⟨fun y => ?_, fun y => ?_, fun y => ?_⟩
  · rcases hsides y with rfl | rfl
    · rw [hself]
      exact (h.sender _).step (fun hl => (h.listen _ hl).una) e
    · rw [hother]
      exact h.sender _
  · rcases hsides y with rfl | rfl
    · rw [hself, hother]
      exact (h.receiver _).step (hlen _) e hcar
    · rw [Side.other_other, hself, hother]
      have := h.receiver x.other
      rw [Side.other_other] at this
      exact this.mono (prefix_append _ _)
  · rcases hsides y with rfl | rfl
    · rw [hself, hother]
      intro hl
      have hs := ((n _).conn.sock.steps e).listen hl
      exact (h.listen _ hs).step_left hs (fun seg hin => ⟨(hcar seg hin).noRst,
        (h.listen _ hs).peerOut seg (hx ▸ event_incoming he hin)⟩) hl
    · rw [Side.other_other, hself, hother]
      intro hl
      have hun := h.listen x.other hl
      rw [Side.other_other] at hun
      refine hun.step_right ?_
      cases hin : e.incoming with
      | none => rfl
      | some seg =>
        have := event_incoming he hin
        rw [hx, hun.out] at this
        exact absurd this not_mem_nil

theorem Inv.start (localPort : UInt16) (remoteIp : Ipv4Addr) (remotePort : UInt16)
    (issA issP : UInt32) (now : Nat) : (start localPort remoteIp remotePort issA issP now).Inv := by
  have hnxt : ∀ iss : UInt32, iss + 1 = wrap (iss.toNat + 1) := fun iss => by
    rw [← wrap_succ, wrap_of_toNat]
  have hsyn : ∀ (sent : List UInt8), Carries issA.toNat sent issA tcpSyn [] := fun _ =>
    .handshake (by decide) (wrap_of_toNat issA).symm
  refine ⟨fun x => ?_, fun x => ?_, fun x => ?_⟩
  · cases x
    · refine ⟨fun hs => (by cases hs), fun _ => rfl, hnxt issA, fun i hi => ?_, fun seg hseg => ?_⟩
      · by_cases h0 : i = 0
        · subst h0
          exact hsyn []
        · refine absurd hi ?_
          simp [Link.start, Conn.ofConnect, connect, update_of_ne h0, pendFree]
      · rw [mem_singleton.mp hseg]
        exact hsyn []
    · exact ⟨fun hs => (by cases hs), fun _ => rfl, hnxt issP, fun i hi => absurd hi Bool.false_ne_true,
        fun seg hseg => absurd hseg not_mem_nil⟩
  · cases x
    · exact ⟨prefix_rfl, fun hs => (by cases hs), fun _ => rfl⟩
    · exact ⟨prefix_rfl, fun hs => (by cases hs), fun _ => rfl⟩
  · cases x
    · exact fun hs => by cases hs
    intro _
    refine ⟨rfl, fun i => Bool.false_ne_true, rfl, rfl, .inl rfl, rfl, fun i hi => ?_,
      fun seg hseg => ?_⟩
    · by_cases h0 : i = 0
      · subst h0
        change ¬ hasFlag tcpSyn tcpAck
        decide
      · refine absurd hi ?_
        simp [Link.start, Side.other, Conn.ofConnect, connect, update_of_ne h0, pendFree]
    · rw [mem_singleton.mp hseg]
      change ¬ hasFlag tcpSyn tcpAck
      decide

theorem run_sent (n : Link) (evs : List LinkEvent) (x : Side) :
    (n x).conn.sent <+: (n.run evs x).conn.sent := by
  induction evs generalizing n with
  | nil => exact prefix_rfl
  | cons ev evs ih => exact (step_sent n ev x).trans (ih (n.step ev))

theorem Inv.run {n : Link} (h : n.Inv) (evs : List LinkEvent)
    (hlen : ∀ x, (n.run evs x).conn.sent.length < 2 ^ 31) : (n.run evs).Inv := by
  induction evs generalizing n with
  | nil => exact h
  | cons ev evs ih =>
    refine ih (h.step ev fun x => ?_) hlen
    exact Nat.lt_of_le_of_lt (run_sent n (ev :: evs) x).length_le (hlen x)

/-- Whatever the network does, the bytes read at one side are a prefix of
those accepted at the other, as long as no stream reaches 2^31 bytes. -/
theorem taken_prefix_sent (localPort : UInt16) (remoteIp : Ipv4Addr) (remotePort : UInt16)
    (issA issP : UInt32) (now : Nat) (evs : List LinkEvent) :
    let n := (start localPort remoteIp remotePort issA issP now).run evs
    (∀ x, (n x).conn.sent.length < 2 ^ 31) →
    ∀ x : Side, (n x).conn.taken <+: (n x.other).conn.sent := by
  intro n hlen x
  have hrecv := ((Inv.start localPort remoteIp remotePort issA issP now).run evs hlen).receiver x
  exact (prefix_append _ _).trans hrecv.pre

/-- A run across the wrap of the sequence numbers: the first data segment is
lost once and arrives twice, the second overtakes it. -/
def sampleEvents : List LinkEvent :=
  [.deliverSyn .passive (ipv4 10 0 2 15) 0 1, .deliver .active 0 2, .deliver .passive 1 3,
    .send .active [1, 2] 4, .send .active [3] 5, .deliver .passive 3 6, .deliver .passive 2 7,
    .deliver .passive 2 8, .poll .active 600_000_000, .takeRx .passive 1]

theorem sampleEvents_prefix :
    let n := (start 49152 #v[10, 0, 2, 2] 80 0xFFFFFFFF 5000 0).run sampleEvents
    (∀ x, (n x).conn.sent.length < 2 ^ 31) ∧ (n .passive).conn.taken = [1] ∧
      (n .active).conn.sent = [1, 2, 3] ∧
      ∀ x : Side, (n x).conn.taken <+: (n x.other).conn.sent := by
  intro n
  have hlen : ∀ x, (n x).conn.sent.length < 2 ^ 31 := by
    intro x
    cases x <;> decide
  exact ⟨hlen, by decide, by decide,
    taken_prefix_sent 49152 #v[10, 0, 2, 2] 80 0xFFFFFFFF 5000 0 sampleEvents hlen⟩

end Link
end NexoOS.Net.Tcp
