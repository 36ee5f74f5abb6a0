import NexoOS.Net.Tcp
import NexoOS.Lib.SeqNum

/-!
# Runs of one TCP socket

What an application and a network can do to a socket, as `Event`s, and the
socket's run under them with three ghost records beside it: the bytes
`send` accepted, the bytes `take_rx` handed out, and how far the peer has
acknowledged. None of the three is read by the state machine.
-/

namespace NexoOS.Net.Tcp

open Function SeqNum TxPend

/-- One call on a socket. -/
inductive Event where
  | onSyn (srcIp : Ipv4Addr) (seg : TcpSegment) (now : Nat)
  | onSegment (seg : TcpSegment) (now : Nat)
  | send (data : List UInt8) (now : Nat)
  | close (now : Nat)
  | poll (now : Nat)
  | takeRx (n : Nat)
  | windowUpdate

/-- The calls that put new segments out. -/
def Event.fills : Event → Bool
  | .send .. | .close .. => true
  | _ => false

/-- A segment as it is put into its slot. -/
def TxPend.fresh (seq : UInt32) (len : Nat) (flags : UInt8) (now : Nat) : TxPend :=
  { used := true, seq, len, flags, deadline := now + rtoNs, retries := 0 }

/-- A slot after one more transmission. -/
def TxPend.again (p : TxPend) (now : Nat) : TxPend :=
  { p with retries := p.retries + 1, deadline := now + rtoNs }

/-- The segment to emit for a slot. -/
def TxPend.toSeg (p : TxPend) (ack : UInt32) (slot : Fin txSlots) : TxSeg :=
  { seq := p.seq, ack, flags := p.flags, payloadLen := p.len, slot := slot.val }

theorem TxPend.update_again (pend : Fin txSlots → TxPend) (k j : Fin txSlots) (now : Nat) :
    (update pend k ((pend k).again now) j).used = (pend j).used ∧
    (update pend k ((pend k).again now) j).seq = (pend j).seq ∧
    (update pend k ((pend k).again now) j).flags = (pend j).flags ∧
    (update pend k ((pend k).again now) j).len = (pend j).len := by
  by_cases hj : j = k
  · rw [hj, update_self]
    exact ⟨rfl, rfl, rfl, rfl⟩
  · rw [update_of_ne hj]
    exact ⟨rfl, rfl, rfl, rfl⟩

namespace TcpSocket

variable (s : TcpSocket)

/-- The socket after a call and the segment the call asks to emit. -/
def step : Event → TcpSocket × Option TxSeg
  | .onSyn ip seg now => s.onSyn ip seg now
  | .onSegment seg now => s.onSegment seg now
  | .send data now => ((s.send data now).1, (s.send data now).2.toOption)
  | .close now => s.close now
  | .poll now => s.poll now
  | .takeRx n => ((s.takeRx n).1, none)
  | .windowUpdate => s.windowUpdate

/-- The bytes a call makes the socket accept for sending. -/
def accepted : Event → List UInt8
  | .send data now => if (s.send data now).2.toOption.isSome then data else []
  | _ => []

/-- The received bytes a call hands to the application. -/
def delivered : Event → List UInt8
  | .takeRx n => (s.takeRx n).2
  | _ => []

/-- A call of `close` that puts our FIN into the window. -/
def finSent : Event → Bool
  | .close now => (s.close now).2.isSome
  | _ => false

/-- The cases of a call, each with what decides for it. -/
inductive Steps (s : TcpSocket) : Event → TcpSocket × Option TxSeg → Prop where
  | idle {e : Event} (hne : ∀ seg now, e ≠ .onSegment seg now) : Steps s e (s, none)
  | syn {ip : Ipv4Addr} {seg : TcpSegment} {now : Nat} (hst : s.state = .listen)
      (hsyn : hasFlag seg.flags tcpSyn) :
      Steps s (.onSyn ip seg now)
        ({ s with
            remoteIp := ip, remotePort := seg.srcPort, rcvNxt := seg.seq + 1, state := .synRcvd,
            pend := update s.pend 0 (.fresh s.sndUna 0 (tcpSyn ||| tcpAck) now) },
          some ((fresh s.sndUna 0 (tcpSyn ||| tcpAck) now).toSeg (seg.seq + 1) 0))
  | segment {seg : TcpSegment} {now : Nat} (hrst : ¬ hasFlag seg.flags tcpRst) :
      Steps s (.onSegment seg now) (s.onSegment seg now)
  | send {data : List UInt8} {now : Nat} {slot : Fin txSlots}
      (hst : s.state = .established ∨ s.state = .closeWait) (hne : data ≠ [])
      (hmax : data.length ≤ mss) (hslot : s.freeSlot = some slot) :
      Steps s (.send data now)
        ({ s with
            tx := update s.tx slot (data ++ (s.tx slot).drop data.length),
            pend := update s.pend slot (.fresh s.sndNxt data.length (tcpAck ||| tcpPsh) now),
            sndNxt := s.sndNxt + UInt32.ofNat data.length },
          some ((fresh s.sndNxt data.length (tcpAck ||| tcpPsh) now).toSeg s.rcvNxt slot))
  | close {now : Nat} {slot : Fin txSlots} (hst : s.state = .established ∨ s.state = .closeWait)
      (hslot : s.freeSlot = some slot) :
      Steps s (.close now)
        ({ s with
            pend := update s.pend slot (.fresh s.sndNxt 0 (tcpFin ||| tcpAck) now),
            sndNxt := s.sndNxt + 1,
            state := if s.state = .established then .finWait1 else .lastAck },
          some ((fresh s.sndNxt 0 (tcpFin ||| tcpAck) now).toSeg s.rcvNxt slot))
  | reset {e : Event} (hrst : ∀ seg now, e = .onSegment seg now → hasFlag seg.flags tcpRst) :
      Steps s e ({ s with state := .closed, reset := true, pend := fun _ => pendFree }, none)
  | retry {now : Nat} {i : Fin txSlots} (hst : s.state ≠ .closed)
      (hi : s.oldestExpired now = some i) :
      Steps s (.poll now)
        ({ s with pend := update s.pend i ((s.pend i).again now) },
          some ((s.pend i).toSeg s.rcvNxt i))
  | takeRx {n : Nat} : Steps s (.takeRx n) ((s.takeRx n).1, none)
  | windowUpdate (hlow : s.winLow) : Steps s .windowUpdate ({ s with winLow := false }, some s.ackSeg)

theorem steps (e : Event) : s.Steps e (s.step e) := by
  cases e with
  | onSyn ip seg now =>
    rw [step, onSyn]
    split
    · exact .idle nofun
    rename_i h
    rw [not_or, not_or, not_not, not_not] at h
    exact .syn h.1 h.2.1
  | onSegment seg now =>
    by_cases hrst : hasFlag seg.flags tcpRst = true
    · rw [step, onSegment, if_pos hrst]
      refine .reset fun seg' now' he => ?_
      obtain ⟨rfl, -⟩ := Event.onSegment.inj he
      exact hrst
    · exact .segment hrst
  | send data now =>
    rw [step, send]
    split
    · exact .idle nofun
    rename_i hst
    split
    · exact .idle nofun
    rename_i hlen
    rw [not_or, Nat.not_lt] at hlen
    split
    · exact .idle nofun
    · exact .send ((not_and_or.1 hst).imp not_not.1 not_not.1) hlen.1 hlen.2 ‹_›
  | close now =>
    rw [step, close]
    split
    · split
      · exact .idle nofun
      · exact .close ‹_› ‹_›
    · exact .idle nofun
  | poll now =>
    rw [step, poll]
    split
    · exact .idle nofun
    split
    · exact .idle nofun
    split
    · exact .reset nofun
    · exact .retry ‹_› ‹_›
  | takeRx n => exact .takeRx
  | windowUpdate =>
    rw [step, windowUpdate]
    split
    · rename_i hw
      exact .windowUpdate hw.1
    · exact .idle nofun

/-! ## What a segment can change

`on_segment` touches the sending side only through the cumulative ACK (or
wipes it on RST); everything else it does is about the receiving side and
the state. -/

/-- The sending side of two sockets agrees. -/
structure SameSender (s t : TcpSocket) : Prop where
  pend : t.pend = s.pend
  tx : t.tx = s.tx
  sndUna : t.sndUna = s.sndUna
  sndNxt : t.sndNxt = s.sndNxt
  reset : t.reset = s.reset

theorem SameSender.refl : SameSender s s := ⟨rfl, rfl, rfl, rfl, rfl⟩

variable {s t : TcpSocket} {seg : TcpSegment}

theorem SameSender.trans {u : TcpSocket} (h : SameSender s t) (h' : SameSender t u) :
    SameSender s u :=
  ⟨h'.pend.trans h.pend, h'.tx.trans h.tx, h'.sndUna.trans h.sndUna,
    h'.sndNxt.trans h.sndNxt, h'.reset.trans h.reset⟩

theorem SameSender.inflight (h : SameSender s t) : t.inflight = s.inflight := by
  simp [TcpSocket.inflight, h.pend]

variable (s) (seg)

theorem sameSender_storePayload :
    SameSender s (s.storePayload seg) := ⟨rfl, rfl, rfl, rfl, rfl⟩

theorem sameSender_takePayload : SameSender s (s.takePayload seg) := by
  rw [takePayload]
  split
  · exact sameSender_storePayload s seg
  · exact .refl s

theorem sameSender_takeFin : SameSender s (s.takeFin seg) := by
  rw [takeFin]
  split
  · exact ⟨rfl, rfl, rfl, rfl, rfl⟩
  · exact .refl s

theorem sameSender_settleFinWait : SameSender s s.settleFinWait := by
  rw [settleFinWait]
  split <;> exact ⟨rfl, rfl, rfl, rfl, rfl⟩

theorem sameSender_onData : SameSender s (s.onData seg).1 := by
  rw [onData]
  split
  · exact .refl s
  · exact ((sameSender_takePayload s seg).trans (sameSender_takeFin _ seg)).trans
      (sameSender_settleFinWait _)

theorem sameSender_onSynRcvd : SameSender s (s.onSynRcvd seg).1 := by
  rw [onSynRcvd]
  split
  · dsimp only
    split <;> exact ⟨rfl, rfl, rfl, rfl, rfl⟩
  · exact .refl s

theorem sameSender_onSynSent : SameSender s (s.onSynSent seg).1 := by
  rw [onSynSent]
  split <;> exact ⟨rfl, rfl, rfl, rfl, rfl⟩

variable {seg} {s}

/-- A segment without RST changes the sending side by its ACK alone. -/
theorem sameSender_onSegment (now : Nat) (h : ¬ hasFlag seg.flags tcpRst) :
    SameSender (s.processAck seg) (s.onSegment seg now).1 := by
  rw [onSegment, if_neg h]
  generalize s.processAck seg = t
  cases hst : t.state <;> simp only [hst]
  case synRcvd => exact sameSender_onSynRcvd t seg
  case synSent => exact sameSender_onSynSent t seg
  case established => exact sameSender_onData t seg
  case finWait1 => exact sameSender_onData t seg
  case finWait2 => exact sameSender_onData t seg
  case lastAck => split <;> exact ⟨rfl, rfl, rfl, rfl, rfl⟩
  all_goals exact .refl t

/-! ## State changes on a segment -/

/-- `seg` brings the peer's FIN in sequence. -/
def takesFin (s : TcpSocket) (seg : TcpSegment) : Prop :=
  ¬ (seg.payload ≠ [] ∧ seg.seq ≠ s.rcvNxt) ∧ (s.takePayload seg).finDue seg

instance (s : TcpSocket) (seg : TcpSegment) : Decidable (s.takesFin seg) :=
  inferInstanceAs (Decidable (_ ∧ _))

theorem takePayload_state (s : TcpSocket) (seg : TcpSegment) :
    (s.takePayload seg).state = s.state := by
  rw [takePayload]
  split <;> rfl

theorem processAck_pos (hack : hasFlag seg.flags tcpAck)
    (hadv : seg.ack - s.sndUna ≤ s.sndNxt - s.sndUna) : s.processAck seg =
      { s with
        pend := fun i =>
          if (s.pend i).used ∧ (s.pend i).endSeq - s.sndUna ≤ seg.ack - s.sndUna
          then { s.pend i with used := false } else s.pend i,
        sndUna := seg.ack } := by
  rw [processAck, if_pos hack]
  exact if_pos hadv

theorem processAck_neg (h : ¬ (hasFlag seg.flags tcpAck ∧
    seg.ack - s.sndUna ≤ s.sndNxt - s.sndUna)) : s.processAck seg = s := by
  rw [processAck]
  split
  · exact if_neg fun hadv => h ⟨‹_›, hadv⟩
  · rfl

variable (s) (seg)

theorem processAck_eq : ∃ pend una, s.processAck seg = { s with pend := pend, sndUna := una } := by
  by_cases h : hasFlag seg.flags tcpAck = true ∧ seg.ack - s.sndUna ≤ s.sndNxt - s.sndUna
  · exact ⟨_, _, processAck_pos h.1 h.2⟩
  · exact ⟨s.pend, s.sndUna, processAck_neg h⟩

theorem processAck_state : (s.processAck seg).state = s.state := by
  obtain ⟨pend, una, h⟩ := s.processAck_eq seg
  rw [h]

theorem processAck_rcvNxt : (s.processAck seg).rcvNxt = s.rcvNxt := by
  obtain ⟨pend, una, h⟩ := s.processAck_eq seg
  rw [h]

theorem processAck_rx : (s.processAck seg).rx = s.rx := by
  obtain ⟨pend, una, h⟩ := s.processAck_eq seg
  rw [h]

variable {seg} {s}

/-- The FIN test reads only the receiving side. -/
theorem takesFin_congr (hn : t.rcvNxt = s.rcvNxt) (hr : t.rx = s.rx) :
    t.takesFin seg ↔ s.takesFin seg := by
  have hst : t.stores seg ↔ s.stores seg := by simp [stores, fits, hr]
  have hp : (t.takePayload seg).rcvNxt = (s.takePayload seg).rcvNxt := by
    by_cases h : s.stores seg
    · simp [takePayload, hst, h, storePayload, hn]
    · simp [takePayload, hst, h, hn]
  simp [takesFin, finDue, hn, hp]

theorem takeFin_of_due (h : s.finDue seg) :
    (s.takeFin seg).state = if s.state = .established then .closeWait else .closed := by
  rw [takeFin, if_pos h]

theorem takeFin_of_not (h : ¬ s.finDue seg) : s.takeFin seg = s := by
  rw [takeFin, if_neg h]

theorem settleFinWait_of_ne (h : s.state ≠ .finWait1) : s.settleFinWait = s := by
  rw [settleFinWait, if_neg fun hc => h hc.1]

/-- A FIN in sequence closes our half-closed socket, or opens `CloseWait`. -/
theorem onData_takesFin (h : s.takesFin seg) :
    (s.onData seg).1.state = if s.state = .established then .closeWait else .closed := by
  have hst := takeFin_of_due h.2
  rw [takePayload_state] at hst
  have hne : ((s.takePayload seg).takeFin seg).state ≠ .finWait1 := by
    rw [hst]
    split <;> decide
  rw [onData, if_neg h.1]
  rw [settleFinWait_of_ne hne, hst]

/-- Without a FIN the state moves only when `FinWait1` has nothing left in
flight. -/
theorem onData_noFin (h : ¬ s.takesFin seg) : (s.onData seg).1.state = s.state ∨
      (s.state = .finWait1 ∧ ¬ s.inflight ∧
        ((s.onData seg).1.state = .closed ∨ (s.onData seg).1.state = .finWait2)) := by
  rw [onData]
  split
  · exact .inl rfl
  rename_i hseq
  have hfin : ¬ (s.takePayload seg).finDue seg := fun hf => h ⟨hseq, hf⟩
  rw [takeFin_of_not hfin, settleFinWait]
  split
  · rename_i hc
    rw [takePayload_state, (sameSender_takePayload s seg).inflight] at hc
    refine .inr ⟨hc.1, hc.2, ?_⟩
    split
    · exact .inl rfl
    · exact .inr rfl
  · exact .inl (takePayload_state s seg)

/-- Every state change a segment without RST can cause. -/
theorem onSegment_state (now : Nat) (h : ¬ hasFlag seg.flags tcpRst) :
    (s.onSegment seg now).1.state = s.state ∨ ((s.state = .synRcvd ∨ s.state = .synSent) ∧
      (s.onSegment seg now).1.state = .established) ∨
    (s.state = .established ∧ (s.onSegment seg now).1.state = .closeWait) ∨
    ((s.state = .finWait1 ∨ s.state = .finWait2) ∧ s.takesFin seg ∧
      (s.onSegment seg now).1.state = .closed) ∨
    (s.state = .finWait1 ∧ ¬ (s.onSegment seg now).1.inflight ∧
      ((s.onSegment seg now).1.state = .closed ∨ (s.onSegment seg now).1.state = .finWait2)) ∨
    (s.state = .lastAck ∧ ¬ (s.onSegment seg now).1.inflight ∧
      (s.onSegment seg now).1.state = .closed) := by
  have hinfl := (sameSender_onSegment (s := s) now h).inflight
  have hfin : (s.processAck seg).takesFin seg ↔ s.takesFin seg :=
    takesFin_congr (processAck_rcvNxt s seg) (processAck_rx s seg)
  rw [hinfl, ← hfin, ← processAck_state s seg, onSegment, if_neg h]
  clear hinfl hfin
  generalize s.processAck seg = t
  cases hst : t.state <;> simp only [hst, reduceCtorEq, false_and, or_false, false_or, or_true,
    true_and]
  case synRcvd =>
    rw [onSynRcvd]
    split
    · dsimp only
      split
      · exact .inr rfl
      · exact .inr rfl
    · simp [hst]
  case synSent =>
    rw [onSynSent]
    split <;> simp [hst]
  case established =>
    by_cases hf : t.takesFin seg
    · have := onData_takesFin hf
      simp [this, hst]
    rcases onData_noFin hf with h1 | h1
    · simp [h1, hst]
    · simp [hst] at h1
  case finWait1 =>
    by_cases hf : t.takesFin seg
    · have := onData_takesFin hf
      simp [this, hst, hf]
    rcases onData_noFin hf with h1 | ⟨_, h2, h3⟩
    · simp [h1, hst]
    · exact .inr (.inr ⟨h2, h3⟩)
  case finWait2 =>
    by_cases hf : t.takesFin seg
    · have := onData_takesFin hf
      simp [this, hst, hf]
    rcases onData_noFin hf with h1 | h1
    · simp [h1, hst]
    · simp [hst] at h1
  case lastAck =>
    split
    · simp [hst]
    · rename_i hi
      simp [hi]

end TcpSocket

/-! ## Runs -/

/-- A socket with the ghost records of its run. `acked` counts sequence
numbers from the initial one: `0` means the peer confirmed nothing yet, `1`
that it confirmed the SYN. -/
structure Conn where
  iss : UInt32
  sock : TcpSocket
  sent : List UInt8
  taken : List UInt8
  fin : Bool
  acked : Nat

namespace Conn

variable (c : Conn)

/-- Sequence numbers the socket has used: the SYN, the data and the FIN. -/
def total : Nat := 1 + c.sent.length + c.fin.toNat

/-- How far an incoming segment moves the peer's acknowledgement: the usual
rule, on unbounded counters. An ACK number counts if it names a position
between what is already confirmed and what was sent. -/
def ackedBy : Event → Nat
  | .onSegment seg _ =>
    let d := (seg.ack - wrap (c.iss.toNat + c.acked)).toNat
    if ¬ hasFlag seg.flags tcpRst ∧ hasFlag seg.flags tcpAck ∧ d ≤ c.total - c.acked
    then c.acked + d else c.acked
  | _ => c.acked

def step (e : Event) : Conn :=
  { iss := c.iss,
    sock := (c.sock.step e).1,
    sent := c.sent ++ c.sock.accepted e,
    taken := c.taken ++ c.sock.delivered e,
    fin := c.fin || c.sock.finSent e,
    acked := c.ackedBy e }

def run (es : List Event) : Conn := es.foldl step c

/-- The run after a call with the outcome `r`. -/
def after (e : Event) (r : TcpSocket × Option TxSeg) : Conn :=
  { iss := c.iss,
    sock := r.1,
    sent := c.sent ++ match e with
      | .send data _ => if r.2.isSome then data else []
      | _ => [],
    taken := c.taken ++ c.sock.delivered e,
    fin := c.fin || match e with
      | .close _ => r.2.isSome
      | _ => false,
    acked := c.ackedBy e }

theorem step_eq (e : Event) : c.step e = c.after e (c.sock.step e) := by
  cases e <;> rfl

/-- Sequence numbers are used by the segments `send` and `close` put out only. -/
theorem after_quiet {e : Event} {r : TcpSocket × Option TxSeg}
    (h : r.2 = none ∨ e.fills = false) :
    (c.after e r).sent = c.sent ∧ (c.after e r).fin = c.fin ∧ (c.after e r).total = c.total := by
  cases e <;> simp_all [after, total, Event.fills]

theorem total_send (hfin : c.fin = false) (data : List UInt8) (now : Nat)
    (t : TcpSocket) (a : TxSeg) :
    (c.after (.send data now) (t, some a)).total = c.total + data.length := by
  simp [total, after, hfin, Nat.add_assoc]

theorem total_close (hfin : c.fin = false) (now : Nat) (t : TcpSocket) (a : TxSeg) :
    (c.after (.close now) (t, some a)).total = c.total + 1 := by
  simp [total, after, hfin]

theorem ackedBy_of_ne {e : Event} (h : ∀ seg now, e ≠ .onSegment seg now) :
    c.ackedBy e = c.acked := by
  cases e <;> first | rfl | exact absurd rfl (h _ _)

/-- The run of a socket from an active open. -/
def ofConnect (localPort : UInt16) (remoteIp : Ipv4Addr) (remotePort : UInt16)
    (iss : UInt32) (now : Nat) : Conn :=
  { iss, sock := (connect localPort remoteIp remotePort iss now).1,
    sent := [], taken := [], fin := false, acked := 0 }

/-- The run of a socket from a passive open. -/
def ofListen (localPort : UInt16) (iss : UInt32) : Conn :=
  { iss, sock := listen localPort iss, sent := [], taken := [], fin := false, acked := 0 }

/-- Nothing was sent, received or acknowledged yet: `iss` is the number of
the SYN and the socket is as `connect` or `listen` leaves it. -/
inductive IsInitial : Conn → Prop where
  | connect (localPort : UInt16) (remoteIp : Ipv4Addr) (remotePort : UInt16)
      (iss : UInt32) (now : Nat) :
      IsInitial (ofConnect localPort remoteIp remotePort iss now)
  | listen (localPort : UInt16) (iss : UInt32) : IsInitial (ofListen localPort iss)

end Conn
end NexoOS.Net.Tcp
