import NexoOS.Lib.Bytes

/-!
# The TCP socket of `libraries/net/src/tcp.rs`

The state machine as the source computes it: it knows neither frames nor
time, takes decoded segments and a clock, and returns the segment to emit.
Sequence numbers are `UInt32`, so every `wrapping_add`/`wrapping_sub` of the
source is the type's own arithmetic. The receive buffer `rx[..rx_len]` is
the list of its live bytes; each transmit slot keeps its whole `MSS`-byte
buffer, because a retransmission reads it again.
-/

namespace NexoOS.Net.Tcp

open Function

/-! ## Constants and data -/

def tcpFin : UInt8 := 0x01
def tcpSyn : UInt8 := 0x02
def tcpRst : UInt8 := 0x04
def tcpPsh : UInt8 := 0x08
def tcpAck : UInt8 := 0x10

/-- Time until the oldest pending segment is sent again. -/
def rtoNs : Nat := 500_000_000
/-- Retransmissions of one segment before the connection counts as reset. -/
def maxRetries : Nat := 5
/-- Segments in flight at once. -/
abbrev txSlots : Nat := 4
/-- Capacity of the receive buffer. -/
def rxCap : Nat := 4096
/-- Largest payload of a segment. -/
def mss : Nat := 1400
/-- `usize::MAX`, the slot of a segment without payload. -/
def noSlot : Nat := 2 ^ 64 - 1

inductive State where
  | closed
  | listen
  | synRcvd
  | synSent
  | established
  | finWait1
  | finWait2
  | closeWait
  | lastAck
  deriving DecidableEq, Repr

abbrev Ipv4Addr := Vector UInt8 4

def ipv4 (a b c d : UInt8) : Ipv4Addr := #v[a, b, c, d]

/-- A decoded incoming segment. -/
structure TcpSegment where
  srcPort : UInt16
  dstPort : UInt16
  seq : UInt32
  ack : UInt32
  flags : UInt8
  window : UInt16
  payload : List UInt8
  deriving DecidableEq

/-- A segment to emit; its payload is read from transmit slot `slot`. -/
structure TxSeg where
  seq : UInt32
  ack : UInt32
  flags : UInt8
  payloadLen : Nat
  slot : Nat
  deriving DecidableEq

/-- A segment in flight, kept for retransmission. -/
structure TxPend where
  used : Bool
  seq : UInt32
  len : Nat
  flags : UInt8
  deadline : Nat
  retries : Nat
  deriving DecidableEq

def pendFree : TxPend :=
  { used := false, seq := 0, len := 0, flags := 0, deadline := 0, retries := 0 }

structure TcpSocket where
  state : State
  reset : Bool
  peerClosed : Bool
  localPort : UInt16
  remoteIp : Ipv4Addr
  remotePort : UInt16
  sndNxt : UInt32
  sndUna : UInt32
  rcvNxt : UInt32
  tx : Fin txSlots → List UInt8
  pend : Fin txSlots → TxPend
  rx : List UInt8
  winLow : Bool

def hasFlag (flags f : UInt8) : Bool := flags &&& f != 0

/-- First sequence number after a pending segment: SYN and FIN take one. -/
def TxPend.endSeq (p : TxPend) : UInt32 :=
  p.seq + UInt32.ofNat p.len + if hasFlag p.flags (tcpSyn ||| tcpFin) then 1 else 0

/-! ## Opening -/

variable (localPort : UInt16)

def blank (iss : UInt32) : TcpSocket :=
  { state := .closed, reset := false, peerClosed := false, localPort,
    remoteIp := .replicate 4 0, remotePort := 0, sndNxt := iss + 1, sndUna := iss,
    rcvNxt := 0, tx := fun _ => List.replicate mss 0,
    pend := fun _ => pendFree, rx := [], winLow := false }

/-- Active open: the socket in `SynSent` and the SYN to emit. -/
def connect (remoteIp : Ipv4Addr) (remotePort : UInt16)
    (iss : UInt32) (now : Nat) : TcpSocket × TxSeg :=
  ({ blank localPort iss with
      state := .synSent, remoteIp, remotePort,
      pend := update (fun _ => pendFree) 0
        { used := true, seq := iss, len := 0, flags := tcpSyn,
          deadline := now + rtoNs, retries := 0 } },
    { seq := iss, ack := 0, flags := tcpSyn, payloadLen := 0, slot := 0 })

def listen (iss : UInt32) : TcpSocket :=
  { blank localPort iss with state := .listen }

namespace TcpSocket

variable (s : TcpSocket)

/-- In `Listen`, accept the SYN `seg` of `srcIp`: the SYN-ACK to emit. -/
def onSyn (srcIp : Ipv4Addr) (seg : TcpSegment) (now : Nat) : TcpSocket × Option TxSeg :=
  if s.state ≠ .listen ∨ ¬ hasFlag seg.flags tcpSyn ∨ hasFlag seg.flags tcpAck then
    (s, none)
  else
    ({ s with
        remoteIp := srcIp, remotePort := seg.srcPort, rcvNxt := seg.seq + 1,
        state := .synRcvd,
        -- the SYN-ACK is what is retransmitted
        pend := update s.pend 0
          { used := true, seq := s.sndUna, len := 0, flags := tcpSyn ||| tcpAck,
            deadline := now + rtoNs, retries := 0 } },
      some { seq := s.sndUna, ack := seg.seq + 1, flags := tcpSyn ||| tcpAck,
             payloadLen := 0, slot := 0 })

/-! ## Queries -/

def window : Nat := rxCap - s.rx.length

/-- Payload of a transmit slot, for emission and re-emission. -/
def slotPayload (slot len : Nat) : List UInt8 :=
  if h : slot < txSlots then (s.tx ⟨slot, h⟩).take (min len mss) else []

/-- Is any segment still waiting for its ACK? -/
def inflight : Bool :=
  (List.finRange txSlots).any fun i => (s.pend i).used

def freeSlot : Option (Fin txSlots) :=
  (List.finRange txSlots).find? fun i => !(s.pend i).used

def ackSeg : TxSeg :=
  { seq := s.sndNxt, ack := s.rcvNxt, flags := tcpAck, payloadLen := 0, slot := noSlot }

/-! ## Incoming segments -/

variable (seg : TcpSegment)

/-- Cumulative ACKs: an ACK inside the send window frees every slot it
covers and moves `snd_una`; one outside the window is ignored. -/
def processAck : TcpSocket :=
  if hasFlag seg.flags tcpAck then
    let adv := seg.ack - s.sndUna
    if adv ≤ s.sndNxt - s.sndUna then
      { s with
        pend := fun i =>
          if (s.pend i).used ∧ (s.pend i).endSeq - s.sndUna ≤ adv
          then { s.pend i with used := false } else s.pend i,
        sndUna := seg.ack }
    else s
  else s

/-- The payload of `seg` goes to the receive buffer, which has room. -/
def storePayload : TcpSocket :=
  let s := { s with
    rx := s.rx ++ seg.payload,
    rcvNxt := s.rcvNxt + UInt32.ofNat seg.payload.length }
  { s with winLow := s.winLow || decide (s.window < mss) }

/-- The whole payload fits into the receive buffer
(`take == seg.payload.len()`). -/
def fits : Prop :=
  min seg.payload.length (rxCap - s.rx.length) = seg.payload.length

instance (s : TcpSocket) (seg : TcpSegment) : Decidable (s.fits seg) :=
  inferInstanceAs (Decidable (_ = _))

/-- The payload of `seg` is taken: there is one and it fits. -/
def stores : Prop := seg.payload ≠ [] ∧ s.fits seg

instance (s : TcpSocket) (seg : TcpSegment) : Decidable (s.stores seg) :=
  inferInstanceAs (Decidable (_ ∧ _))

def onSynRcvd : TcpSocket × Option TxSeg :=
  if hasFlag seg.flags tcpAck ∧ seg.ack = s.sndNxt then
    let t := { s with state := .established }
    -- data may come with the handshake's last segment
    if seg.seq = s.rcvNxt ∧ s.stores seg then
      (t.storePayload seg, some (t.storePayload seg).ackSeg)
    else (t, none)
  else (s, none)

def onSynSent : TcpSocket × Option TxSeg :=
  if seg.flags &&& (tcpSyn ||| tcpAck) = tcpSyn ||| tcpAck ∧ seg.ack = s.sndNxt then
    let s := { s with rcvNxt := seg.seq + 1, state := .established }
    (s, some s.ackSeg)
  else (s, none)

/-- Without room nothing is stored nor confirmed, and the peer retransmits. -/
def takePayload : TcpSocket :=
  if s.stores seg then s.storePayload seg else s

/-- The peer's FIN, once everything before it has arrived. -/
def finDue : Prop :=
  hasFlag seg.flags tcpFin ∧ seg.seq + UInt32.ofNat seg.payload.length = s.rcvNxt

instance (s : TcpSocket) (seg : TcpSegment) : Decidable (s.finDue seg) :=
  inferInstanceAs (Decidable (_ ∧ _))

def takeFin : TcpSocket :=
  if s.finDue seg then
    { s with
      rcvNxt := s.rcvNxt + 1, peerClosed := true,
      -- a FIN after ours closes at once (no TIME_WAIT)
      state := if s.state = .established then .closeWait else .closed }
  else s

/-- Our FIN is out and nothing is in flight any more. -/
def settleFinWait : TcpSocket :=
  if s.state = .finWait1 ∧ ¬ s.inflight then
    { s with state := if s.peerClosed then .closed else .finWait2 }
  else s

/-- `Established`, `FinWait1` and `FinWait2`: data and FIN of the peer. -/
def onData : TcpSocket × Option TxSeg :=
  if seg.payload ≠ [] ∧ seg.seq ≠ s.rcvNxt then
    -- duplicate or out of order: repeat the current ACK
    (s, some s.ackSeg)
  else
    let t := ((s.takePayload seg).takeFin seg).settleFinWait
    (t, if s.stores seg ∨ (s.takePayload seg).finDue seg then some t.ackSeg else none)

/-- Process a received segment of this connection; the answer, if any. -/
def onSegment (_now : Nat) : TcpSocket × Option TxSeg :=
  if hasFlag seg.flags tcpRst then
    ({ s with state := .closed, reset := true, pend := fun _ => pendFree }, none)
  else
    let s := s.processAck seg
    match s.state with
    | .synRcvd => s.onSynRcvd seg
    | .synSent => s.onSynSent seg
    | .established | .finWait1 | .finWait2 => s.onData seg
    | .lastAck => (if s.inflight then s else { s with state := .closed }, none)
    | .closeWait | .closed | .listen => (s, none)

/-! ## Sending, closing, timers -/

/-- Send data: `Except.error true` = window full, `false` = not connected. -/
def send (data : List UInt8) (now : Nat) : TcpSocket × Except Bool TxSeg :=
  if s.state ≠ .established ∧ s.state ≠ .closeWait then (s, .error false)
  else if data = [] ∨ data.length > mss then (s, .error true)
  else
    match s.freeSlot with
    | none => (s, .error true)
    | some slot =>
      ({ s with
          tx := update s.tx slot (data ++ (s.tx slot).drop data.length),
          pend := update s.pend slot
            { used := true, seq := s.sndNxt, len := data.length,
              flags := tcpAck ||| tcpPsh, deadline := now + rtoNs, retries := 0 },
          sndNxt := s.sndNxt + UInt32.ofNat data.length },
        .ok { seq := s.sndNxt, ack := s.rcvNxt, flags := tcpAck ||| tcpPsh,
              payloadLen := data.length, slot := slot.val })

variable (now : Nat)

/-- Start closing; the FIN to emit (`none` = window full or not applicable). -/
def close : TcpSocket × Option TxSeg :=
  if s.state = .established ∨ s.state = .closeWait then
    match s.freeSlot with
    | none => (s, none)
    | some slot =>
      ({ s with
          pend := update s.pend slot
            { used := true, seq := s.sndNxt, len := 0, flags := tcpFin ||| tcpAck,
              deadline := now + rtoNs, retries := 0 },
          sndNxt := s.sndNxt + 1,
          state := if s.state = .established then .finWait1 else .lastAck },
        some { seq := s.sndNxt, ack := s.rcvNxt, flags := tcpFin ||| tcpAck,
               payloadLen := 0, slot := slot.val })
  else (s, none)

/-- One turn of the scan of `poll`: of the expired slots, keep the one whose
sequence number is lowest in window order. -/
def older (oldest : Option (Fin txSlots)) (i : Fin txSlots) : Option (Fin txSlots) :=
  if ¬ (s.pend i).used ∨ now < (s.pend i).deadline then oldest
  else
    match oldest with
    | none => some i
    | some o =>
      if (s.pend i).seq - s.sndUna < (s.pend o).seq - s.sndUna then some i else some o

def oldestExpired : Option (Fin txSlots) :=
  (List.finRange txSlots).foldl (s.older now) none

/-- Timer: retransmit the oldest expired slot, or give up. -/
def poll : TcpSocket × Option TxSeg :=
  if s.state = .closed then (s, none)
  else
    match s.oldestExpired now with
    | none => (s, none)
    | some i =>
      if (s.pend i).retries ≥ maxRetries then
        ({ s with state := .closed, reset := true, pend := fun _ => pendFree }, none)
      else
        ({ s with
            pend := update s.pend i
              { s.pend i with
                retries := (s.pend i).retries + 1, deadline := now + rtoNs } },
          some { seq := (s.pend i).seq, ack := s.rcvNxt, flags := (s.pend i).flags,
                 payloadLen := (s.pend i).len, slot := i.val })

/-! ## The application's side of reception -/

/-- Take up to `n` received bytes. -/
def takeRx (n : Nat) : TcpSocket × List UInt8 :=
  ({ s with rx := s.rx.drop (min s.rx.length n) }, s.rx.take (min s.rx.length n))

/-- Window update after the application drained the queue. -/
def windowUpdate : TcpSocket × Option TxSeg :=
  if s.winLow ∧ s.window ≥ mss then
    let s := { s with winLow := false }
    (s, some s.ackSeg)
  else (s, none)

end TcpSocket
end NexoOS.Net.Tcp
