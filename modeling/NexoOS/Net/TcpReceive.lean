import NexoOS.Net.TcpClose
import NexoOS.Lib.Stores

/-!
# The receiving side

What a call stores of the peer's data, whether it takes the peer's FIN, and what
it answers.
-/

namespace NexoOS.Net.Tcp

open SeqNum

/-- States in which no data of the peer can come any more. -/
def State.shut : State → Bool
  | .closeWait | .lastAck | .closed => true
  | _ => false

/-- States in which the peer's SYN is still to come. -/
def State.unsynced : State → Bool
  | .listen | .synSent => true
  | _ => false

/-- States in which payload is taken from segments. -/
def State.receiving : State → Bool
  | .synRcvd | .established | .finWait1 | .finWait2 => true
  | .closed | .listen | .synSent | .closeWait | .lastAck => false

theorem State.receiving_iff {a : State} :
    a.receiving = true ↔ a.shut = false ∧ a.unsynced = false := by
  cases a <;> simp [receiving, shut, unsynced]

/-- The peer's segments that a call hands to the socket. -/
def Event.incoming : Event → Option TcpSegment
  | .onSyn _ seg _ | .onSegment seg _ => some seg
  | .send .. | .close .. | .poll .. | .takeRx .. | .windowUpdate => none

/-- A state change that brings no data back and is not the answer to a SYN. -/
def State.Onward (a b : State) : Prop :=
  (a.shut = true → b.shut = true) ∧ (a.unsynced = true → b = a ∨ b.shut = true) ∧
    (b.unsynced = true → b = a)

theorem State.Onward.rfl' {a : State} : a.Onward a := ⟨id, fun _ => .inl rfl, fun _ => rfl⟩

theorem State.Onward.closed {a : State} : a.Onward .closed :=
  ⟨fun _ => rfl, fun _ => .inr rfl, nofun⟩

theorem hasFlag_syn_of_both {f : UInt8} (h : f &&& (tcpSyn ||| tcpAck) = tcpSyn ||| tcpAck) :
    hasFlag f tcpSyn := by
  by_contra hn
  have hz : f &&& tcpSyn = 0 := by simpa [hasFlag] using hn
  have hboth : (tcpSyn ||| tcpAck) &&& tcpSyn = tcpSyn := by decide
  have h' : f &&& ((tcpSyn ||| tcpAck) &&& tcpSyn) = (tcpSyn ||| tcpAck) &&& tcpSyn := by
    rw [← UInt8.and_assoc, h]
  rw [hboth, hz] at h'
  exact absurd h' (by decide)

namespace TcpSocket

variable {s : TcpSocket} {r : TcpSocket × Option TxSeg} {seg : TcpSegment}
  {inc : Option TcpSegment}

/-- What a call does to the receiving side: it stores `data`, which is the payload of
the segment that came in, takes the peer's FIN or not, and answers if it did either. -/
structure Received (s : TcpSocket) (r : TcpSocket × Option TxSeg) (inc : Option TcpSegment)
    (data : List UInt8) (fin : Bool) : Prop where
  rx : r.1.rx = s.rx ++ data
  rcvNxt : r.1.rcvNxt = s.rcvNxt + wrap (data.length + fin.toNat)
  peerClosed : r.1.peerClosed = (s.peerClosed || fin)
  room : s.rx.length ≤ rxCap → (s.rx ++ data).length ≤ rxCap
  onward : s.state.Onward r.1.state
  shut : fin = true → s.state.shut = false ∧ r.1.state.shut = true
  origin : data ≠ [] →
    s.state.receiving = true ∧ ∃ seg, inc = some seg ∧ seg.seq = s.rcvNxt ∧ data = seg.payload
  acked : ∀ t, r.2 = some t → t.ack = r.1.rcvNxt
  told : r.2 = none → data = [] ∧ fin = false

theorem Received.quiet (hrx : r.1.rx = s.rx) (hn : r.1.rcvNxt = s.rcvNxt)
    (hp : r.1.peerClosed = s.peerClosed) (hs : s.state.Onward r.1.state)
    (ha : ∀ t, r.2 = some t → t.ack = r.1.rcvNxt) : Received s r inc [] false := by
  refine ⟨?_, ?_, ?_, ?_, hs, nofun, fun h => absurd rfl h, ha, fun _ => ⟨rfl, rfl⟩⟩
  · rw [hrx, List.append_nil]
  · rw [hn]
    exact (UInt32.add_zero _).symm
  · rw [hp, Bool.or_false]
  · rw [List.append_nil]
    exact id

theorem Received.data_eq_nil {data : List UInt8} {fin : Bool} (h : Received s r inc data fin)
    (hs : s.state.unsynced = true) : data = [] := by
  by_contra hne
  exact absurd ((State.receiving_iff.1 (h.origin hne).1).2.symm.trans hs) Bool.false_ne_true

theorem length_of_stores (h : s.stores seg) : (s.rx ++ seg.payload).length ≤ rxCap := by
  have hne : seg.payload.length ≠ 0 := fun hc => h.1 (List.length_eq_zero_iff.1 hc)
  have hfits := h.2
  unfold fits at hfits
  rw [List.length_append]
  omega

theorem settleFinWait_receiver (s : TcpSocket) :
    s.settleFinWait.rx = s.rx ∧ s.settleFinWait.rcvNxt = s.rcvNxt ∧
    s.settleFinWait.peerClosed = s.peerClosed ∧
    (s.state.shut = true → s.settleFinWait.state.shut = true) := by
  unfold settleFinWait
  split
  · rename_i hs
    refine ⟨rfl, rfl, rfl, fun hshut => ?_⟩
    rw [hs.1] at hshut
    cases hshut
  · exact ⟨rfl, rfl, rfl, id⟩

/-- The payload of `seg` and its FIN, in the states that take them. -/
theorem received_onData (hs : s.state.shut = false) (hu : s.state.unsynced = false) (seg : TcpSegment) :
    ∃ data fin, Received s (s.onData seg) (some seg) data fin := by
  have hnext : (s.onData seg).1.state.unsynced = false := by
    by_cases hf : s.takesFin seg
    · rw [onData_takesFin hf]
      split <;> rfl
    rcases onData_noFin hf with hst | ⟨-, -, hst | hst⟩ <;> rw [hst]
    · exact hu
    · rfl
    · rfl
  unfold onData at hnext ⊢
  split
  · exact ⟨[], false, .quiet rfl rfl rfl .rfl' fun t ht => by rw [← Option.some.inj ht]; rfl⟩
  rename_i hseq
  rw [if_neg hseq] at hnext
  refine ⟨if s.stores seg then seg.payload else [], decide ((s.takePayload seg).finDue seg), ?_⟩
  obtain ⟨h1, h2, h3, h4⟩ := settleFinWait_receiver ((s.takePayload seg).takeFin seg)
  have htake : (s.takePayload seg).rx = s.rx ++ (if s.stores seg then seg.payload else []) ∧
      (s.takePayload seg).rcvNxt = s.rcvNxt +
        wrap (if s.stores seg then seg.payload else []).length ∧
      (s.takePayload seg).peerClosed = s.peerClosed := by
    unfold takePayload
    split
    · exact ⟨rfl, rfl, rfl⟩
    · exact ⟨(List.append_nil _).symm, (UInt32.add_zero _).symm, rfl⟩
  have hfin : ((s.takePayload seg).takeFin seg).rx = (s.takePayload seg).rx ∧
      ((s.takePayload seg).takeFin seg).rcvNxt = (s.takePayload seg).rcvNxt +
        wrap (decide ((s.takePayload seg).finDue seg)).toNat ∧
      ((s.takePayload seg).takeFin seg).peerClosed =
        ((s.takePayload seg).peerClosed || decide ((s.takePayload seg).finDue seg)) := by
    unfold takeFin
    by_cases hdue : (s.takePayload seg).finDue seg
    · rw [if_pos hdue, decide_eq_true hdue, Bool.or_true]
      exact ⟨rfl, rfl, rfl⟩
    · rw [if_neg hdue, decide_eq_false hdue, Bool.or_false]
      exact ⟨rfl, (UInt32.add_zero _).symm, rfl⟩
  constructor
  case rx => exact h1.trans (hfin.1.trans htake.1)
  case rcvNxt =>
    refine h2.trans ?_
    rw [hfin.2.1, htake.2.1, UInt32.add_assoc, ← wrap_add]
  case peerClosed => exact h3.trans (hfin.2.2.trans (by rw [htake.2.2]))
  case room =>
    split
    · rename_i hst
      exact fun _ => length_of_stores hst
    · rw [List.append_nil]
      exact id
  case onward =>
    refine ⟨fun h => absurd (hs.symm.trans h) Bool.false_ne_true, fun h => ?_, fun h => ?_⟩
    · exact absurd (hu.symm.trans h) Bool.false_ne_true
    · exact absurd (hnext.symm.trans h) Bool.false_ne_true
  case origin =>
    intro h
    refine ⟨State.receiving_iff.2 ⟨hs, hu⟩, seg, rfl, ?_⟩
    split at h
    · rename_i hst
      exact ⟨not_not.1 fun hc => hseq ⟨hst.1, hc⟩, if_pos hst⟩
    · exact absurd rfl h
  case shut =>
    intro h
    refine ⟨hs, h4 ?_⟩
    rw [takeFin_of_due (of_decide_eq_true h)]
    split <;> rfl
  case acked =>
    intro t ht
    split at ht
    · rw [← Option.some.inj ht]
      rfl
    · cases ht
  case told =>
    intro hno
    split at hno
    · cases hno
    rename_i hn
    rw [not_or] at hn
    exact ⟨if_neg hn.1, decide_eq_false hn.2⟩

theorem received_onSynRcvd (hs : s.state = .synRcvd) (seg : TcpSegment) :
    ∃ data fin, Received s (s.onSynRcvd seg) (some seg) data fin := by
  unfold onSynRcvd
  split
  · dsimp only
    split
    · rename_i hst
      refine ⟨seg.payload, false, rfl, rfl, (Bool.or_false _).symm, fun _ => length_of_stores hst.2,
        ?_, nofun, fun _ => ⟨by rw [hs]; rfl, seg, rfl, hst.1, rfl⟩, fun t ht => ?_, nofun⟩
      · rw [hs]
        exact ⟨nofun, nofun, nofun⟩
      · rw [← Option.some.inj ht]
        rfl
    · exact ⟨[], false, .quiet rfl rfl rfl (by rw [hs]; exact ⟨nofun, nofun, nofun⟩) nofun⟩
  · exact ⟨[], false, .quiet rfl rfl rfl .rfl' nofun⟩

theorem processAck_peerClosed (s : TcpSocket) (seg : TcpSegment) :
    (s.processAck seg).peerClosed = s.peerClosed := by
  obtain ⟨pend, una, h⟩ := s.processAck_eq seg
  rw [h]

theorem received_onSegment (seg : TcpSegment) (now : Nat)
    (hs : s.state = .synSent → (s.onSegment seg now).2 = none) :
    ∃ data fin, Received s (s.onSegment seg now) (some seg) data fin := by
  unfold onSegment at hs ⊢
  split
  · exact ⟨[], false, .quiet rfl rfl rfl .closed nofun⟩
  rename_i hrst
  rw [if_neg hrst] at hs
  -- the cumulative ACK leaves the receiving side alone
  have hack : ∀ {r data fin}, Received (s.processAck seg) r (some seg) data fin →
      Received s r (some seg) data fin := by
    intro r data fin h
    have hrx := processAck_rx s seg
    have hn := processAck_rcvNxt s seg
    have hst := processAck_state s seg
    exact ⟨hrx ▸ h.rx, hn ▸ h.rcvNxt, processAck_peerClosed s seg ▸ h.peerClosed, hrx ▸ h.room,
      hst ▸ h.onward, hst ▸ h.shut, hst ▸ hn ▸ h.origin, h.acked, h.told⟩
  suffices h : ∃ data fin, Received (s.processAck seg) _ (some seg) data fin by
    obtain ⟨data, fin, h⟩ := h
    exact ⟨data, fin, hack h⟩
  rw [← processAck_state s seg] at hs
  generalize s.processAck seg = v at hs
  dsimp only at hs ⊢
  cases hv : v.state with
  | synRcvd => exact received_onSynRcvd hv seg
  | synSent =>
    have hno := hs hv
    rw [hv] at hno
    dsimp only at hno ⊢
    unfold onSynSent at hno ⊢
    split at hno
    · cases hno
    rename_i hc
    rw [if_neg hc]
    exact ⟨[], false, .quiet rfl rfl rfl .rfl' nofun⟩
  | established | finWait1 | finWait2 =>
    exact received_onData (by rw [hv]; rfl) (by rw [hv]; rfl) seg
  | lastAck =>
    dsimp only
    split
    · exact ⟨[], false, .quiet rfl rfl rfl .rfl' nofun⟩
    · exact ⟨[], false, .quiet rfl rfl rfl .closed nofun⟩
  | closeWait | closed | listen => exact ⟨[], false, .quiet rfl rfl rfl .rfl' nofun⟩

/-- The call is the application's read. -/
def takes : Event → Bool
  | .takeRx _ => true
  | _ => false

/-- The call takes the peer's SYN. -/
def takesSyn (s : TcpSocket) : Event → Bool
  | .onSyn ip seg now => (s.onSyn ip seg now).2.isSome
  | .onSegment seg now => decide (s.state = .synSent) && (s.onSegment seg now).2.isSome
  | _ => false

theorem Steps.quiet {e : Event} (hs : s.Steps e r) (hin : e.incoming = none)
    (he : takes e = false) : Received s r none [] false := by
  cases hs with
  | idle => exact .quiet rfl rfl rfl .rfl' nofun
  | syn | segment => cases hin
  | send | retry | windowUpdate =>
    exact .quiet rfl rfl rfl .rfl' fun t ht => by rw [← Option.some.inj ht]; rfl
  | close hst =>
    refine .quiet rfl rfl rfl ?_ fun t ht => by rw [← Option.some.inj ht]; rfl
    rcases hst with hst | hst <;> rw [hst]
    · exact ⟨nofun, nofun, nofun⟩
    · exact ⟨fun _ => rfl, nofun, nofun⟩
  | reset => exact .quiet rfl rfl rfl .closed nofun
  | takeRx => cases he

/-- Every call but a read and the peer's SYN. -/
theorem received_step (e : Event) (he : takes e = false) (ho : s.takesSyn e = false) :
    ∃ data fin, Received s (s.step e) e.incoming data fin := by
  cases e with
  | onSyn ip seg now =>
    refine ⟨[], false, ?_⟩
    dsimp only [takesSyn] at ho
    rw [step, onSyn] at *
    split
    · exact .quiet rfl rfl rfl .rfl' fun _ ht => by cases ht
    rename_i hc
    rw [if_neg hc] at ho
    cases ho
  | onSegment seg now =>
    refine received_onSegment seg now fun hs => ?_
    dsimp only [takesSyn] at ho
    rw [decide_eq_true hs, Bool.true_and] at ho
    exact Option.not_isSome_iff_eq_none.1 (Bool.eq_false_iff.1 ho)
  | _ => exact ⟨[], false, (s.steps _).quiet rfl he⟩

/-- The peer's SYN sets the number of the first byte and is answered. -/
theorem step_takesSyn (e : Event) (h : s.takesSyn e = true) :
    s.state.unsynced = true ∧ (s.step e).1.rx = s.rx ∧
    (s.step e).1.peerClosed = s.peerClosed ∧ ((s.step e).1.state = .synRcvd ∨ (s.step e).1.state = .established) ∧
    (∃ seg, e.incoming = some seg ∧ hasFlag seg.flags tcpSyn ∧ (s.step e).1.rcvNxt = seg.seq + 1) ∧
    ∃ t, (s.step e).2 = some t ∧ t.ack = (s.step e).1.rcvNxt := by
  cases e with
  | onSyn ip seg now =>
    dsimp only [takesSyn, step] at h ⊢
    unfold onSyn at h ⊢
    split at h
    · cases h
    rename_i hc
    rw [if_neg hc]
    rw [not_or, not_or, not_not, not_not] at hc
    exact ⟨by rw [hc.1]; rfl, rfl, rfl, .inl rfl, ⟨seg, rfl, hc.2.1, rfl⟩, _, rfl, rfl⟩
  | onSegment seg now =>
    dsimp only [takesSyn, step] at h ⊢
    rw [Bool.and_eq_true, decide_eq_true_eq] at h
    obtain ⟨hs, h⟩ := h
    unfold onSegment at h ⊢
    split at h
    · cases h
    rename_i hrst
    rw [if_neg hrst, ← processAck_rx s seg, ← processAck_peerClosed s seg]
    have hv := (processAck_state s seg).trans hs
    dsimp only at h ⊢
    rw [hv] at h ⊢
    dsimp only at h ⊢
    unfold onSynSent at h ⊢
    split at h
    · rename_i hc
      rw [if_pos hc]
      exact ⟨by rw [hs]; rfl, rfl, rfl, .inr rfl, ⟨seg, rfl, hasFlag_syn_of_both hc.1, rfl⟩, _, rfl,
        rfl⟩
    · cases h
  | _ => cases h

end TcpSocket
end NexoOS.Net.Tcp
