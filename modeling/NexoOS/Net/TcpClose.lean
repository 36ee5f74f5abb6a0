import NexoOS.Net.TcpWindow

/-!
# Orderly close

When may a socket report `Closed` without `reset`? The intent is that the
peer has then acknowledged everything, our FIN included. The machine keeps
to it on every path but one: in `FinWait1` an in-sequence FIN of the peer
closes the socket whatever is still in flight. The results below say that
this is the only way to lose data silently, and that it always does.
-/

namespace NexoOS.Net.Tcp

open SeqNum TcpSocket

/-- States a socket is in once our FIN was sent. -/
def State.closing : State → Bool
  | .finWait1 | .finWait2 | .lastAck | .closed => true
  | .listen | .synRcvd | .synSent | .established | .closeWait => false

/-- States that claim our FIN acknowledged. -/
def State.done : State → Bool
  | .finWait2 | .closed => true
  | _ => false

namespace TcpSocket

/-- A peer FIN in sequence finds everything we sent acknowledged, the ACK it
carries included. Asked in `FinWait1` only. -/
def Orderly (s : TcpSocket) : Event → Prop
  | .onSegment seg _ =>
    ¬ hasFlag seg.flags tcpRst → s.state = .finWait1 → s.takesFin seg →
      s.sndUna = s.sndNxt ∨ (hasFlag seg.flags tcpAck ∧ seg.ack = s.sndNxt)
  | _ => True

instance (s : TcpSocket) (e : Event) : Decidable (s.Orderly e) :=
  match e with
  | .onSegment _ _ => inferInstanceAs (Decidable (_ → _ → _ → _))
  | .onSyn .. | .send .. | .close .. | .poll .. | .takeRx .. | .windowUpdate => isTrue trivial

variable {s : TcpSocket} {e : Event} {r : TcpSocket × Option TxSeg}

theorem processAck_reset (s : TcpSocket) (seg : TcpSegment) :
    (s.processAck seg).reset = s.reset := by
  obtain ⟨pend, una, h⟩ := s.processAck_eq seg
  rw [h]

theorem Steps.reset_closed (hs : s.Steps e r) (h : s.reset = true → s.state = .closed) :
    (r.1.reset = true → r.1.state = .closed) ∧ (s.reset = true → r.1.reset = true) := by
  cases hs with
  | syn hst => exact ⟨fun hr => absurd (hst.symm.trans (h hr)) nofun, id⟩
  | @segment seg now hrst =>
    have hr := (sameSender_onSegment (s := s) now hrst).reset
    rw [processAck_reset] at hr
    rw [hr]
    refine ⟨fun hr' => ?_, id⟩
    rcases onSegment_state (s := s) now hrst with
      hs | ⟨_ | _, hs⟩ | ⟨_, hs⟩ | ⟨_ | _, _, hs⟩ | ⟨_, _, hs | hs⟩ | ⟨_, _, hs⟩ <;>
      simp_all
  | close hst =>
    refine ⟨fun hr => ?_, id⟩
    rcases hst with hst | hst <;> exact absurd (hst.symm.trans (h hr)) nofun
  | reset => exact ⟨fun _ => rfl, fun _ => rfl⟩
  | _ => exact ⟨h, id⟩

end TcpSocket

/-! ## The closing invariant -/

namespace Conn

/-- A run between two calls, as long as nothing disorderly happened. -/
structure Sound (c : Conn) : Prop where
  reset_closed : c.sock.reset = true → c.sock.state = .closed
  window : c.sock.reset = false → c.Window
  fin : c.sock.reset = false → c.fin = c.sock.state.closing
  done : c.sock.reset = false → c.sock.state.done → c.acked = c.total

variable {c : Conn} {es : List Event}

theorem Sound.initial (h : c.IsInitial) : c.Sound := by
  refine ⟨?_, fun _ => .initial h, ?_, ?_⟩ <;> cases h <;> simp [ofConnect, ofListen, connect,
    listen, blank, State.closing, State.done]

variable {e : Event} {r : TcpSocket × Option TxSeg}

/-- `fin` records exactly the calls of `close` that took effect. -/
theorem after_fin (hs : c.sock.Steps e r) (h : c.fin = c.sock.state.closing)
    (hr : r.1.reset = false) : (c.after e r).fin = r.1.state.closing := by
  cases hs with
  | idle =>
    rw [(c.after_quiet (.inl rfl)).2.1]
    exact h
  | syn hst =>
    rw [(c.after_quiet (.inr rfl)).2.1, h, hst]
    rfl
  | @segment seg now hrst =>
    rw [(c.after_quiet (.inr rfl)).2.1, h]
    rcases onSegment_state (s := c.sock) now hrst with
      hs | ⟨h1 | h1, hs⟩ | ⟨h1, hs⟩ | ⟨h1 | h1, _, hs⟩ | ⟨h1, _, hs | hs⟩ | ⟨h1, _, hs⟩ <;>
      rw [hs]
    all_goals
      rw [h1]
      rfl
  | send => exact (Bool.or_false _).trans h
  | close =>
    refine (Bool.or_true _).trans ?_
    show true = State.closing (if _ then _ else _)
    split <;> rfl
  | reset => cases hr
  | _ =>
    rw [(c.after_quiet (.inr rfl)).2.1]
    exact h

/-- Once everything is acknowledged, only `send` and `close` can change it. -/
theorem ackedBy_of_eq (h : c.acked = c.total) (e : Event) : c.ackedBy e = c.acked := by
  cases e <;> simp only [ackedBy]
  split
  · rename_i hc
    omega
  · rfl

/-- In the window, `snd_una = snd_nxt` says that everything is acknowledged. -/
theorem Window.acked_iff (h : c.Window) : c.sock.sndUna = c.sock.sndNxt ↔ c.acked = c.total := by
  have hle := h.acked_le
  have hsmall := h.small
  rw [h.una, h.nxt]
  constructor
  · intro he
    have := wrap_inj he (by omega) (by omega)
    omega
  · intro he
    rw [he]

/-- The segment leaves nothing unacknowledged exactly if nothing was, or its
ACK names the end of what was sent. -/
theorem Window.ackedBy_iff (h : c.Window) {seg : TcpSegment} (now : Nat)
    (hrst : ¬ hasFlag seg.flags tcpRst) : c.ackedBy (.onSegment seg now) = c.total ↔
      c.sock.sndUna = c.sock.sndNxt ∨ (hasFlag seg.flags tcpAck ∧ seg.ack = c.sock.sndNxt) := by
  have hle := h.acked_le
  have hsmall := h.small
  rw [h.acked_iff]
  constructor
  · intro he
    simp only [ackedBy] at he
    split at he
    · rename_i hc
      obtain ⟨d, -, hseg, hd⟩ := exists_of_sub_le hc.2.2
      rw [hd] at he
      refine .inr ⟨hc.2.1, ?_⟩
      rw [hseg, h.nxt, ← he, Nat.add_assoc]
    · exact .inl he
  · rintro (he | ⟨hack, he⟩)
    · rw [ackedBy_of_eq he, he]
    · have hd : (seg.ack - wrap (c.iss.toNat + c.acked)).toNat = c.total - c.acked := by
        rw [he, h.nxt, wrap_sub (by omega) (by omega)]
        omega
      simp only [ackedBy]
      rw [if_pos ⟨hrst, hack, by omega⟩]
      omega

/-- A call other than `on_segment` that is not a reset never reaches a state
that claims our FIN acknowledged. -/
theorem after_done (hs : c.sock.Steps e r) (hseg : ∀ seg now, e ≠ .onSegment seg now)
    (hr : r.1.reset = false) (hd : r.1.state.done) :
    c.sock.state.done ∧ (c.after e r).total = c.total := by
  cases hs with
  | idle => exact ⟨hd, (c.after_quiet (.inl rfl)).2.2⟩
  | syn => cases hd
  | segment => exact absurd rfl (hseg _ _)
  | send hst =>
    change c.sock.state.done = true at hd
    rcases hst with hst | hst <;> rw [hst] at hd <;> cases hd
  | close =>
    change State.done (if _ then _ else _) = true at hd
    split at hd <;> cases hd
  | reset => cases hr
  | _ => exact ⟨hd, (c.after_quiet (.inr rfl)).2.2⟩

/-- An orderly segment reaches such a state only with everything confirmed. -/
theorem Sound.done_onSegment (h : c.Sound) (hr : c.sock.reset = false) {seg : TcpSegment}
    {now : Nat} (hrst : ¬ hasFlag seg.flags tcpRst) (ho : c.sock.Orderly (.onSegment seg now))
    (hw : (c.step (.onSegment seg now)).Window)
    (hd : (c.step (.onSegment seg now)).sock.state.done) :
    (c.step (.onSegment seg now)).acked = (c.step (.onSegment seg now)).total := by
  have htotal : (c.step (.onSegment seg now)).total = c.total := by
    simp [total, step, accepted, finSent]
  have hkeep : c.sock.state.done → (c.step (.onSegment seg now)).acked = c.total := fun hc =>
    (ackedBy_of_eq (h.done hr hc) (.onSegment seg now)).trans (h.done hr hc)
  have hsettled : (c.step (.onSegment seg now)).sock.state ≠ .listen →
      ¬ (c.sock.onSegment seg now).1.inflight →
      (c.step (.onSegment seg now)).acked = c.total := fun hl hfree => by
    rw [← htotal]
    exact hw.settled hl hfree
  rw [htotal]
  change (c.sock.onSegment seg now).1.state.done at hd
  change (c.sock.onSegment seg now).1.state ≠ .listen → _ at hsettled
  rcases onSegment_state (s := c.sock) now hrst with
    hs | ⟨_, hs⟩ | ⟨_, hs⟩ | ⟨h1 | h1, hf, hs⟩ | ⟨_, hfree, hs | hs⟩ | ⟨_, hfree, hs⟩
  · exact hkeep (hs ▸ hd)
  · rw [hs] at hd
    exact absurd hd (by decide)
  · rw [hs] at hd
    exact absurd hd (by decide)
  · exact ((h.window hr).ackedBy_iff now hrst).mpr (ho hrst h1 hf)
  · exact hkeep (by rw [h1]; rfl)
  all_goals exact hsettled (by rw [hs]; decide) hfree

theorem Sound.step (h : c.Sound) (e : Event) (ho : c.sock.Orderly e) : (c.step e).Sound := by
  rw [step_eq]
  have hs := c.sock.steps e
  generalize c.sock.step e = r at hs ⊢
  obtain ⟨hrc, hkeep⟩ := hs.reset_closed h.reset_closed
  have hback : r.1.reset = false → c.sock.reset = false := fun hr => by
    by_contra hc
    rw [hkeep (Bool.not_eq_false _ ▸ hc)] at hr
    cases hr
  have hwin : r.1.reset = false → (c.after e r).Window := fun hr => by
    refine (h.window (hback hr)).step (fun hs => ?_) hs hr
    rw [h.fin (hback hr)]
    rcases hs with hs | hs <;> rw [hs] <;> rfl
  refine ⟨hrc, hwin, fun hr => after_fin hs (h.fin (hback hr)) hr, fun hr hd => ?_⟩
  by_cases hseg : ∃ seg now, e = .onSegment seg now
  · obtain ⟨seg, now, rfl⟩ := hseg
    cases hs with
    | idle hne => exact absurd rfl (hne seg now)
    | segment hrst => exact h.done_onSegment (hback hr) hrst ho (hwin hr) hd
    | reset => cases hr
  · have hne : ∀ seg now, e ≠ .onSegment seg now := fun seg now he => hseg ⟨seg, now, he⟩
    obtain ⟨hd', htotal⟩ := after_done hs hne hr hd
    have hack := h.done (hback hr) hd'
    rw [htotal]
    exact (ackedBy_of_eq hack e).trans hack

/-- A disorderly FIN closes the socket with something unacknowledged. -/
theorem Sound.disorderly (h : c.Sound) {e : Event} (ho : ¬ c.sock.Orderly e) :
    (c.step e).sock.state = .closed ∧ (c.step e).sock.reset = false ∧
      (c.step e).acked ≠ (c.step e).total := by
  cases e <;> simp only [TcpSocket.Orderly, not_true_eq_false] at ho
  rename_i seg now
  simp only [Classical.not_imp] at ho
  obtain ⟨hrst, h1, hf, hack⟩ := ho
  have hr : c.sock.reset = false := by
    by_contra hr
    have := h.reset_closed (by simpa using hr)
    simp_all
  have hreset := (sameSender_onSegment (s := c.sock) now hrst).reset
  rw [processAck_reset] at hreset
  refine ⟨?_, hreset.trans hr, ?_⟩
  · show (c.sock.onSegment seg now).1.state = .closed
    have hfin : (c.sock.processAck seg).takesFin seg :=
      (takesFin_congr (processAck_rcvNxt ..)
        (processAck_rx ..)).mpr hf
    have hst : (c.sock.processAck seg).state = .finWait1 := by
      rw [processAck_state, h1]
    rw [onSegment, if_neg hrst]
    simp [hst, onData_takesFin hfin]
  · have htotal : (c.step (.onSegment seg now)).total = c.total := by
      simp [total, Conn.step, accepted, finSent]
    rw [htotal]
    exact fun he => hack (((h.window hr).ackedBy_iff now hrst).mp he)

/-! ## Whole runs -/

/-- Every call of the run is orderly at the socket it finds. -/
def OrderlyRun : Conn → List Event → Prop
  | _, [] => True
  | c, e :: es => c.sock.Orderly e ∧ (c.step e).OrderlyRun es

instance decidableOrderlyRun : (c : Conn) → (es : List Event) → Decidable (c.OrderlyRun es)
  | _, [] => isTrue trivial
  | c, e :: es => @instDecidableAnd _ _ _ (decidableOrderlyRun (c.step e) es)

/-- The socket reports an orderly end only with every byte `send` accepted
and its own FIN acknowledged. -/
def LossFree (c : Conn) : Prop :=
  c.sock.state = .closed → c.sock.reset = false → c.fin = true ∧ c.acked = c.total

instance (c : Conn) : Decidable c.LossFree :=
  inferInstanceAs (Decidable (_ → _ → _))

theorem Sound.lossFree (h : c.Sound) : c.LossFree := by
  intro hs hr
  refine ⟨?_, h.done hr (by rw [hs]; rfl)⟩
  rw [h.fin hr, hs]
  rfl

theorem Sound.run (h : c.Sound) (ho : c.OrderlyRun es) : (c.run es).Sound := by
  induction es generalizing c with
  | nil => exact h
  | cons e es ih => exact ih (h.step e ho.1) ho.2

theorem OrderlyRun.take (h : c.OrderlyRun es) (n : Nat) : c.OrderlyRun (es.take n) := by
  induction es generalizing c n with
  | nil => simpa using h
  | cons e es ih =>
    cases n with
    | zero => exact trivial
    | succ n => exact ⟨h.1, ih h.2 n⟩

/-- The converse: a run that is loss free at each of its states never met a
disorderly FIN. -/
theorem Sound.orderlyRun (h : c.Sound) (hl : ∀ n, (c.run (es.take n)).LossFree) :
    c.OrderlyRun es := by
  induction es generalizing c with
  | nil => exact trivial
  | cons e es ih =>
    have ho : c.sock.Orderly e := by
      by_contra ho
      obtain ⟨hs, hr, hne⟩ := h.disorderly ho
      exact hne (hl 1 hs hr).2
    exact ⟨ho, ih (h.step e ho) fun n => hl (n + 1)⟩

/-- Closing loses no data in a run from `connect` or `listen` exactly if no
in-sequence FIN of the peer meets `FinWait1` with something unacknowledged. -/
theorem closed_acknowledged_iff_orderly {c : Conn} (hc : c.IsInitial) (es : List Event) :
    (∀ n, (c.run (es.take n)).LossFree) ↔ c.OrderlyRun es :=
  ⟨(Sound.initial hc).orderlyRun, fun ho n => ((Sound.initial hc).run (ho.take n)).lossFree⟩

/-- An active open with initial sequence number 1000. -/
def sampleOpen : Conn := ofConnect 49152 (ipv4 10 0 2 2) 80 1000 0

/-- A segment of the peer, whose initial sequence number is 5000. -/
def samplePeer (seq ack : UInt32) (flags : UInt8) : Event :=
  .onSegment { srcPort := 80, dstPort := 49152, seq, ack, flags, window := 4096, payload := [] } 1

/-- Handshake, one byte, our FIN; then the peer's FIN acknowledges both. -/
def sampleOrderly : List Event :=
  [samplePeer 5000 1001 (tcpSyn ||| tcpAck), .send [120] 1, .close 1,
    samplePeer 5001 1003 (tcpFin ||| tcpAck)]

theorem sampleOrderly_acknowledged :
    sampleOpen.OrderlyRun sampleOrderly ∧ (sampleOpen.run sampleOrderly).sock.state = .closed ∧
    ∀ n, (sampleOpen.run (sampleOrderly.take n)).LossFree := by
  have ho : sampleOpen.OrderlyRun sampleOrderly := by decide
  exact ⟨ho, by decide, (closed_acknowledged_iff_orderly (.connect ..) sampleOrderly).mpr ho⟩

/-- The same run, but the peer's FIN acknowledges the SYN only: the socket
ends in `Closed` without `reset`, and neither the byte nor our FIN ever
reached the peer. -/
theorem finWait1_fin_loses_data :
    let c := sampleOpen.run [samplePeer 5000 1001 (tcpSyn ||| tcpAck), .send [120] 1, .close 1,
      samplePeer 5001 1001 (tcpFin ||| tcpAck)]
    c.sock.state = .closed ∧ c.sock.reset = false ∧ c.fin = true ∧ c.sent = [120] ∧
      c.acked = 1 ∧ c.total = 3 ∧ ¬ c.LossFree := by
  decide

end Conn
end NexoOS.Net.Tcp
