import NexoOS.Net.TcpStream
import NexoOS.Lib.Logged

/-!
# Retransmission

What the transmit slots of a socket guarantee from the moment its SYN or
SYN-ACK is out: until the socket is `Closed` the used slots tile the send window,
each sequence number in exactly one of them. On top of that, which slot `poll`
chooses.
-/

namespace NexoOS.Net.Tcp

open Function SeqNum TxPend
open Conn (sampleOpen samplePeer sampleOrderly)

namespace TcpSocket

variable {s t : TcpSocket} {una nxt : Nat} {lo : Fin txSlots → Nat} {i j : Fin txSlots}

/-! ## The tiling -/

/-- The used slots tile the window `[una, nxt)`; an acknowledgement may have
moved `una` into the middle of the first one. -/
structure Tiled (s : TcpSocket) (una nxt : Nat) (lo : Fin txSlots → Nat) : Prop where
  unaSeq : s.sndUna = wrap una
  nxtSeq : s.sndNxt = wrap nxt
  le : una ≤ nxt
  slots : Slots 0 una nxt s.pend lo
  within : ∀ i, (s.pend i).used → 0 < (s.pend i).span ∧ lo i + (s.pend i).span ≤ nxt
  apart : ∀ i j, (s.pend i).used → (s.pend j).used → i ≠ j →
    lo i + (s.pend i).span ≤ lo j ∨ lo j + (s.pend j).span ≤ lo i

section
variable (h : s.Tiled una nxt lo)
include h

theorem Tiled.small : nxt - una < 2 ^ 31 := by
  have hle := h.slots.window_le
  simp only [txSlots, mss] at hle
  omega

theorem Tiled.seq (hi : (s.pend i).used) : (s.pend i).seq = wrap (lo i) := by
  rw [h.slots.seq i hi, zero_add]

/-- Used slots are close to each other and to the start of the window. -/
theorem Tiled.near (hi : (s.pend i).used) : lo i < una + 2 ^ 30 ∧ una < lo i + 2 ^ 30 ∧
    una < lo i + (s.pend i).span ∧ (s.pend i).span < 2 ^ 30 := by
  have hle := h.slots.window_le
  have hlive := h.slots.live i hi
  have hin := h.within i hi
  have hshort := h.slots.short i hi
  simp only [txSlots, mss] at hle hshort
  omega

theorem Tiled.keep {una' : Nat} (huna : t.sndUna = wrap una')
    (hnxt : t.sndNxt = s.sndNxt) (hle : una' ≤ nxt) (hslots : Slots 0 una' nxt t.pend lo)
    (hold : ∀ i, (t.pend i).used → (s.pend i).used ∧ (t.pend i).span = (s.pend i).span) :
    t.Tiled una' nxt lo := by
  refine ⟨huna, hnxt.trans h.nxtSeq, hle, hslots, fun i hi => ?_, fun i j hi hj => ?_⟩
  · rw [(hold i hi).2]
    exact h.within i (hold i hi).1
  · rw [(hold i hi).2, (hold j hj).2]
    exact h.apart i j (hold i hi).1 (hold j hj).1

theorem Tiled.same (hs : SameSender s t) : t.Tiled una nxt lo := by
  refine h.keep (hs.sndUna.trans h.unaSeq) hs.sndNxt h.le (hs.pend ▸ h.slots) fun i hi => ?_
  rw [hs.pend] at hi ⊢
  exact ⟨hi, rfl⟩

theorem Tiled.retry (k : Fin txSlots) (now : Nat) :
    ({ s with pend := update s.pend k ((s.pend k).again now) } : TcpSocket).Tiled una nxt lo := by
  have hsame := fun i => update_again s.pend k i now
  exact h.keep h.unaSeq rfl h.le (h.slots.retry k now) fun i hi =>
    ⟨(hsame i).1.symm.trans hi, span_congr (hsame i).2.2⟩

theorem Tiled.processAck (seg : TcpSegment) : ∃ una', (s.processAck seg).Tiled una' nxt lo := by
  have hle := h.le
  have hsmall := h.small
  have hold : ∀ i, ((s.processAck seg).pend i).used →
      (s.pend i).used ∧ ((s.processAck seg).pend i).span = (s.pend i).span := fun i hi =>
    (processAck_slot hi).imp id (congrArg _)
  by_cases hc : hasFlag seg.flags tcpAck = true ∧ seg.ack - s.sndUna ≤ s.sndNxt - s.sndUna
  · rw [processAck_pos hc.1 hc.2] at hold ⊢
    have hadv := hc.2
    rw [UInt32.le_iff_toNat_le, h.unaSeq, h.nxtSeq, wrap_sub hle (by omega)] at hadv
    obtain ⟨d, hd, hack, hdist⟩ := exists_of_sub_le hadv
    refine ⟨una + d, h.keep hack rfl (by omega) (h.slots.ack fun i => ?_) hold⟩
    by_cases hi : (s.pend i).used = true
    · -- the test of the source is the one on positions
      have hlive := h.slots.live i hi
      have hin := (h.within i hi).2
      have hfree : (s.pend i).endSeq - s.sndUna ≤ seg.ack - s.sndUna ↔
          lo i + (s.pend i).span ≤ una + d := by
        rw [UInt32.le_iff_toNat_le, endSeq_wrap (h.seq hi), h.unaSeq,
          wrap_sub (by omega) (by omega), hdist]
        omega
      simp only [hi, true_and, hfree]
    · simp [hi]
  · rw [processAck_neg hc]
    exact ⟨una, h⟩

theorem Tiled.push {slot : Fin txSlots} {p : TxPend}
    (hslot : s.freeSlot = some slot) (hused : p.used) (hseq : p.seq = s.sndNxt)
    (hpos : 0 < p.span) (hshort : p.span ≤ mss + 1) (huna : t.sndUna = s.sndUna)
    (hnxt : t.sndNxt = s.sndNxt + UInt32.ofNat p.span) (hpend : t.pend = update s.pend slot p) :
    t.Tiled una (nxt + p.span) (update lo slot nxt) := by
  have hslots := h.slots.push h.le (freeSlot_free hslot) hused (by rw [hseq, h.nxtSeq, zero_add])
    hpos hshort
  refine ⟨huna.trans h.unaSeq, ?_, Nat.le_add_right_of_le h.le, hpend ▸ hslots, fun i => ?_, fun i j => ?_⟩
  · rw [hnxt, h.nxtSeq, wrap_add]
    rfl
  · rw [hpend]
    by_cases hi : i = slot
    · rw [hi, update_self, update_self]
      exact fun _ => ⟨hpos, le_refl _⟩
    · rw [update_of_ne hi, update_of_ne hi]
      exact fun hu => (h.within i hu).imp id Nat.le_add_right_of_le
  · rw [hpend]
    by_cases hi : i = slot
    · rw [hi, update_self, update_self]
      intro _ hu hne
      rw [update_of_ne hne.symm] at hu ⊢
      rw [update_of_ne hne.symm]
      exact .inr (h.within j hu).2
    · rw [update_of_ne hi, update_of_ne hi]
      intro hui hu hne
      by_cases hj : j = slot
      · rw [hj, update_self, update_self]
        exact .inl (h.within i hui).2
      rw [update_of_ne hj] at hu ⊢
      rw [update_of_ne hj]
      exact h.apart i j hui hu hne

end

/-! ## Runs -/

/-- The socket's SYN or SYN-ACK is out. -/
inductive Started : TcpSocket → Prop where
  | connect (localPort : UInt16) (remoteIp : Ipv4Addr) (remotePort : UInt16) (iss : UInt32)
      (now : Nat) : Started (connect localPort remoteIp remotePort iss now).1
  | accept (localPort : UInt16) (iss : UInt32) (ip : Ipv4Addr) (seg : TcpSegment) (now : Nat)
      (h : ((listen localPort iss).onSyn ip seg now).2.isSome) :
      Started ((listen localPort iss).onSyn ip seg now).1

/-- Until the socket is closed its slots tile its window. -/
structure Inv (s : TcpSocket) : Prop where
  started : s.state ≠ .listen
  tiled : s.state ≠ .closed → ∃ una nxt lo, s.Tiled una nxt lo

theorem Tiled.first {pend : Fin txSlots → TxPend} {iss : UInt32} {p : TxPend} (hu : p.used)
    (hseq : p.seq = iss) (hspan : p.span = 1) (hfree : ∀ i, ¬ (pend i).used)
    (huna : s.sndUna = iss) (hnxt : s.sndNxt = iss + 1) (hpend : s.pend = update pend 0 p) :
    s.Tiled iss.toNat (iss.toNat + 1) fun _ => iss.toNat := by
  have hat : ∀ i, (s.pend i).used → i = 0 := by
    intro i hi
    by_contra hne
    rw [hpend, update_of_ne hne] at hi
    exact hfree i hi
  refine ⟨?_, ?_, Nat.le_succ _, ?_, fun i hi => ?_, fun i j hi hj hne => ?_⟩
  · rw [huna, wrap_of_toNat]
  · rw [hnxt, ← wrap_succ, wrap_of_toNat]
  · rw [hpend]
    exact Slots.single hfree 0 hu (by rw [hseq, zero_add, wrap_of_toNat]) hspan (Nat.le_succ _)
      (le_refl _)
  · rw [hat i hi, hpend, update_self, hspan]
    exact ⟨Nat.one_pos, le_refl _⟩
  · exact absurd ((hat i hi).trans (hat j hj).symm) hne

theorem Inv.start (h : s.Started) : s.Inv := by
  cases h with
  | connect localPort remoteIp remotePort iss now =>
    exact ⟨fun hs => (by cases hs), fun _ => ⟨_, _, _, Tiled.first (s := (connect _ _ _ _ _).1) rfl rfl
      (span_mark iss now (by decide)) (fun _ => Bool.false_ne_true) rfl rfl rfl⟩⟩
  | accept localPort iss ip seg now h =>
    unfold onSyn at h ⊢
    split at h
    · cases h
    rename_i hc
    rw [if_neg hc]
    exact ⟨fun hs => (by cases hs), fun _ => ⟨_, _, _, Tiled.first rfl rfl
      (span_mark iss now (by decide)) (fun _ => Bool.false_ne_true) rfl rfl rfl⟩⟩

theorem Inv.same (h : s.Inv) (hs : SameSender s t) (hst : t.state = s.state) : t.Inv := by
  refine ⟨hst ▸ h.started, fun hne => ?_⟩
  obtain ⟨una, nxt, lo, ht⟩ := h.tiled (hst ▸ hne)
  exact ⟨una, nxt, lo, ht.same hs⟩

theorem Inv.onSegment (h : s.Inv) {seg : TcpSegment} (now : Nat)
    (hrst : ¬ hasFlag seg.flags tcpRst) : (s.onSegment seg now).1.Inv := by
  have hstate := onSegment_state (s := s) now hrst
  refine ⟨fun hc => h.started ((Steps.segment hrst).listen hc), fun hne => ?_⟩
  have hopen : s.state ≠ .closed := by
    intro hc
    simp only [hc, reduceCtorEq, false_and, or_false] at hstate
    exact hne hstate
  obtain ⟨una, nxt, lo, ht⟩ := h.tiled hopen
  obtain ⟨una', ht'⟩ := ht.processAck seg
  exact ⟨una', nxt, lo, ht'.same (sameSender_onSegment now hrst)⟩

theorem Inv.push (h : s.Inv) {slot : Fin txSlots} {p : TxPend}
    (hopen : s.state = .established ∨ s.state = .closeWait) (hslot : s.freeSlot = some slot)
    (hused : p.used) (hseq : p.seq = s.sndNxt) (hpos : 0 < p.span) (hshort : p.span ≤ mss + 1)
    (huna : t.sndUna = s.sndUna) (hnxt : t.sndNxt = s.sndNxt + UInt32.ofNat p.span)
    (hpend : t.pend = update s.pend slot p) (hst : t.state ≠ .listen) : t.Inv := by
  refine ⟨hst, fun _ => ?_⟩
  obtain ⟨una, nxt, lo, ht⟩ := h.tiled (by rcases hopen with hs | hs <;> rw [hs] <;> nofun)
  exact ⟨_, _, _, ht.push hslot hused hseq hpos hshort huna hnxt hpend⟩

theorem Inv.step (h : s.Inv) {e : Event} {r : TcpSocket × Option TxSeg} (hs : s.Steps e r) :
    r.1.Inv := by
  cases hs with
  | idle => exact h
  | syn hst => exact absurd hst h.started
  | segment hrst => exact h.onSegment _ hrst
  | @send data now slot hst hne hmax hslot =>
    obtain ⟨hpos, hshort⟩ := span_data_pos hne hmax s.sndNxt now
    refine h.push hst hslot rfl rfl hpos hshort rfl ?_ rfl h.started
    rw [span_data]
  | @close now slot hst hslot =>
    have hspan := span_fin s.sndNxt now
    refine h.push hst hslot rfl rfl (hspan ▸ Nat.one_pos) (hspan.le.trans (by decide)) rfl ?_ rfl ?_
    · rw [hspan]
      rfl
    · dsimp only
      split <;> nofun
  | reset => exact ⟨nofun, fun hne => absurd rfl hne⟩
  | @retry now k hst =>
    obtain ⟨una, nxt, lo, ht⟩ := h.tiled hst
    exact ⟨h.started, fun _ => ⟨una, nxt, lo, ht.retry k now⟩⟩
  | takeRx | windowUpdate => exact h.same ⟨rfl, rfl, rfl, rfl, rfl⟩ rfl

theorem rx_le_step (h : s.rx.length ≤ rxCap) (e : Event) : (s.step e).1.rx.length ≤ rxCap := by
  by_cases hsyn : s.takesSyn e = true
  · rw [(step_takesSyn e hsyn).2.1]
    exact h
  rw [Bool.not_eq_true] at hsyn
  cases e with
  | takeRx n =>
    show (s.rx.drop _).length ≤ _
    rw [List.length_drop]
    exact (Nat.sub_le ..).trans h
  | _ =>
    obtain ⟨data, fin, hr⟩ := received_step _ rfl hsyn
    rw [hr.rx]
    exact hr.room h

/-! ## The window is covered -/

/-- The sequence number is sent and not acknowledged. -/
def InWindow (s : TcpSocket) (x : UInt32) : Prop := x - s.sndUna < s.sndNxt - s.sndUna

/-- The slot is in use and holds the sequence number. -/
def Covers (s : TcpSocket) (i : Fin txSlots) (x : UInt32) : Prop :=
  (s.pend i).used ∧ (x - (s.pend i).seq).toNat < (s.pend i).span

theorem Tiled.covered (h : s.Tiled una nxt lo) {x : UInt32} (hx : s.InWindow x) :
    ∃! i, s.Covers i x := by
  have hle := h.le
  have hsmall := h.small
  rw [InWindow, UInt32.lt_iff_toNat_lt, h.unaSeq, h.nxtSeq, wrap_sub hle (by omega)] at hx
  obtain ⟨d, -, rfl, hd⟩ := exists_of_sub_le hx.le
  rw [hd] at hx
  obtain ⟨i, hi, hlo, hhi⟩ := h.slots.cover (una + d) (by omega) (by omega)
  refine ⟨i, ⟨hi, ?_⟩, fun j hj => ?_⟩
  · have hnear := h.near hi
    rw [h.seq hi, wrap_sub hlo (by omega)]
    omega
  obtain ⟨hju, hjx⟩ := hj
  rw [h.seq hju] at hjx
  obtain ⟨e, -, hxe, he⟩ := exists_of_sub_le hjx.le
  rw [he] at hjx
  have hnear := h.near hju
  have hpos : una + d = lo j + e := wrap_inj hxe (by omega) (by omega)
  by_contra hne
  have hapart := h.apart j i hju hi hne
  omega

theorem Tiled.reaches (h : s.Tiled una nxt lo) (hi : (s.pend i).used) :
    ∃ x, s.InWindow x ∧ s.Covers i x := by
  have hle := h.le
  have hsmall := h.small
  have hnear := h.near hi
  have hin := h.within i hi
  -- the first number of the slot that is still in the window
  obtain ⟨m, hua, hlo, hm⟩ : ∃ m, una ≤ m ∧ lo i ≤ m ∧ m < lo i + (s.pend i).span := by
    by_cases hc : una ≤ lo i
    · exact ⟨lo i, hc, le_refl _, by omega⟩
    · exact ⟨una, le_refl _, by omega, by omega⟩
  refine ⟨wrap m, ?_, hi, ?_⟩
  · rw [InWindow, UInt32.lt_iff_toNat_lt, h.unaSeq, h.nxtSeq, wrap_sub hle (by omega),
      wrap_sub (by omega) (by omega)]
    omega
  · rw [h.seq hi, wrap_sub (by omega) (by omega)]
    omega

def turn (s : TcpSocket) (e : Event) : TcpSocket × List TxSeg :=
  ((s.step e).1, (s.step e).2.toList)

theorem Inv.run (h : s.Started) (es : List Event) : (runLogged turn s es).1.Inv :=
  Meets.inv (C := fun _ _ => True) (fun s e hs _ => hs.step (s.steps e)) (.start h) (meets_true ..)

theorem Started.rx_le (h : s.Started) : s.rx.length ≤ rxCap := by
  cases h with
  | connect localPort remoteIp remotePort iss now => exact Nat.zero_le _
  | accept localPort iss ip seg now h =>
    unfold onSyn
    split <;> exact Nat.zero_le _

/-- Until the socket is closed, each sequence number of the window is covered by
exactly one used slot and each used slot covers one of them; the receive buffer
never overflows. -/
theorem slots_tile_window (h : s.Started) (es : List Event) : let t := (runLogged turn s es).1
    (t.state ≠ .closed → (∀ x, t.InWindow x → ∃! i, t.Covers i x) ∧
      ∀ i, (t.pend i).used → ∃ x, t.InWindow x ∧ t.Covers i x) ∧ t.rx.length ≤ rxCap := by
  refine ⟨fun hopen => ?_, ?_⟩
  · obtain ⟨una, nxt, lo, ht⟩ := (Inv.run h es).tiled hopen
    exact ⟨fun x hx => ht.covered hx, fun i hi => ht.reaches hi⟩
  · exact Meets.inv (C := fun _ _ => True) (I := fun s : TcpSocket => s.rx.length ≤ rxCap)
      (fun _ e hs _ => rx_le_step hs e) h.rx_le (meets_true ..)

theorem slots_tile_window_connect :
    let t := (runLogged turn sampleOpen.sock sampleOrderly.dropLast).1
    t.state ≠ .closed ∧ ∃! i, t.Covers i 1002 := by
  have hopen : (runLogged turn sampleOpen.sock sampleOrderly.dropLast).1.state ≠ .closed := by decide
  exact ⟨hopen, ((slots_tile_window (.connect ..) sampleOrderly.dropLast).1 hopen).1 1002
    (by unfold InWindow; decide)⟩

/-- In every run the slots of an open socket hold all that is not acknowledged. -/
theorem in_flight_le (h : s.Started) (es : List Event) : let t := (runLogged turn s es).1
    t.state ≠ .closed → (t.sndNxt - t.sndUna).toNat ≤ txSlots * (mss + 1) := by
  intro t hopen
  obtain ⟨una, nxt, lo, ht⟩ := (Inv.run h es).tiled hopen
  have := ht.small
  rw [ht.nxtSeq, ht.unaSeq, wrap_sub ht.le (by omega)]
  exact ht.slots.window_le

theorem in_flight_le_connect :
    let t := (runLogged turn sampleOpen.sock sampleOrderly.dropLast).1
    (t.sndNxt - t.sndUna).toNat ≤ txSlots * (mss + 1) :=
  in_flight_le (.connect ..) sampleOrderly.dropLast (by decide)

/-! ## The oldest segment first -/

/-- The expired slot with the lowest sequence number, in the order of the window. -/
def Oldest (s : TcpSocket) (now : Nat) (i : Fin txSlots) : Prop :=
  s.Expired now i ∧ ∀ j, s.Expired now j → ((s.pend j).seq - (s.pend i).seq).toNat < 2 ^ 31

/-- An acknowledgement ended in the middle of the slot. -/
def PartlyAcked (s : TcpSocket) (i : Fin txSlots) : Prop :=
  0 < (s.sndUna - (s.pend i).seq).toNat ∧ (s.sndUna - (s.pend i).seq).toNat < (s.pend i).span

/-- The slot `poll` acts on. -/
def chosen (s : TcpSocket) (now : Nat) : Option (Fin txSlots) :=
  if s.state = .closed then none else s.oldestExpired now

/-- What `poll` does with a slot: it gives up, or sends it again. -/
def retransmit (s : TcpSocket) (now : Nat) (i : Fin txSlots) : TcpSocket × Option TxSeg :=
  if (s.pend i).retries ≥ maxRetries then
    ({ s with state := .closed, reset := true, pend := fun _ => pendFree }, none)
  else
    ({ s with
        pend := update s.pend i
          { s.pend i with retries := (s.pend i).retries + 1, deadline := now + rtoNs } },
      some { seq := (s.pend i).seq, ack := s.rcvNxt, flags := (s.pend i).flags,
             payloadLen := (s.pend i).len, slot := i.val })

theorem poll_eq (s : TcpSocket) (now : Nat) :
    s.poll now = (s.chosen now).elim (s, none) (s.retransmit now) := by
  unfold poll chosen
  split
  · rfl
  · cases s.oldestExpired now <;> rfl

section Order

variable (h : s.Tiled una nxt lo)

include h

theorem Tiled.precedes (hi : (s.pend i).used) (hj : (s.pend j).used)
    (hlt : ((s.pend j).seq - (s.pend i).seq).toNat < 2 ^ 31) : lo i ≤ lo j := by
  have hni := h.near hi
  have hnj := h.near hj
  by_contra hc
  rw [h.seq hi, h.seq hj, wrap_sub_of_lt (by omega) (by omega)] at hlt
  omega

theorem Tiled.partlyAcked (hi : (s.pend i).used) : s.PartlyAcked i ↔ lo i < una := by
  have hni := h.near hi
  unfold PartlyAcked
  rw [h.unaSeq, h.seq hi]
  by_cases hc : lo i ≤ una
  · rw [wrap_sub hc (by omega)]
    omega
  · rw [wrap_sub_of_lt (by omega) (by omega)]
    omega

/-- The distance from `snd_una` the scan compares: a partly acknowledged slot seems
to be far ahead. -/
theorem Tiled.distance (hi : (s.pend i).used) : ((s.pend i).seq - s.sndUna).toNat =
    if lo i < una then 2 ^ 32 - (una - lo i) else lo i - una := by
  have hni := h.near hi
  rw [h.unaSeq, h.seq hi]
  split
  · rw [wrap_sub_of_lt (by omega) (by omega)]
  · rw [wrap_sub (by omega) (by omega)]

theorem Tiled.eq_of_lo (hi : (s.pend i).used) (hj : (s.pend j).used) (he : lo i = lo j) : i = j := by
  by_contra hne
  have hii := h.within i hi
  have hjj := h.within j hj
  have hapart := h.apart i j hi hj hne
  omega

theorem Tiled.oldest_iff {now : Nat} (ho : s.Oldest now i) :
    s.oldestExpired now = some i ↔ ¬ s.PartlyAcked i ∨ ∀ j, s.Expired now j → j = i := by
  obtain ⟨hi, hfirst⟩ := ho
  have hbest := best_oldestExpired s now
  have hle : ∀ j, s.Expired now j → lo i ≤ lo j := fun j hj => h.precedes hi.1 hj.1 (hfirst j hj)
  rw [h.partlyAcked hi.1]
  constructor
  · intro hsel
    rw [hsel] at hbest
    by_contra hc
    rw [not_or, not_not, not_forall] at hc
    obtain ⟨hpart, j, hc⟩ := hc
    obtain ⟨hj, hne⟩ := Classical.not_imp.1 hc
    have hkey := UInt32.le_iff_toNat_le.1 (hbest.2 j trivial hj)
    have hni := h.near hi.1
    have hnj := h.near hj.1
    have hjpos := (h.within j hj.1).1
    have hapart := h.apart j i hj.1 hi.1 hne
    have hij := hle j hj
    rw [h.distance hi.1, h.distance hj.1, if_pos hpart, if_neg (by omega)] at hkey
    omega
  · intro hc
    rcases hsel : s.oldestExpired now with _ | k
    · rw [hsel] at hbest
      exact absurd hi (hbest i trivial)
    rw [hsel] at hbest
    obtain ⟨hk, hmin⟩ := hbest
    refine congrArg some ?_
    rcases hc with hwhole | honly
    · have hkey := UInt32.le_iff_toNat_le.1 (hmin i trivial hi)
      have hik := hle k hk
      rw [h.distance hi.1, h.distance hk.1, if_neg hwhole, if_neg (by omega)] at hkey
      exact h.eq_of_lo hk.1 hi.1 (by omega)
    · exact honly k hk

end Order

/-- `poll` acts on the oldest expired slot, giving it up or sending it again, exactly
if the socket is not closed and no acknowledgement ended in the middle of that slot
or no other slot has expired. -/
theorem oldest_first_iff (h : s.Started) (es : List Event) {now : Nat} {i : Fin txSlots} :
    let t := (runLogged turn s es).1
    t.Oldest now i → (t.chosen now = some i ↔
      t.state ≠ .closed ∧ (¬ t.PartlyAcked i ∨ ∀ j, t.Expired now j → j = i)) ∧
    t.poll now = (t.chosen now).elim (t, none) (t.retransmit now) := by
  intro t ho
  refine ⟨?_, poll_eq t now⟩
  unfold chosen
  split
  · rename_i hc
    exact ⟨fun h => (by cases h), fun hn => absurd hc hn.1⟩
  rename_i hopen
  obtain ⟨una, nxt, lo, ht⟩ := (Inv.run h es).tiled hopen
  rw [ht.oldest_iff ho]
  exact ⟨fun hc => ⟨hopen, hc⟩, fun hc => hc.2⟩

/-- Two segments of ten bytes each, and then the peer's `ack`. -/
def sampleTwo (ack : UInt32) : TcpSocket :=
  (runLogged turn sampleOpen.sock [samplePeer 5000 1001 (tcpSyn ||| tcpAck),
    .send (List.replicate 10 1) 1, .send (List.replicate 10 2) 1, samplePeer 5001 ack tcpAck]).1

instance (s : TcpSocket) (now : Nat) (i : Fin txSlots) : Decidable (s.Oldest now i) :=
  inferInstanceAs (Decidable (_ ∧ ∀ _, _))

instance (s : TcpSocket) (i : Fin txSlots) : Decidable (s.PartlyAcked i) :=
  inferInstanceAs (Decidable (_ ∧ _))

theorem oldest_first_unacked :
    (sampleTwo 1001).Oldest (2 * rtoNs) 0 ∧ (sampleTwo 1001).chosen (2 * rtoNs) = some 0 := by
  have ho : (sampleTwo 1001).Oldest (2 * rtoNs) 0 := by decide
  exact ⟨ho, (oldest_first_iff (s := sampleOpen.sock) (.connect ..) _ ho).1.2 (by decide)⟩

/-- After an acknowledgement of half the first segment `poll` sends the second. -/
theorem partial_ack_retransmits_second :
    (sampleTwo 1006).Oldest (2 * rtoNs) 0 ∧ (sampleTwo 1006).chosen (2 * rtoNs) = some 1 ∧
    (((sampleTwo 1006).poll (2 * rtoNs)).2.map fun t => t.seq) = some 1011 := by
  decide

/-! ## Repeated segments of the peer -/

theorem onData_answers (seg : TcpSegment) : (s.onData seg).2 = some (s.onData seg).1.ackSeg ↔
      (seg.payload ≠ [] ∧ seg.seq ≠ s.rcvNxt) ∨ s.stores seg ∨ s.takesFin seg := by
  unfold onData takesFin
  by_cases hold : seg.payload ≠ [] ∧ seg.seq ≠ s.rcvNxt
  · rw [if_pos hold]
    exact ⟨fun _ => .inl hold, fun _ => rfl⟩
  rw [if_neg hold, or_iff_right hold, and_iff_right hold]
  split
  · rename_i h
    exact ⟨fun _ => h, fun _ => rfl⟩
  · rename_i h
    exact ⟨fun hc => (by cases hc), fun hc => absurd hc h⟩

theorem onSegment_answers (hs : s.state ∉ [.synSent, .synRcvd]) (seg : TcpSegment) (now : Nat) :
    (s.onSegment seg now).2 = some (s.onSegment seg now).1.ackSeg ↔
      hasFlag seg.flags tcpRst = false ∧ s.state ∈ [.established, .finWait1, .finWait2] ∧
        ((seg.payload ≠ [] ∧ seg.seq ≠ s.rcvNxt) ∨ s.stores seg ∨ s.takesFin seg) := by
  have hstores : (s.processAck seg).stores seg ↔ s.stores seg := by
    rw [stores, stores, fits, fits, processAck_rx]
  rw [← hstores, ← takesFin_congr (processAck_rcvNxt s seg) (processAck_rx s seg),
    ← processAck_state s seg, ← processAck_rcvNxt s seg, onSegment] at *
  cases hrst : hasFlag seg.flags tcpRst with
  | true => exact ⟨fun h => (by cases h), fun h => by cases h.1⟩
  | false =>
    generalize s.processAck seg = t at *
    cases hst : t.state <;> rw [hst] at hs <;>
      simp only [hst, reduceCtorEq, Bool.false_eq_true, if_false, false_and, true_and,
        List.mem_cons, List.not_mem_nil, or_false, or_true, not_true, onData_answers] at hs ⊢

/-- The sequence numbers that what comes in with a call can take. -/
def Event.arriving (e : Event) : Nat := e.incoming.elim 0 fun seg => seg.payload.length + 1

theorem rcvNxt_step (hs : s.state.unsynced = false) (e : Event) :
    (s.step e).1.state.unsynced = false ∧
      ∃ n ≤ Event.arriving e, (s.step e).1.rcvNxt = s.rcvNxt + wrap n := by
  have hsyn : s.takesSyn e = false := by
    by_contra hc
    rw [(step_takesSyn e (Bool.not_eq_false _ ▸ hc)).1] at hs
    cases hs
  by_cases he : takes e = true
  · cases e with
    | takeRx n => exact ⟨hs, 0, Nat.zero_le _, (UInt32.add_zero _).symm⟩
    | _ => cases he
  rw [Bool.not_eq_true] at he
  obtain ⟨data, fin, hr⟩ := received_step e he hsyn
  refine ⟨?_, ?_⟩
  · by_contra hc
    rw [Bool.not_eq_false] at hc
    rw [← hr.onward.2.2 hc, hc] at hs
    cases hs
  unfold Event.arriving
  cases hin : e.incoming with
  | none => exact ⟨0, Nat.zero_le _, ((s.steps e).quiet hin he).rcvNxt⟩
  | some seg =>
    refine ⟨data.length + fin.toNat, Nat.add_le_add ?_ (Bool.toNat_le _), hr.rcvNxt⟩
    by_cases hne : data = []
    · exact hne ▸ Nat.zero_le _
    · obtain ⟨-, seg', hseg, -, rfl⟩ := hr.origin hne
      exact (Option.some.inj (hin.symm.trans hseg)) ▸ Nat.le_refl _

theorem rcvNxt_run (hs : s.state.unsynced = false) (es : List Event) :
    ∃ n ≤ (es.map Event.arriving).sum, (runLogged turn s es).1.rcvNxt = s.rcvNxt + wrap n := by
  induction es generalizing s with
  | nil => exact ⟨0, Nat.le_refl _, (UInt32.add_zero _).symm⟩
  | cons e es ih =>
    obtain ⟨hs', n, hn, he⟩ := rcvNxt_step hs e
    obtain ⟨m, hm, hes⟩ := ih hs'
    refine ⟨n + m, ?_, hes.trans ?_⟩
    · rw [List.map_cons, List.sum_cons]
      exact Nat.add_le_add hn hm
    · rw [wrap_add, ← UInt32.add_assoc, ← he]

/-- The socket took the data of `seg` before the calls `es`, and what came in
since does not go round the sequence numbers. -/
def Accepted (seg : TcpSegment) (s : TcpSocket) : Prop :=
  ∃ (old : TcpSocket) (now : Nat) (es : List Event), seg.payload ≠ [] ∧
    (old.onSegment seg now).1.rx = old.rx ++ seg.payload ∧
    s = (runLogged turn (old.onSegment seg now).1 es).1 ∧
    seg.payload.length + 1 + (es.map Event.arriving).sum < 2 ^ 32

/-- What was taken is out of sequence from then on. -/
theorem Accepted.seq_ne {seg : TcpSegment} (h : s.Accepted seg) :
    hasFlag seg.flags tcpRst = false ∧ seg.payload ≠ [] ∧ seg.seq ≠ s.rcvNxt := by
  obtain ⟨old, now, es, hne, hrx, rfl, hlen⟩ := h
  have hgrows : (old.onSegment seg now).1.rx ≠ old.rx := fun hc =>
    hne (List.append_right_eq_self.1 (hrx.symm.trans hc))
  have hsyn : old.takesSyn (.onSegment seg now) = false := by
    by_contra hc
    exact hgrows (step_takesSyn (.onSegment seg now) (Bool.not_eq_false _ ▸ hc)).2.1
  obtain ⟨data, fin, hr⟩ := received_step (.onSegment seg now) rfl hsyn
  obtain rfl : data = seg.payload := List.append_cancel_left (hr.rx.symm.trans hrx)
  obtain ⟨hrecv, seg', hseg, hseq, -⟩ := hr.origin hne
  obtain rfl := Option.some.inj hseg
  have hun := (rcvNxt_step (State.receiving_iff.1 hrecv).2 (.onSegment seg now)).1
  obtain ⟨n, hn, hrun⟩ := rcvNxt_run hun es
  refine ⟨?_, hne, fun hc => ?_⟩
  · by_contra hrst
    refine hgrows ?_
    rw [onSegment, if_pos (Bool.not_eq_false _ ▸ hrst)]
  have hpos := List.length_pos_iff.2 hne
  have hfin := Bool.toNat_le fin
  have hround : wrap (seg.seq.toNat + (seg.payload.length + fin.toNat + n)) =
      wrap seg.seq.toNat := by
    rw [wrap_add, wrap_add _ n, wrap_of_toNat, ← UInt32.add_assoc]
    nth_rewrite 1 [hseq]
    rw [← hr.rcvNxt]
    exact (hc.trans hrun).symm
  have := wrap_inj hround (by omega) (by omega)
  omega

/-- After the handshake a segment, new or repeated, is answered with all that was
received exactly if it is no reset, the peer may still send, and it has data out of
sequence or brings data or a FIN that is taken. If the socket took its data before,
it is answered exactly if the peer may still send. -/
theorem repeated_answered_iff (hs : s.state ∉ [.synSent, .synRcvd]) (seg : TcpSegment) (now : Nat) :
    ((s.onSegment seg now).2 = some (s.onSegment seg now).1.ackSeg ↔
      hasFlag seg.flags tcpRst = false ∧ s.state ∈ [.established, .finWait1, .finWait2] ∧
        ((seg.payload ≠ [] ∧ seg.seq ≠ s.rcvNxt) ∨ s.stores seg ∨ s.takesFin seg)) ∧
    (s.Accepted seg → ((s.onSegment seg now).2 = some (s.onSegment seg now).1.ackSeg ↔
      s.state ∈ [.established, .finWait1, .finWait2])) := by
  have hiff := onSegment_answers hs seg now
  refine ⟨hiff, fun h => hiff.trans ?_⟩
  obtain ⟨hrst, hseq⟩ := h.seq_ne
  exact ⟨fun hc => hc.2.1, fun hst => ⟨hrst, hst, .inl hseq⟩⟩

def sampleAfter (es : List Event) : TcpSocket := (runLogged turn sampleOpen.sock es).1

/-- The peer's first byte. -/
def firstByte : TcpSegment := ⟨80, 49152, 5001, 1001, tcpAck, 4096, [7]⟩

/-- The peer sends its first byte again when it has been taken. -/
theorem repeated_answered_data :
    let s := sampleAfter [samplePeer 5000 1001 (tcpSyn ||| tcpAck), .onSegment firstByte 2]
    s.rx = [7] ∧ (s.onSegment firstByte 3).2 = some (s.onSegment firstByte 3).1.ackSeg := by
  refine ⟨by decide, ((repeated_answered_iff (by decide) firstByte 3).2 ?_).2 (by decide)⟩
  exact ⟨sampleAfter [samplePeer 5000 1001 (tcpSyn ||| tcpAck)], 2, [], by decide, by decide, rfl,
    by decide⟩

/-- The peer repeats its SYN-ACK, and later its FIN, each taken before: no answer. -/
theorem repeated_syn_and_fin_unanswered : let synAck := samplePeer 5000 1001 (tcpSyn ||| tcpAck)
    let fin := samplePeer 5001 1001 (tcpFin ||| tcpAck)
    (sampleAfter [synAck]).state = .established ∧ (sampleAfter [synAck]).rcvNxt = 5001 ∧
    ((sampleAfter [synAck]).step synAck).2 = none ∧
    (sampleAfter [synAck, fin]).state = .closeWait ∧ (sampleAfter [synAck, fin]).rcvNxt = 5002 ∧
    ((sampleAfter [synAck, fin]).step fin).2 = none := by
  decide

end TcpSocket
end NexoOS.Net.Tcp
