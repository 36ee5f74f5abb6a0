import NexoOS.Net.TcpRun

/-!
# The send window

The invariant behind retransmission: every sequence number sent and not yet
acknowledged is covered by a used transmit slot. It is stated on unbounded
positions counted from the initial sequence number, and the 32-bit numbers
of the socket are their wrapped values; the four slots bound the window, so
the wrapped differences the code compares are true distances.
-/

namespace NexoOS.Net.Tcp

open Function

open SeqNum Finset TcpSocket

/-- Sequence numbers a pending segment takes. -/
def TxPend.span (p : TxPend) : Nat :=
  p.len + if hasFlag p.flags (tcpSyn ||| tcpFin) then 1 else 0

variable {p : TxPend} {iss acked total : Nat} {pend : Fin txSlots → TxPend} {lo : Fin txSlots → Nat}

theorem TxPend.span_data (seq : UInt32) (len now : Nat) :
    (fresh seq len (tcpAck ||| tcpPsh) now).span = len := by
  have hflag : hasFlag (tcpAck ||| tcpPsh) (tcpSyn ||| tcpFin) = false := by decide
  rw [span, fresh, hflag]
  rfl

theorem TxPend.span_data_pos {data : List UInt8} (hne : data ≠ []) (hmax : data.length ≤ mss)
    (seq : UInt32) (now : Nat) : 0 < (fresh seq data.length (tcpAck ||| tcpPsh) now).span ∧
      (fresh seq data.length (tcpAck ||| tcpPsh) now).span ≤ mss + 1 := by
  rw [span_data]
  exact ⟨List.length_pos_iff.2 hne, Nat.le_succ_of_le hmax⟩

theorem TxPend.span_mark (seq : UInt32) {flags : UInt8} (now : Nat)
    (h : hasFlag flags (tcpSyn ||| tcpFin) = true) : (fresh seq 0 flags now).span = 1 :=
  congrArg (0 + ·) (if_pos h)

theorem TxPend.span_fin (seq : UInt32) (now : Nat) :
    (fresh seq 0 (tcpFin ||| tcpAck) now).span = 1 := span_mark seq now (by decide)

theorem TxPend.span_congr {q : TxPend} (h : q.flags = p.flags ∧ q.len = p.len) :
    q.span = p.span := by
  rw [span, span, h.1, h.2]

theorem TxPend.endSeq_wrap {n : Nat} (h : p.seq = wrap n) : p.endSeq = wrap (n + p.span) := by
  rw [TxPend.endSeq, TxPend.span, h]
  split
  · rw [← add_assoc, wrap_add, wrap_add]
    rfl
  · rw [Nat.add_zero, wrap_add, UInt32.add_zero]
    rfl

/-- Where the used slots stand: slot `i` covers `[lo i, lo i + span)`. Past
the end of the window a slot may reach by one at most (the SYN of a socket
whose `snd_una` moved while it was still listening). -/
structure Slots (iss acked total : Nat) (pend : Fin txSlots → TxPend)
    (lo : Fin txSlots → Nat) : Prop where
  seq : ∀ i, (pend i).used → (pend i).seq = wrap (iss + lo i)
  live : ∀ i, (pend i).used → acked < lo i + (pend i).span
  inside : ∀ i, (pend i).used → lo i + (pend i).span ≤ total + 1
  short : ∀ i, (pend i).used → (pend i).span ≤ mss + 1
  cover : ∀ p, acked ≤ p → p < total →
    ∃ i, (pend i).used ∧ lo i ≤ p ∧ p < lo i + (pend i).span

theorem Slots.window_le (h : Slots iss acked total pend lo) :
    total - acked ≤ txSlots * (mss + 1) := by
  let used := univ.filter fun i => (pend i).used = true
  have hsub : Finset.Ico acked total ⊆
      used.biUnion fun i => Finset.Ico (lo i) (lo i + (pend i).span) := by
    intro p hp
    rw [mem_Ico] at hp
    obtain ⟨i, hi, h1, h2⟩ := h.cover p hp.1 hp.2
    rw [mem_biUnion]
    exact ⟨i, by simp [used, hi], mem_Ico.mpr ⟨h1, h2⟩⟩
  calc total - acked = (Finset.Ico acked total).card := (Nat.card_Ico ..).symm
    _ ≤ _ := card_le_card hsub
    _ ≤ used.card * (mss + 1) := by
        refine card_biUnion_le_card_mul _ _ _ fun i hi => ?_
        rw [Nat.card_Ico]
        have := h.short i (by simpa [used] using hi)
        omega
    _ ≤ txSlots * (mss + 1) := by
        refine Nat.mul_le_mul_right _ ?_
        calc used.card ≤ univ.card := card_filter_le _ _
          _ = txSlots := by simp

/-- With no slot in use everything sent is acknowledged. -/
theorem Slots.total_le (h : Slots iss acked total pend lo) (hfree : ∀ i, ¬ (pend i).used) :
    total ≤ acked := by
  by_contra hlt
  obtain ⟨i, hi, _⟩ := h.cover acked (le_refl _) (by omega)
  exact hfree i hi

/-- A new segment in a free slot extends the window at its end. -/
theorem Slots.push (h : Slots iss acked total pend lo) (hle : acked ≤ total) {slot : Fin txSlots}
    (hfree : ¬ (pend slot).used) (hused : p.used) (hseq : p.seq = wrap (iss + total))
    (hpos : 0 < p.span) (hshort : p.span ≤ mss + 1) :
    Slots iss acked (total + p.span) (update pend slot p) (update lo slot total) := by
  have hcases : ∀ i, (update pend slot p i).used →
      (i = slot ∧ update pend slot p i = p ∧ update lo slot total i = total) ∨
      ((pend i).used ∧ update pend slot p i = pend i ∧ update lo slot total i = lo i) := by
    intro i hi
    by_cases his : i = slot
    · subst his
      exact .inl ⟨rfl, update_self .., update_self ..⟩
    · rw [update_of_ne his] at hi
      exact .inr ⟨hi, update_of_ne his .., update_of_ne his ..⟩
  refine ⟨?_, ?_, ?_, ?_, ?_⟩
  · intro i hi
    rcases hcases i hi with ⟨_, h1, h2⟩ | ⟨hu, h1, h2⟩ <;> rw [h1, h2]
    · exact hseq
    · exact h.seq i hu
  · intro i hi
    rcases hcases i hi with ⟨_, h1, h2⟩ | ⟨hu, h1, h2⟩ <;> rw [h1, h2]
    · omega
    · exact h.live i hu
  · intro i hi
    rcases hcases i hi with ⟨_, h1, h2⟩ | ⟨hu, h1, h2⟩ <;> rw [h1, h2]
    · omega
    · have := h.inside i hu
      omega
  · intro i hi
    rcases hcases i hi with ⟨_, h1, h2⟩ | ⟨hu, h1, h2⟩ <;> rw [h1]
    · exact hshort
    · exact h.short i hu
  · intro q hq hlt
    by_cases hqt : q < total
    · obtain ⟨i, hi, h1, h2⟩ := h.cover q hq hqt
      have his : i ≠ slot := fun e => hfree (e ▸ hi)
      refine ⟨i, ?_⟩
      rw [update_of_ne his, update_of_ne his]
      exact ⟨hi, h1, h2⟩
    · refine ⟨slot, ?_⟩
      rw [update_self, update_self]
      exact ⟨hused, by omega, hlt⟩

theorem Slots.single (hfree : ∀ i, ¬ (pend i).used) (slot : Fin txSlots) (hused : p.used)
    (hseq : p.seq = wrap (iss + acked)) (hspan : p.span = 1) (hle : acked ≤ total)
    (hlt : total ≤ acked + 1) : Slots iss acked total (update pend slot p) (fun _ => acked) := by
  have honly : ∀ i, (update pend slot p i).used → update pend slot p i = p := by
    intro i hi
    by_cases hne : i = slot
    · rw [hne, update_self]
    · rw [update_of_ne hne] at hi
      exact absurd hi (hfree i)
  refine ⟨?_, ?_, ?_, ?_, ?_⟩
  · intro i hi
    rw [honly i hi, hseq]
  · intro i hi
    rw [honly i hi, hspan]
    exact Nat.lt_succ_self _
  · intro i hi
    rw [honly i hi, hspan]
    omega
  · intro i hi
    rw [honly i hi, hspan]
    omega
  · intro q h1 h2
    refine ⟨slot, ?_⟩
    rw [update_self, hspan]
    exact ⟨hused, h1, by omega⟩

variable {pend' : Fin txSlots → TxPend}

/-- The slots that reach past the new start of the window stay in use, and no others. -/
theorem Slots.keep {acked' : Nat} (h : Slots iss acked total pend lo) (hle : acked ≤ acked')
    (hold : ∀ i, (pend' i).used → ((pend i).used ∧ acked' < lo i + (pend i).span) ∧
      (pend' i).seq = (pend i).seq ∧ (pend' i).span = (pend i).span)
    (hnew : ∀ i, (pend i).used → acked' < lo i + (pend i).span → (pend' i).used) :
    Slots iss acked' total pend' lo := by
  refine ⟨fun i hi => ?_, fun i hi => ?_, fun i hi => ?_, fun i hi => ?_, fun q hq hlt => ?_⟩
  iterate 4
    obtain ⟨⟨hu, hlive⟩, hseq, hspan⟩ := hold i hi
    first
      | exact hseq.trans (h.seq i hu)
      | rw [hspan]
        first
          | exact hlive
          | exact h.inside i hu
          | exact h.short i hu
  obtain ⟨i, hu, h1, h2⟩ := h.cover q (hle.trans hq) hlt
  have hi := hnew i hu (lt_of_le_of_lt hq h2)
  refine ⟨i, hi, h1, ?_⟩
  rw [(hold i hi).2.2]
  exact h2

/-- Freeing the slots an ACK of `d` more numbers covers. -/
theorem Slots.ack {d : Nat} (h : Slots iss acked total pend lo)
    (hpend : ∀ i, pend' i = if (pend i).used ∧ lo i + (pend i).span ≤ acked + d
      then { pend i with used := false } else pend i) : Slots iss (acked + d) total pend' lo := by
  refine h.keep (Nat.le_add_right ..) (fun i hi => ?_) fun i hu hlive => ?_
  · rw [hpend i] at hi ⊢
    split at hi
    · cases hi
    rename_i hn
    rw [if_neg hn]
    exact ⟨⟨hi, Nat.lt_of_not_le fun hle => hn ⟨hi, hle⟩⟩, rfl, rfl⟩
  · rw [hpend i, if_neg fun hc => Nat.not_le_of_lt hlive hc.2]
    exact hu

theorem Slots.retry (h : Slots iss acked total pend lo) (k : Fin txSlots) (now : Nat) :
    Slots iss acked total (update pend k ((pend k).again now)) lo := by
  have hsame := fun i => TxPend.update_again pend k i now
  refine h.keep (le_refl _) (fun i hi => ?_) fun i hu _ => (hsame i).1.trans hu
  have hu := (hsame i).1.symm.trans hi
  exact ⟨⟨hu, h.live i hu⟩, (hsame i).2.1, TxPend.span_congr (hsame i).2.2⟩

/-! ## The window of a run -/

/-- The sending side of a run agrees with its ghost records. Before the
SYN is sent (`Listen`) there is nothing to cover. -/
structure Conn.Window (c : Conn) : Prop where
  una : c.sock.sndUna = wrap (c.iss.toNat + c.acked)
  nxt : c.sock.sndNxt = wrap (c.iss.toNat + c.total)
  acked_le : c.acked ≤ c.total
  fresh : c.sock.state = .listen → (∀ i, ¬ (c.sock.pend i).used) ∧ c.total = 1
  slots : c.sock.state ≠ .listen →
    ∃ lo, Slots c.iss.toNat c.acked c.total c.sock.pend lo

theorem TcpSocket.freeSlot_free {s : TcpSocket} {i : Fin txSlots}
    (h : s.freeSlot = some i) : ¬ (s.pend i).used := by
  have := List.find?_some h
  simpa using this

namespace Conn.Window

variable {c c' : Conn}

theorem small (h : c.Window) : c.total - c.acked < 2 ^ 31 := by
  by_cases hl : c.sock.state = .listen
  · have := (h.fresh hl).2
    omega
  obtain ⟨lo, hs⟩ := h.slots hl
  have := hs.window_le
  simp only [txSlots, mss] at this
  omega

/-- Nothing in flight after the handshake began: everything is confirmed. -/
theorem settled (h : c.Window) (hl : c.sock.state ≠ .listen)
    (hfree : ¬ c.sock.inflight) : c.acked = c.total := by
  obtain ⟨lo, hs⟩ := h.slots hl
  have : c.total ≤ c.acked := hs.total_le fun i hi => hfree (by
    simp only [inflight, List.any_eq_true]
    exact ⟨i, List.mem_finRange i, hi⟩)
  have := h.acked_le
  omega

/-- The test of the source, `seg.ack - snd_una <= snd_nxt - snd_una`, is the
test on unbounded counters. -/
theorem ack_test (h : c.Window) (ack : UInt32) :
    ack - c.sock.sndUna ≤ c.sock.sndNxt - c.sock.sndUna ↔
      (ack - wrap (c.iss.toNat + c.acked)).toNat ≤ c.total - c.acked := by
  have hle := h.acked_le
  have hsmall := h.small
  rw [UInt32.le_iff_toNat_le, h.una, h.nxt, wrap_sub (by omega) (by omega),
    show c.iss.toNat + c.total - (c.iss.toNat + c.acked) = c.total - c.acked from by omega]

theorem free_test (h : c.Window) {lo : Fin txSlots → Nat}
    (hs : Slots c.iss.toNat c.acked c.total c.sock.pend lo) {i : Fin txSlots}
    (hi : (c.sock.pend i).used) {u : UInt32} {d : Nat} (hd : u.toNat = d) :
    (c.sock.pend i).endSeq - c.sock.sndUna ≤ u ↔ lo i + (c.sock.pend i).span ≤ c.acked + d := by
  have hlive := hs.live i hi
  have hin := hs.inside i hi
  have hsmall := h.small
  rw [UInt32.le_iff_toNat_le, TxPend.endSeq_wrap (hs.seq i hi), h.una,
    wrap_sub (by omega) (by omega), hd]
  omega

/-- The cumulative ACK of a segment moves the window to `acked_by`. -/
theorem processAck (h : c.Window) (seg : TcpSegment) (now : Nat)
    (hrst : ¬ hasFlag seg.flags tcpRst) :
    ({ c with sock := c.sock.processAck seg, acked := c.ackedBy (.onSegment seg now) } :
      Conn).Window := by
  have hle := h.acked_le
  by_cases hc : hasFlag seg.flags tcpAck = true ∧
      (seg.ack - wrap (c.iss.toNat + c.acked)).toNat ≤ c.total - c.acked
  · obtain ⟨hack, hd⟩ := hc
    have hby : c.ackedBy (.onSegment seg now)
        = c.acked + (seg.ack - wrap (c.iss.toNat + c.acked)).toNat := if_pos ⟨hrst, hack, hd⟩
    obtain ⟨d, -, hseg, hdd⟩ := exists_of_sub_le hd
    rw [hby, processAck_pos hack ((h.ack_test seg.ack).2 hd), hdd]
    rw [hdd] at hd
    refine ⟨by rw [hseg, add_assoc], h.nxt, by show c.acked + d ≤ c.total; omega,
      fun hl => ⟨fun i => ?_, (h.fresh hl).2⟩, fun hl => ?_⟩
    · have := (h.fresh hl).1 i
      simp [this]
    · obtain ⟨lo, hs⟩ := h.slots hl
      refine ⟨lo, hs.ack fun i => ?_⟩
      by_cases hi : (c.sock.pend i).used = true
      · have := h.free_test hs hi (u := seg.ack - c.sock.sndUna) (d := d)
          (by rw [h.una]; exact hdd)
        simp only [hi, true_and, this]
      · simp [hi]
  · have hby : c.ackedBy (.onSegment seg now) = c.acked := if_neg fun hn => hc hn.2
    rw [hby, processAck_neg fun hn => hc ⟨hn.1, (h.ack_test seg.ack).1 hn.2⟩]
    exact h

/-! ## One call keeps the window -/

theorem keep (h : c.Window) (hiss : c'.iss = c.iss) (htotal : c'.total = c.total)
    (hacked : c'.acked = c.acked) (huna : c'.sock.sndUna = c.sock.sndUna)
    (hnxt : c'.sock.sndNxt = c.sock.sndNxt) (hfresh : c'.sock.state = .listen →
      c.sock.state = .listen ∧ ∀ i, ¬ (c'.sock.pend i).used) (hslots : c'.sock.state ≠ .listen →
      ∃ lo, Slots c.iss.toNat c.acked c.total c'.sock.pend lo) : c'.Window := by
  refine ⟨?_, ?_, ?_, fun hl => ⟨(hfresh hl).2, ?_⟩, ?_⟩
  · rw [huna, hiss, hacked, h.una]
  · rw [hnxt, hiss, htotal, h.nxt]
  · rw [htotal, hacked]
    exact h.acked_le
  · rw [htotal]
    exact (h.fresh (hfresh hl).1).2
  · rw [hiss, htotal, hacked]
    exact hslots

/-- A call that leaves the sending side and its ghost records alone. -/
theorem frame (h : c.Window) (hiss : c'.iss = c.iss) (htotal : c'.total = c.total)
    (hacked : c'.acked = c.acked) (hsame : TcpSocket.SameSender c.sock c'.sock)
    (hstate : c'.sock.state = .listen ↔ c.sock.state = .listen) : c'.Window := by
  refine h.keep hiss htotal hacked hsame.sndUna hsame.sndNxt (fun hl => ⟨hstate.1 hl, ?_⟩) fun hl => ?_
  · rw [hsame.pend]
    exact (h.fresh (hstate.1 hl)).1
  · rw [hsame.pend]
    exact h.slots fun hl' => hl (hstate.2 hl')

theorem push (h : c.Window) (hl : c.sock.state ≠ .listen) {slot : Fin txSlots} {p : TxPend}
    (hslot : c.sock.freeSlot = some slot) (hused : p.used)
    (hseq : p.seq = c.sock.sndNxt) (hpos : 0 < p.span) (hshort : p.span ≤ mss + 1)
    (hiss : c'.iss = c.iss) (hacked : c'.acked = c.acked) (htotal : c'.total = c.total + p.span)
    (huna : c'.sock.sndUna = c.sock.sndUna)
    (hnxt : c'.sock.sndNxt = c.sock.sndNxt + UInt32.ofNat p.span)
    (hpend : c'.sock.pend = update c.sock.pend slot p)
    (hl' : c'.sock.state ≠ .listen) : c'.Window := by
  have hle := h.acked_le
  obtain ⟨lo, hs⟩ := h.slots hl
  refine ⟨?_, ?_, by omega, fun hc => absurd hc hl', fun _ => ⟨update lo slot c.total, ?_⟩⟩
  · rw [huna, hiss, hacked, h.una]
  · rw [hnxt, hiss, htotal, h.nxt, ← add_assoc, wrap_add _ p.span]
    rfl
  · rw [hiss, hacked, htotal, hpend]
    exact hs.push hle (freeSlot_free hslot) hused (by rw [hseq, h.nxt]) hpos hshort

theorem step (h : c.Window) (hfin : c.sock.state = .established ∨ c.sock.state = .closeWait →
    c.fin = false) {e : Event} {r : TcpSocket × Option TxSeg} (hs : c.sock.Steps e r)
    (hr : r.1.reset = false) : (c.after e r).Window := by
  have hopen : c.sock.state = .established ∨ c.sock.state = .closeWait →
      c.sock.state ≠ .listen := by
    rintro (hst | hst) <;> rw [hst] <;> nofun
  cases hs with
  | idle hne => exact h.frame rfl (c.after_quiet (.inl rfl)).2.2 (c.ackedBy_of_ne hne) (.refl _) Iff.rfl
  | syn hst _ =>
    -- the SYN-ACK occupies slot 0 from the position `snd_una` is at
    obtain ⟨hfree, hone⟩ := h.fresh hst
    refine h.keep rfl (c.after_quiet (.inr rfl)).2.2 rfl rfl rfl nofun fun _ =>
      ⟨fun _ => c.acked, ?_⟩
    exact Slots.single hfree 0 rfl h.una (TxPend.span_mark _ _ (by decide)) h.acked_le (by omega)
  | @segment seg now hrst =>
    have hstate := onSegment_state (s := c.sock) now hrst
    refine (h.processAck seg now hrst).frame rfl (c.after_quiet (.inr rfl)).2.2 rfl
      (sameSender_onSegment now hrst) ?_
    show (c.sock.onSegment seg now).1.state = _ ↔ (c.sock.processAck seg).state = _
    rw [processAck_state]
    rcases hstate with hs | ⟨_ | _, hs⟩ | ⟨_, hs⟩ | ⟨_ | _, _, hs⟩ | ⟨_, _, hs | hs⟩ | ⟨_, _, hs⟩ <;>
      simp_all
  | @send data now slot hst hne hmax hslot =>
    obtain ⟨hpos, hshort⟩ := TxPend.span_data_pos hne hmax c.sock.sndNxt now
    refine h.push (hopen hst) hslot rfl rfl hpos hshort rfl rfl ?_ rfl ?_ rfl (hopen hst) <;>
      rw [TxPend.span_data]
    · exact c.total_send (hfin hst) ..
    · rfl
  | @close now slot hst hslot =>
    have hspan := TxPend.span_fin c.sock.sndNxt now
    refine h.push (hopen hst) hslot rfl rfl (hspan ▸ Nat.one_pos) (hspan.le.trans (by decide)) rfl rfl ?_
      rfl ?_ rfl ?_
    · rw [hspan]
      exact c.total_close (hfin hst) ..
    · rw [hspan]
      rfl
    · show (if _ then _ else _) ≠ _
      split <;> nofun
  | reset => cases hr
  | @retry now k hst hk =>
    have hsame := fun i => (TxPend.update_again c.sock.pend k i now).1
    refine h.keep rfl (c.after_quiet (.inr rfl)).2.2 rfl rfl rfl
      (fun hl => ⟨hl, fun i => ?_⟩) fun hl => ?_
    · show ¬ (update c.sock.pend k _ i).used
      rw [hsame i]
      exact (h.fresh hl).1 i
    · obtain ⟨lo, hslots⟩ := h.slots hl
      exact ⟨lo, hslots.retry k now⟩
  | takeRx =>
    exact h.frame rfl (c.after_quiet (.inl rfl)).2.2 rfl ⟨rfl, rfl, rfl, rfl, rfl⟩ Iff.rfl
  | windowUpdate =>
    exact h.frame rfl (c.after_quiet (.inr rfl)).2.2 rfl ⟨rfl, rfl, rfl, rfl, rfl⟩ Iff.rfl

theorem initial (h : c.IsInitial) : c.Window := by
  have hnxt : ∀ iss : UInt32, iss + 1 = wrap (iss.toNat + 1) := fun iss => by
    rw [← wrap_succ, wrap_of_toNat]
  cases h with
  | connect localPort remoteIp remotePort iss now =>
    refine ⟨(wrap_of_toNat iss).symm, hnxt iss, Nat.zero_le _, nofun, fun _ => ⟨fun _ => 0, ?_⟩⟩
    exact Slots.single (fun _ => Bool.false_ne_true) 0 rfl (wrap_of_toNat iss).symm
      (TxPend.span_mark iss now (by decide)) (Nat.zero_le _) (Nat.le_refl _)
  | listen localPort iss =>
    exact ⟨(wrap_of_toNat iss).symm, hnxt iss, Nat.zero_le _,
      fun _ => ⟨fun _ => Bool.false_ne_true, rfl⟩, fun hl => absurd rfl hl⟩

end Conn.Window
end NexoOS.Net.Tcp
