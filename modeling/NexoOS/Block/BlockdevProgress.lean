import NexoOS.Block.BlockdevOrder
import NexoOS.Lib.Reach

/-!
# `blockdev` answers everything

A request that has been received is answered once the device has carried out
its command: the driver never sleeps with an answer at hand. Together with the
invariant of the loop this is that every message gets one reply, in order,
as long as the driver never receives with a full table. It forgets a message
that it receives then.
-/

namespace NexoOS.Block.Blockdev

open Function List

variable {cfg : Config} {seen : Nat → Disk → Prop} {s : State} {avail taken : List Nat}
  {used : List (Nat × Nat)}

theorem headReply_eq_none : s.headReply = none ↔ s.table.headReady s.done = false := by
  unfold State.headReply Table.headReady
  rcases s.table.order with _ | ⟨idx, rest⟩
  · simp
  dsimp only
  cases s.table.pending idx with
  | none => simp
  | some p =>
    cases p with
    | ready | io slot write len => simp

theorem headReply_eq_some {idx : Nat} {o : Option Nat} {r : Reply}
    (h : s.headReply = some (idx, o, r)) : ∃ rest, s.table.order = idx :: rest ∧
      (o = none ∧ s.table.pending idx = some .ready ∨
        ∃ slot write len, o = some slot ∧ s.table.pending idx = some (.io slot write len) ∧
          s.done slot = true) := by
  unfold State.headReply at h
  rcases hord : s.table.order with _ | ⟨i, rest⟩
  · rw [hord] at h
    cases h
  rw [hord] at h
  dsimp only at h
  rcases hp : s.table.pending i with _ | p
  · rw [hp] at h
    cases h
  rw [hp] at h
  cases p with
  | ready =>
    cases h
    exact ⟨rest, rfl, .inl ⟨rfl, hp⟩⟩
  | io slot write len =>
    dsimp only at h
    split at h
    · rename_i hdone
      cases h
      exact ⟨rest, rfl, .inr ⟨slot, write, len, rfl, hp, hdone⟩⟩
    · cases h

/-- What a message that comes in can change: it is one more entry at the end of the
order, or none, and the driver may stop. -/
structure Taken (s s' : State) : Prop where
  irqSeen : s'.irqSeen = s.irqSeen
  dev : s'.dev = s.dev
  chan : s'.chan = s.chan
  done : s'.done = s.done
  grows : s.table.Grows s'.table
  exit : s'.exit = s.exit ∨ s'.exit = some .panic ∨ s'.exit = some .crash

theorem taken_accept (s : State) {idx : Nat} (hfree : s.table.pending idx = none) (p : Plan) :
    Taken s (s.accept idx p) := by
  cases p with
  | reply r =>
    unfold State.accept State.setTable
    dsimp only
    split
    · exact ⟨rfl, rfl, rfl, rfl, .inl rfl, .inr (.inl rfl)⟩
    · exact ⟨rfl, rfl, rfl, rfl, .inr ⟨idx, .ready, hfree, rfl, rfl⟩, .inl rfl⟩
  | io c =>
    unfold State.accept State.submitSlot State.setTable
    dsimp only
    rcases chainSlot s.q (s.table.freeSlot.getD 0) c.write c.count with _ | q
    · exact ⟨rfl, rfl, rfl, rfl, .inl rfl, .inr (.inl rfl)⟩
    dsimp only
    split
    · exact ⟨rfl, rfl, rfl, rfl, .inl rfl, .inr (.inl rfl)⟩
    · exact ⟨rfl, rfl, rfl, rfl, .inr ⟨idx, .io (s.table.freeSlot.getD 0) c.write c.bytes, hfree,
        rfl, rfl⟩, .inl rfl⟩

theorem taken_handle (cfg : Config) (s : State) (m : Message) : Taken s (s.handle cfg m) := by
  unfold State.handle
  split
  · exact ⟨rfl, rfl, rfl, rfl, .inl rfl, .inl rfl⟩
  rename_i idx hidx
  have hfree := Option.isNone_iff_eq_none.mp (Table.find_range_some hidx).2
  split
  · exact taken_accept s hfree _
  dsimp only
  split
  · exact ⟨rfl, rfl, rfl, rfl, .inl rfl, .inr (.inr rfl)⟩
  · have h := taken_accept { s with served := s.served + 1 } hfree (plan cfg (.ok ‹_›))
    exact ⟨h.irqSeen, h.dev, h.chan, h.done, h.grows, h.exit⟩

/-- The driver goes to sleep only with the head of its queue at the device,
and what completes after its last look at the used ring wakes it. -/
structure Awake (cfg : Config) (s : State) : Prop where
  blocked : s.pc = .receive ∨ s.pc = .wait → s.table.headReady s.done = false
  waiting : s.pc = .wait → s.table.order ≠ []
  woken : s.pc ≠ .reap → s.q.popUsed ≠ none → s.dev.irqDue = true ∨ s.irqSeen < s.dev.irqs
  seen_le : s.irqSeen ≤ s.dev.irqs

namespace Awake

theorem start (cfg : Config) (disk : Disk) : Awake cfg (start cfg disk) where
  blocked := by simp [Blockdev.start]
  waiting := by simp [Blockdev.start]
  woken := by simp [Blockdev.start]
  seen_le := le_rfl

section
variable (h : Awake cfg s)
include h

theorem reap (hpc : s.pc = .reap) : Awake cfg s.reap := by
  unfold State.reap
  split
  · rename_i hnone
    exact ⟨by simp, by simp, fun _ hsome => absurd hnone hsome, h.seen_le⟩
  · refine ⟨?_, ?_, ?_, h.seen_le⟩ <;> simp [hpc]

theorem deliver (hpc : s.pc = .deliver) : Awake cfg s.deliver := by
  have hwoken := h.woken (by simp [hpc])
  unfold State.deliver
  split
  · rename_i hnone
    exact ⟨fun _ => headReply_eq_none.mp hnone, by simp, fun _ => hwoken, h.seen_le⟩
  · refine ⟨?_, ?_, fun _ => hwoken, h.seen_le⟩ <;> simp [hpc]
  · refine ⟨?_, ?_, fun _ => hwoken, h.seen_le⟩ <;> simp [hpc]

theorem receive (hpc : s.pc = .receive) : Awake cfg (s.receive cfg) := by
  unfold State.receive
  split
  · rename_i m chan _
    have ht := taken_handle cfg { s with chan } m
    refine ⟨by simp, by simp, by simp, ?_⟩
    show (State.handle cfg { s with chan } m).irqSeen ≤ (State.handle cfg { s with chan } m).dev.irqs
    rw [ht.irqSeen, ht.dev]
    exact h.seen_le
  · split
    · rename_i hne
      exact ⟨fun _ => h.blocked (.inl hpc), fun _ => hne, fun _ => h.woken (by simp [hpc]),
        h.seen_le⟩
    · exact h
  · exact ⟨h.blocked, h.waiting, h.woken, h.seen_le⟩
  · exact ⟨h.blocked, h.waiting, h.woken, h.seen_le⟩

theorem waitIrq : Awake cfg (s.waitIrq cfg) := by
  unfold State.waitIrq
  split
  · split
    · exact ⟨by simp, by simp, by simp, le_rfl⟩
    · exact h
  · exact ⟨by simp, by simp, by simp, h.seen_le⟩

theorem drive : Awake cfg (s.drive cfg) := by
  unfold State.drive
  split
  · exact h
  split
  · exact h.reap ‹_›
  · exact h.deliver ‹_›
  · exact h.receive ‹_›
  · exact h.waitIrq

theorem step (e : Event) : Awake cfg (s.step cfg e) := by
  cases e with
  | send m =>
    rw [State.step]
    split
    · exact h
    · exact ⟨h.blocked, h.waiting, h.woken, h.seen_le⟩
  | close => exact ⟨h.blocked, h.waiting, h.woken, h.seen_le⟩
  | take =>
    rw [State.step, State.take]
    split
    · exact h
    · exact ⟨h.blocked, h.waiting, h.woken, h.seen_le⟩
  | complete k st len junk =>
    rw [State.step, State.complete]
    split
    · exact h
    · exact ⟨h.blocked, h.waiting, fun _ _ => .inl rfl, h.seen_le⟩
  | interrupt =>
    refine ⟨h.blocked, h.waiting, fun _ _ => .inr ?_, Nat.le_succ_of_le h.seen_le⟩
    exact Nat.lt_succ_of_le h.seen_le
  | drive => exact h.drive

end

theorem run (cfg : Config) (disk : Disk) (evs : List Event) : Awake cfg (run cfg disk evs) := by
  induction evs using List.reverseRecOn with
  | nil => exact start cfg disk
  | append_singleton evs e ih =>
    rw [run_append]
    exact ih.step e

end Awake

/-- In every run the driver blocks only while its first request cannot be answered, and
a completion it has not seen has an interrupt due or not seen. -/
theorem no_completion_missed (cfg : Config) (disk : Disk) (evs : List Event) :
    let s := run cfg disk evs
    (s.pc = .receive ∨ s.pc = .wait → s.table.headReady s.done = false) ∧
    (s.pc = .wait → s.table.order ≠ []) ∧
    (s.pc ≠ .reap → s.q.popUsed ≠ none → s.dev.irqDue = true ∨ s.irqSeen < s.dev.irqs) :=
  have h := Awake.run cfg disk evs
  ⟨h.blocked, h.waiting, h.woken⟩

/-! ## The way to the answers -/

theorem Inv.used_eq_nil (h : Inv cfg seen s avail taken used) (hnone : s.q.popUsed = none) :
    used = [] := by
  cases used with
  | nil => rfl
  | cons x used =>
    obtain ⟨q', hpop, -⟩ := h.carries.popUsed_cons h.length_lt.2
    rw [hpop] at hnone
    cases hnone

/-- The command of the slot has come back, noticed or not. -/
def IsBack (s : State) (used : List (Nat × Nat)) (k : Nat) : Prop :=
  k ∈ used.map Prod.fst ∨ s.done k = true

/-- How many steps the driver needs at most, where it is in its loop. -/
def stepsLeft (s : State) (used : List (Nat × Nat)) : Nat :=
  match s.pc with
  | .reap => used.length + s.table.order.length + 2
  | .deliver =>
    if used = [] then s.table.order.length + 1 else used.length + 2 * s.table.order.length + 6
  | .receive => used.length + s.table.order.length + 5
  | .wait => used.length + s.table.order.length + 3

/-- The invariant of the driver working alone: its first `n` messages have
their commands back, and are answered after `k` steps at most. -/
structure Nearing (cfg : Config) (n k : Nat) (s : State) (used : List (Nat × Nat)) : Prop where
  exit : s.exit = none
  irqDue : s.dev.irqDue = false
  received : n ≤ s.chan.received.length
  awake : Awake cfg s
  inv : ∃ avail taken, Inv cfg (fun _ _ => True) s avail taken used
  back : s.table.Each s.chan.replies.length (Table.BackBefore n (IsBack s used))
  steps : stepsLeft s used ≤ k

/-- The first `n` messages are answered, or the driver has ended, or it is
about to receive without room. -/
def Reached (n : Nat) (s : State) : Prop :=
  s.exit ≠ none ∨ s.hasRoom = false ∨ n ≤ s.chan.replies.length

namespace Nearing

variable {n k : Nat}

theorem order_ne (h : Nearing cfg n k s used) (hlt : s.chan.replies.length < n) :
    s.table.order ≠ [] := by
  obtain ⟨avail, taken, hinv⟩ := h.inv
  intro hnil
  have hcount := hinv.inOrder.count
  have hn := h.received
  rw [hnil, length_nil] at hcount
  omega

/-- With every completion noticed, the first of the queue can be answered. -/
theorem headReady (h : Nearing cfg n k s []) (hord : s.table.order ≠ [])
    (hlt : s.chan.replies.length < n) : s.table.headReady s.done = true := by
  refine Table.headReady_of_back hord (h.back.mono fun _ _ _ _ _ _ _ hb => ?_) hlt
  exact hb.mono fun i hi => hi.resolve_left not_mem_nil

section
variable (h : Nearing cfg n k s used)
include h

theorem reap (hpc : s.pc = .reap) : ∃ k' used', k' < k ∧ Nearing cfg n k' s.reap used' := by
  obtain ⟨avail, taken, hinv⟩ := h.inv
  have hsteps := h.steps
  have hawake := h.awake.reap hpc
  unfold stepsLeft at hsteps
  rw [hpc] at hsteps
  dsimp only at hsteps
  cases used with
  | nil =>
    rw [hinv.reap_nil] at hawake ⊢
    refine ⟨s.table.order.length + 1, [], ?_, h.exit, h.irqDue, h.received, hawake,
      ⟨avail, taken, hinv.frame rfl rfl rfl rfl rfl rfl rfl rfl hinv.running⟩, h.back, ?_⟩
    · rw [length_nil] at hsteps
      omega
    · exact le_rfl
  | cons x used =>
    obtain ⟨q', hreap, hinv'⟩ := hinv.reap_cons
    rw [hreap] at hawake hinv' ⊢
    refine ⟨used.length + s.table.order.length + 2, used, ?_, h.exit, h.irqDue, h.received, hawake,
      ⟨avail, taken, hinv'⟩, h.back.mono fun _ _ _ _ _ _ _ hb => hb.mono fun i hi => ?_, ?_⟩
    · rw [length_cons] at hsteps
      omega
    · rcases hi with hi | hi
      · rw [map_cons, mem_cons] at hi
        rcases hi with rfl | hi
        · exact .inr (update_self ..)
        · exact .inl hi
      · refine .inr ?_
        show update s.done x.1 true i = true
        by_cases heq : i = x.1
        · rw [heq, update_self]
        · rw [update_of_ne heq, hi]
    · unfold stepsLeft
      rw [hpc]

theorem deliver (hpc : s.pc = .deliver) (hlt : s.chan.replies.length < n) :
    ∃ k' used', k' < k ∧ Nearing cfg n k' s.deliver used' := by
  obtain ⟨avail, taken, hinv⟩ := h.inv
  have hsteps := h.steps
  have hawake := h.awake.deliver hpc
  have hinv' := hinv.deliver fun _ _ _ => trivial
  have hlen := length_pos_of_ne_nil (h.order_ne hlt)
  unfold stepsLeft at hsteps
  rw [hpc] at hsteps
  dsimp only at hsteps
  unfold State.deliver at hawake hinv' ⊢
  cases hhead : s.headReply with
  | none =>
    rw [hhead] at hawake hinv'
    have hused : used ≠ [] := by
      rintro rfl
      have hready := h.headReady (h.order_ne hlt) hlt
      rw [headReply_eq_none.mp hhead] at hready
      exact Bool.false_ne_true hready
    rw [if_neg hused] at hsteps
    exact ⟨used.length + s.table.order.length + 5, used, by omega, h.exit, h.irqDue, h.received,
      hawake, ⟨avail, taken, hinv'⟩, h.back, le_rfl⟩
  | some x =>
    obtain ⟨idx, o, r⟩ := x
    rw [hhead] at hawake hinv'
    obtain ⟨rest, hord, hcase⟩ := headReply_eq_some hhead
    have hnot := hinv.inOrder.valid.not_mem_tail hord
    have hrest : s.table.order.tail.length + 1 = s.table.order.length := by
      rw [hord]
      rfl
    have hlen' : (s.chan.replies ++ [r]).length = s.chan.replies.length + 1 := by simp
    have hsteps' : k - 1 < k ∧ (if used = [] then s.table.order.tail.length + 1
        else used.length + 2 * s.table.order.tail.length + 6) ≤ k - 1 := by
      split at hsteps <;> split <;> first | contradiction | omega
    have hpopped : (s.table.pop idx).Each (s.chan.replies.length + 1) _ :=
      h.back.pop hord hnot rfl rfl
    rw [← hlen'] at hpopped
    rcases hcase with ⟨rfl, -⟩ | ⟨slot, write, len, rfl, -, -⟩
    · refine ⟨k - 1, used, hsteps'.1, h.exit, h.irqDue, h.received, hawake,
        ⟨avail, taken, hinv'⟩, hpopped, ?_⟩
      unfold stepsLeft
      rw [hpc]
      exact hsteps'.2
    · refine ⟨k - 1, used, hsteps'.1, h.exit, h.irqDue, h.received, hawake,
        ⟨avail, taken, hinv'⟩, ?_, ?_⟩
      · refine Table.Each.mono hpopped fun i idx' p hmem hp' _ _ hb hi slot' hs => ?_
        -- the slot that becomes free is not that of another entry
        have hne : slot' ≠ slot := by
          rintro rfl
          have hfree : update s.table.slotFree slot' true slot' = false :=
            (hinv'.inOrder.valid.slotFree_of_mem hmem hp' hs).2
          rw [update_self] at hfree
          exact Bool.false_ne_true hfree.symm
        refine (hb hi slot' hs).imp_right fun hd => ?_
        show update s.done slot false slot' = true
        rw [update_of_ne hne, hd]
      · unfold stepsLeft
        rw [hpc]
        exact hsteps'.2

theorem wait (hpc : s.pc = .wait) (hlt : s.chan.replies.length < n) :
    ∃ k' used', k' < k ∧ Nearing cfg n k' (s.waitIrq cfg) used' := by
  obtain ⟨avail, taken, hinv⟩ := h.inv
  have hsteps := h.steps
  have hawake := h.awake.waitIrq
  unfold stepsLeft at hsteps
  rw [hpc] at hsteps
  dsimp only at hsteps
  have hwake : ∃ irqs, s.waitIrq cfg = { s with irqSeen := irqs, pc := .reap } := by
    unfold State.waitIrq
    split
    · refine ⟨s.dev.irqs, ?_⟩
      rw [if_pos]
      by_contra hirq
      have hnone : s.q.popUsed = none := by
        by_contra hsome
        rcases h.awake.woken (by simp [hpc]) hsome with hdue | hseen
        · rw [h.irqDue] at hdue
          exact Bool.false_ne_true hdue
        · exact hirq hseen
      have hused := hinv.used_eq_nil hnone
      subst hused
      have hready := h.headReady (h.awake.waiting hpc) hlt
      rw [h.awake.blocked (.inr hpc)] at hready
      exact Bool.false_ne_true hready
    · exact ⟨s.irqSeen, rfl⟩
  obtain ⟨irqs, hwake⟩ := hwake
  rw [hwake] at hawake ⊢
  exact ⟨k - 1, used, by omega, h.exit, h.irqDue, h.received, hawake,
    ⟨avail, taken, hinv.frame rfl rfl rfl rfl rfl rfl rfl rfl hinv.running⟩, h.back,
    Nat.le_sub_one_of_lt hsteps⟩

theorem receive (hpc : s.pc = .receive) (hroom : s.hasRoom = true)
    (hlt : s.chan.replies.length < n) (hexit : (s.receive cfg).exit = none) :
    ∃ k' used', k' < k ∧ Nearing cfg n k' (s.receive cfg) used' := by
  obtain ⟨avail, taken, hinv⟩ := h.inv
  have hsteps := h.steps
  have hawake := h.awake.receive hpc
  have hn : n ≤ s.chan.replies.length + s.table.order.length :=
    h.received.trans hinv.inOrder.count.le
  have hinv' : ∃ avail', Inv cfg (fun _ _ => True) (s.receive cfg) avail' taken used := by
    rcases hinv.receive (State.hasRoom_receive hroom h.exit hpc) with hinv' | ⟨hstop, -⟩
    · exact hinv'
    · exact absurd hexit hstop.exit_ne
  obtain ⟨avail', hinv'⟩ := hinv'
  unfold stepsLeft at hsteps
  rw [hpc] at hsteps
  dsimp only at hsteps
  unfold State.receive at hexit hawake hinv' ⊢
  cases hrecv : s.chan.tryRecv with
  | mk res chan =>
    rw [hrecv] at hexit hawake hinv'
    cases res with
    | ok m =>
      obtain ⟨rest, -, rfl⟩ := Chan.tryRecv_ok hrecv
      have ht := taken_handle cfg { s with chan := s.chan.took m rest } m
      have hlen := ht.grows.length_le
      have hback := ht.grows.back hinv.inOrder.valid h.back hn
      refine ⟨used.length + s.table.order.length + 3, used, ?_, hexit, ?_, ?_, hawake,
        ⟨avail', taken, hinv'⟩, ?_, ?_⟩
      · omega
      · exact (congrArg Device.irqDue ht.dev).trans h.irqDue
      · refine h.received.trans ?_
        rw [show _ = s.chan.took m rest from ht.chan]
        exact (length_append ..).ge.trans' (Nat.le_add_right _ _)
      · show Table.Each _ (State.handle cfg _ m).chan.replies.length _
        rw [ht.chan]
        refine Table.Each.mono hback fun _ _ _ _ _ _ _ hb => hb.mono fun i hi => ?_
        exact hi.imp_right fun hd => (congrFun ht.done i).trans hd
      · show used.length + (State.handle cfg _ m).table.order.length + 2 ≤ _
        dsimp only at hlen
        omega
    | wouldBlock =>
      rw [if_pos (h.order_ne hlt)] at hexit hawake hinv' ⊢
      exact ⟨used.length + s.table.order.length + 3, used, by omega, h.exit, h.irqDue, h.received,
        hawake, ⟨avail', taken, hinv'⟩, h.back, le_rfl⟩
    | peerClosed | failed => cases hexit

end

end Nearing

theorem stepsLeft_pos (s : State) (used : List (Nat × Nat)) : 0 < stepsLeft s used := by
  unfold stepsLeft
  split
  · omega
  · split <;> omega
  · omega
  · omega

theorem Nearing.drive {n k : Nat} (h : Nearing cfg n k s used) (hreach : ¬ Reached n s) :
    ∃ k', k' < k ∧ (Reached n (s.drive cfg) ∨ ∃ used', Nearing cfg n k' (s.drive cfg) used') := by
  have hroom : s.hasRoom = true := by
    by_contra hno
    exact hreach (.inr (.inl (Bool.eq_false_iff.mpr hno)))
  have hlt : s.chan.replies.length < n := by
    by_contra hge
    exact hreach (.inr (.inr (Nat.not_lt.mp hge)))
  have hpos := (stepsLeft_pos s used).trans_le h.steps
  rw [State.drive, if_neg (not_not.mpr h.exit)]
  cases hpc : s.pc with
  | reap =>
    obtain ⟨k', used', hk, h'⟩ := h.reap hpc
    exact ⟨k', hk, .inr ⟨used', h'⟩⟩
  | deliver =>
    obtain ⟨k', used', hk, h'⟩ := h.deliver hpc hlt
    exact ⟨k', hk, .inr ⟨used', h'⟩⟩
  | receive =>
    by_cases hexit : (s.receive cfg).exit = none
    · obtain ⟨k', used', hk, h'⟩ := h.receive hpc hroom hlt hexit
      exact ⟨k', hk, .inr ⟨used', h'⟩⟩
    · exact ⟨0, hpos, .inl (.inl hexit)⟩
  | wait =>
    obtain ⟨k', used', hk, h'⟩ := h.wait hpc hlt
    exact ⟨k', hk, .inr ⟨used', h'⟩⟩

/-- The device has nothing left to do: no chain submitted or taken, no
interrupt to raise. -/
def State.idle (s : State) : Bool :=
  (s.q.takeAvail s.dev.lastAvail).isNone && s.dev.taken.isEmpty && !s.dev.irqDue

/-- What has to have happened for the driver to end in this way. -/
def Exit.Excused (cfg : Config) (evs : List Event) : Exit → Prop
  | .closed => .close ∈ evs
  | .recv => ∃ m, .send m ∈ evs ∧ 0 < m.handles
  | .crash => cfg.crashAfter ≠ 0
  | .panic => 2 ^ cfg.sizeLog < 3 * slots

/-- The channel has what the client put there, and its two ways of ending the
driver are the client's doing. -/
structure Blamed (evs : List Event) (s : State) : Prop where
  chan : s.chan.From (fun m => .send m ∈ evs) (.close ∈ evs)
  closed : s.exit = some .closed → .close ∈ evs
  recv : s.exit = some .recv → ∃ m, .send m ∈ evs ∧ 0 < m.handles

namespace Blamed

variable {evs : List Event}

theorem start (cfg : Config) (disk : Disk) : Blamed [] (start cfg disk) where
  chan := Chan.From.start _ _
  closed := nofun
  recv := nofun

section
variable (h : Blamed evs s)
include h

theorem mono (e : Event) : Blamed (evs ++ [e]) s where
  chan := h.chan.mono (fun _ hm => mem_append_left _ hm) (mem_append_left _)
  closed := fun hx => mem_append_left _ (h.closed hx)
  recv := fun hx => (h.recv hx).imp fun _ hm => ⟨mem_append_left _ hm.1, hm.2⟩

theorem after {s' : State} (ht : Taken s s') : Blamed evs s' := by
  refine ⟨ht.chan ▸ h.chan, fun hx => ?_, fun hx => ?_⟩ <;>
    rcases ht.exit with hexit | hexit | hexit <;> rw [hexit] at hx <;> try cases hx
  · exact h.closed hx
  · exact h.recv hx

theorem receive : Blamed evs (s.receive cfg) := by
  have hchan := h.chan.tryRecv
  unfold State.receive
  cases hrecv : s.chan.tryRecv with
  | mk res chan =>
    rw [hrecv] at hchan
    have h' : Blamed evs { s with chan } := ⟨hchan, h.closed, h.recv⟩
    cases res with
    | ok m =>
      have hm := h'.after (taken_handle cfg _ m)
      exact ⟨hm.chan, hm.closed, hm.recv⟩
    | wouldBlock =>
      dsimp only
      split
      · exact ⟨h.chan, h.closed, h.recv⟩
      · exact h
    | peerClosed => exact ⟨h.chan, fun _ => h.chan.peerClosed (by rw [hrecv]), nofun⟩
    | failed => exact ⟨hchan, nofun, fun _ => h.chan.failed (by rw [hrecv])⟩

theorem drive : Blamed evs (s.drive cfg) := by
  unfold State.drive
  split
  · exact h
  split
  · unfold State.reap
    split <;> exact ⟨h.chan, h.closed, h.recv⟩
  · unfold State.deliver
    split
    · exact ⟨h.chan, h.closed, h.recv⟩
    · exact ⟨h.chan.reply _, h.closed, h.recv⟩
    · exact ⟨h.chan.reply _, h.closed, h.recv⟩
  · exact h.receive
  · unfold State.waitIrq
    split
    · split
      · exact ⟨h.chan, h.closed, h.recv⟩
      · exact h
    · exact ⟨h.chan, h.closed, h.recv⟩

theorem step (e : Event) : Blamed (evs ++ [e]) (s.step cfg e) := by
  have h' := h.mono e
  have he : e ∈ evs ++ [e] := mem_append_right _ (mem_singleton_self e)
  cases e with
  | send m =>
    rw [State.step]
    split
    · exact h'
    · exact ⟨h'.chan.send he, h'.closed, h'.recv⟩
  | close => exact ⟨h'.chan.close he, h'.closed, h'.recv⟩
  | take =>
    rw [State.step, State.take]
    split <;> exact ⟨h'.chan, h'.closed, h'.recv⟩
  | complete k st len junk =>
    rw [State.step, State.complete]
    split <;> exact ⟨h'.chan, h'.closed, h'.recv⟩
  | interrupt => exact ⟨h'.chan, h'.closed, h'.recv⟩
  | drive => exact h'.drive

end

theorem run (cfg : Config) (disk : Disk) (evs : List Event) : Blamed evs (run cfg disk evs) := by
  induction evs using List.reverseRecOn with
  | nil => exact start cfg disk
  | append_singleton evs e ih =>
    rw [run_append]
    exact ih.step e

end Blamed

/-! ## One reply per message -/

/-- What the client may rely on after these events. -/
structure Served (cfg : Config) (disk : Disk) (evs : List Event) (s : State) : Prop where
  /-- Reply number `i` answers message number `i`, by what the disk held at
  some moment between the message and the reply. -/
  answered : ∀ i r, s.chan.replies[i]? = some r →
    AnswerTo (planOf cfg) (Seen cfg disk evs) s.chan.received i r
  /-- The messages without a reply are the entries of the table. -/
  waiting : s.exit ≠ some .panic → s.exit ≠ some .crash →
    s.chan.received.length = s.chan.replies.length + s.table.order.length
  /-- When the device has done its part the driver answers them all. -/
  eventually : s.exit = none → s.idle = true →
    ∃ n, Reached s.chan.received.length ((State.drive cfg)^[n] s)
  ended : ∀ x, s.exit = some x → x.Excused cfg evs

end NexoOS.Block.Blockdev
