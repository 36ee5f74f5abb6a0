import NexoOS.Block.Pending

/-!
# Answering in the order of arrival

The invariant that the two drivers keep over what they have received, what
they have answered and their table of pending requests: reply number `i`
answers message number `i`, and the messages after those are the entries of
the table, in the order of its queue. What is known of a command in a slot
depends on the device and is the parameter `io`.
-/

namespace NexoOS.Block

open Function List

section

variable (plan : Message → Plan) (seen : Nat → Disk → Prop)

/-- The entry of request number `n` is that of the message with this number. -/
def EntryOf (received : List Message) (readyBuf : Nat → Reply)
    (io : Nat → Nat → Command → Prop) (n idx : Nat) (p : Pending) : Prop :=
  ∃ m, received[n]? = some m ∧
    match p with
    | .ready => plan m = .reply (readyBuf idx)
    | .io slot write len => ∃ c, plan m = .io c ∧ write = c.write ∧ len = c.bytes ∧ io n slot c

/-- Reply `r` is an answer to message number `i`, by a disk that `seen`
admits for it. -/
def AnswerTo (received : List Message) (i : Nat) (r : Reply) : Prop :=
  ∃ m disk, received[i]? = some m ∧ seen i disk ∧ (plan m).Answers disk r

structure InOrder (chan : Chan) (t : Table) (io : Nat → Nat → Command → Prop) : Prop where
  valid : t.Valid
  count : chan.received.length = chan.replies.length + t.order.length
  each : t.Each chan.replies.length (EntryOf plan chan.received t.readyBuf io)
  answered : ∀ i r, chan.replies[i]? = some r → AnswerTo plan seen chan.received i r

end

section

variable {plan : Message → Plan} {seen seen' : Nat → Disk → Prop} {chan chan' : Chan} {t : Table}
  {io io' : Nat → Nat → Command → Prop} {received : List Message} {m : Message} {idx : Nat}
  {rest : List Nat} {r : Reply}

theorem AnswerTo.mono {i : Nat} (h : AnswerTo plan seen received i r)
    (himp : ∀ n d, seen n d → seen' n d) : AnswerTo plan seen' received i r := by
  obtain ⟨m, d, hm, hd, hr⟩ := h
  exact ⟨m, d, hm, himp i d hd, hr⟩

theorem AnswerTo.append {i : Nat} (h : AnswerTo plan seen received i r) (m : Message) :
    AnswerTo plan seen (received ++ [m]) i r := by
  obtain ⟨m', d, hm', hd, hr⟩ := h
  refine ⟨m', d, ?_, hd, hr⟩
  rw [List.getElem?_append_left (List.getElem?_eq_some_iff.mp hm').1]
  exact hm'

theorem EntryOf.append {readyBuf : Nat → Reply} {n : Nat} {p : Pending}
    (h : EntryOf plan received readyBuf io n idx p) (m : Message) :
    EntryOf plan (received ++ [m]) readyBuf io n idx p := by
  obtain ⟨m', hm', hp⟩ := h
  refine ⟨m', ?_, hp⟩
  rw [List.getElem?_append_left (List.getElem?_eq_some_iff.mp hm').1]
  exact hm'

namespace InOrder

theorem start : InOrder plan seen Chan.start Table.start io where
  valid := Table.Valid.start
  count := rfl
  each := Table.Each.start
  answered := by simp [Chan.start]

section
variable (h : InOrder plan seen chan t io)
include h

theorem next : chan.replies.length + t.order.length = chan.received.length := h.count.symm

/-- The messages and replies, and what is known of the commands, may change
in ways that keep the invariant. -/
theorem mono (hrecv : chan'.received = chan.received)
    (hrep : chan'.replies = chan.replies) (hseen : ∀ n d, seen n d → seen' n d)
    (hio : ∀ n slot c, chan.replies.length ≤ n → n < chan.received.length → slot < slots →
      t.slotFree slot = false → io n slot c → io' n slot c) : InOrder plan seen' chan' t io' := by
  refine ⟨h.valid, ?_, ?_, fun i r hr => ?_⟩
  · rw [hrecv, hrep]
    exact h.count
  · rw [hrecv, hrep]
    refine h.each.mono fun n idx p hidx hp hle hlt hgood => ?_
    obtain ⟨m, hm, hcase⟩ := hgood
    refine ⟨m, hm, ?_⟩
    cases p with
    | ready => exact hcase
    | io slot write len =>
      obtain ⟨c, hplan, hw, hl, hc⟩ := hcase
      have hslot := h.valid.slotFree_of_mem hidx hp rfl
      exact ⟨c, hplan, hw, hl, hio n slot c hle (h.next ▸ hlt) hslot.1 hslot.2 hc⟩
  · rw [hrep] at hr
    rw [hrecv]
    exact (h.answered i r hr).mono hseen

theorem entry_pushed {p : Pending} {t' : Table}
    (hfree : t.pending idx = none) (hpend : t'.pending = (t.push idx p).pending)
    (hord : t'.order = (t.push idx p).order) (hold : ∀ i, i ≠ idx → t'.readyBuf i = t.readyBuf i)
    (hio : ∀ n slot c, slot < slots → t.slotFree slot = false → io n slot c → io' n slot c)
    (hnew : EntryOf plan (chan.received ++ [m]) t'.readyBuf io' chan.received.length idx p) :
    t'.Each chan.replies.length (EntryOf plan (chan.received ++ [m]) t'.readyBuf io') := by
  have hnot := h.valid.not_mem_order hfree
  refine Table.Each.push (h.each.mono fun n i q hi hq _ _ hgood => ?_) hnot hpend hord ?_
  · obtain ⟨m', hm', hcase⟩ := hgood.append m
    refine ⟨m', hm', ?_⟩
    cases q with
    | ready =>
      have hne : i ≠ idx := fun heq => hnot (heq ▸ hi)
      show plan m' = .reply (t'.readyBuf i)
      rw [hold i hne]
      exact hcase
    | io slot write len =>
      obtain ⟨c, hplan, hw, hl, hc⟩ := hcase
      have hslot := h.valid.slotFree_of_mem hi hq rfl
      exact ⟨c, hplan, hw, hl, hio n slot c hslot.1 hslot.2 hc⟩
  · rw [h.next]
    exact hnew

theorem count_pushed (m : Message) :
    (chan.received ++ [m]).length = chan.replies.length + (t.order ++ [idx]).length := by
  have := h.count
  rw [length_append, length_append, length_singleton, length_singleton]
  omega

theorem pushReady (hidx : idx < slots)
    (hfree : t.pending idx = none) (hrecv : chan'.received = chan.received ++ [m])
    (hrep : chan'.replies = chan.replies) (hplan : plan m = .reply r) :
    InOrder plan seen chan' (t.pushReady idx r) io := by
  refine ⟨h.valid.pushReady hidx hfree r, ?_, ?_, fun i r' hr' => ?_⟩
  · rw [hrecv, hrep]
    exact h.count_pushed m
  · rw [hrecv, hrep]
    refine h.entry_pushed (p := .ready) hfree rfl rfl ?_ (fun _ _ _ _ _ h => h) ⟨m, ?_, ?_⟩
    · exact fun i hi => update_of_ne hi _ _
    · exact List.getElem?_concat_length
    · show plan m = .reply (update t.readyBuf idx r idx)
      rw [update_self, hplan]
  · rw [hrep] at hr'
    rw [hrecv]
    exact (h.answered i r' hr').append m

theorem pushIo {slot : Nat} {c : Command} (hidx : idx < slots)
    (hfree : t.pending idx = none) (hslot : slot < slots) (hsf : t.slotFree slot = true)
    (hrecv : chan'.received = chan.received ++ [m]) (hrep : chan'.replies = chan.replies)
    (hplan : plan m = .io c)
    (hio : ∀ n k c, k < slots → t.slotFree k = false → io n k c → io' n k c)
    (hnew : io' chan.received.length slot c) :
    InOrder plan seen chan' (t.pushIo idx slot c.write c.bytes) io' := by
  refine ⟨h.valid.pushIo hidx hfree hslot hsf c.write c.bytes, ?_, ?_, fun i r' hr' => ?_⟩
  · rw [hrecv, hrep]
    exact h.count_pushed m
  · rw [hrecv, hrep]
    refine h.entry_pushed (p := .io slot c.write c.bytes) hfree rfl rfl (fun _ _ => rfl) hio
      ⟨m, ?_, c, hplan, rfl, rfl, hnew⟩
    exact List.getElem?_concat_length
  · rw [hrep] at hr'
    rw [hrecv]
    exact (h.answered i r' hr').append m

theorem answered_reply (hnew : AnswerTo plan seen chan.received chan.replies.length r) :
    ∀ i r', (chan.reply r).replies[i]? = some r' →
      AnswerTo plan seen (chan.reply r).received i r' := by
  intro i r' hr'
  change (chan.replies ++ [r])[i]? = some r' at hr'
  by_cases hlt : i < chan.replies.length
  · rw [List.getElem?_append_left hlt] at hr'
    exact h.answered i r' hr'
  have hi : i = chan.replies.length := by
    have := (List.getElem?_eq_some_iff.mp hr').1
    rw [length_append, length_singleton] at this
    omega
  subst i
  rw [List.getElem?_concat_length, Option.some.injEq] at hr'
  exact hr' ▸ hnew

section
variable (hord : t.order = idx :: rest)
include hord

theorem count_popped (r : Reply) :
    (chan.reply r).received.length = (chan.reply r).replies.length + (t.pop idx).order.length := by
  show chan.received.length = (chan.replies ++ [r]).length + t.order.tail.length
  have := h.count
  rw [hord, length_cons] at this
  rw [hord, tail_cons, length_append, length_singleton]
  omega

theorem each_popped {t' : Table}
    (hpend : t'.pending = (t.pop idx).pending) (hord' : t'.order = (t.pop idx).order)
    (hready : t'.readyBuf = t.readyBuf) (r : Reply) : t'.Each (chan.reply r).replies.length
      (EntryOf plan (chan.reply r).received t'.readyBuf io) := by
  show t'.Each (chan.replies ++ [r]).length (EntryOf plan chan.received t'.readyBuf io)
  rw [length_append, length_singleton, hready]
  exact h.each.pop hord (h.valid.not_mem_tail hord) hpend hord'

theorem popReady
    (hp : t.pending idx = some .ready) {disk : Disk} (hseen : seen chan.replies.length disk) :
    InOrder plan seen (chan.reply (t.readyBuf idx)) (t.pop idx) io := by
  refine ⟨h.valid.popReady hord hp, h.count_popped hord _, h.each_popped hord rfl rfl rfl _,
    h.answered_reply ?_⟩
  obtain ⟨p, hp', m, hm, hcase⟩ := h.each.head hord
  rw [hp, Option.some.injEq] at hp'
  subst p
  have hplan : plan m = .reply (t.readyBuf idx) := hcase
  refine ⟨m, disk, hm, hseen, ?_⟩
  rw [hplan]
  rfl

/-- The command of the first of the queue has been carried out and is
answered; its slot is free again. -/
theorem popIo {slot len : Nat} {write : Bool} (hp : t.pending idx = some (.io slot write len))
    (hdone : ∀ c, write = c.write → len = c.bytes → io chan.replies.length slot c →
      ∃ disk, seen chan.replies.length disk ∧ (Plan.io c).Answers disk r) :
    InOrder plan seen (chan.reply r) ((t.pop idx).freeSlotOf slot) io := by
  refine ⟨h.valid.popIo hord hp, h.count_popped hord _, h.each_popped hord rfl rfl rfl _,
    h.answered_reply ?_⟩
  obtain ⟨p, hp', m, hm, hcase⟩ := h.each.head hord
  rw [hp, Option.some.injEq] at hp'
  subst p
  obtain ⟨c, hplan, hw, hl, hc⟩ := hcase
  obtain ⟨disk, hseen, hans⟩ := hdone c hw hl hc
  exact ⟨m, disk, hm, hseen, hplan ▸ hans⟩

end

/-- The request whose command is in a taken slot. -/
theorem command {slot : Nat} (hslot : slot < slots) (hsf : t.slotFree slot = false) :
    ∃ n c, chan.replies.length ≤ n ∧ n < chan.received.length ∧ io n slot c := by
  obtain ⟨j, idx, write, len, hj, hp⟩ := h.valid.exists_entry hslot hsf
  obtain ⟨p, hp', m, hm, hcase⟩ := h.each j idx hj
  rw [hp, Option.some.injEq] at hp'
  subst p
  obtain ⟨c, -, -, -, hc⟩ := hcase
  exact ⟨_, c, Nat.le_add_right _ _, (List.getElem?_eq_some_iff.mp hm).1, hc⟩

end

end InOrder
end

/-! ## Slots at the device -/

/-- The slots in `l` are at the device, those in `done` have come back, and
the taken slots are these. -/
structure InFlight (slotFree done : Nat → Bool) (l : List Nat) : Prop where
  nodup : l.Nodup
  out : ∀ k ∈ l, k < slots ∧ slotFree k = false ∧ done k = false
  back : ∀ k, done k = true → k < slots ∧ slotFree k = false
  located : ∀ k, k < slots → slotFree k = false → k ∈ l ∨ done k = true

namespace InFlight

variable {slotFree done : Nat → Bool} {l l' : List Nat} {k : Nat}

theorem start : InFlight Table.start.slotFree (fun _ => false) [] where
  nodup := nodup_nil
  out := by simp
  back := by simp
  located := by simp [Table.start]

theorem perm (h : InFlight slotFree done l) (hperm : l.Perm l') : InFlight slotFree done l' where
  nodup := hperm.nodup_iff.mp h.nodup
  out := fun k hk => h.out k (hperm.mem_iff.mpr hk)
  back := h.back
  located := fun k hk hsf => (h.located k hk hsf).imp_left hperm.mem_iff.mp

/-- At most as many commands are at the device as requests wait. -/
theorem length_le {t : Table} (h : InFlight t.slotFree done l) (hv : t.Valid) :
    l.length ≤ t.order.length := by
  have hsub : l ⊆ t.busy := fun k hk => (hv.mem_busy k).mpr ⟨(h.out k hk).1, (h.out k hk).2.1⟩
  exact (subperm_of_subset h.nodup hsub).length_le.trans t.length_busy_le

theorem reap (h : InFlight slotFree done (k :: l)) : InFlight slotFree (update done k true) l := by
  have hnodup := nodup_cons.mp h.nodup
  have hk := h.out k mem_cons_self
  refine ⟨hnodup.2, fun i hi => ?_, fun i hi => ?_, fun i hi hsf => ?_⟩
  · have hne : i ≠ k := fun heq => hnodup.1 (heq ▸ hi)
    rw [update_of_ne hne]
    exact h.out i (mem_cons_of_mem k hi)
  · by_cases heq : i = k
    · exact heq ▸ ⟨hk.1, hk.2.1⟩
    · rw [update_of_ne heq] at hi
      exact h.back i hi
  · by_cases heq : i = k
    · exact .inr (by rw [heq, update_self])
    · rw [update_of_ne heq]
      exact (h.located i hi hsf).imp_left fun hmem =>
        (mem_cons.mp hmem).resolve_left heq

theorem submit (h : InFlight slotFree done l) (hk : k < slots) (hsf : slotFree k = true) :
    InFlight (update slotFree k false) done (k :: l) := by
  have hdone : done k = false := by
    by_contra hd
    rw [(h.back k (Bool.eq_true_of_not_eq_false hd)).2] at hsf
    exact Bool.false_ne_true hsf
  have hnot : k ∉ l := by
    intro hmem
    rw [(h.out k hmem).2.1] at hsf
    exact Bool.false_ne_true hsf
  refine ⟨nodup_cons.mpr ⟨hnot, h.nodup⟩, fun i hi => ?_, fun i hi => ?_, fun i hi hsf' => ?_⟩
  · by_cases heq : i = k
    · subst i
      exact ⟨hk, update_self .., hdone⟩
    · rw [update_of_ne heq]
      exact h.out i ((mem_cons.mp hi).resolve_left heq)
  · have hne : i ≠ k := fun heq => by rw [heq, hdone] at hi; exact Bool.false_ne_true hi
    rw [update_of_ne hne]
    exact h.back i hi
  · by_cases heq : i = k
    · exact .inl (heq ▸ mem_cons_self)
    · rw [update_of_ne heq] at hsf'
      exact (h.located i hi hsf').imp_left (mem_cons_of_mem k)

/-- The request of a command that has come back is answered. -/
theorem free (h : InFlight slotFree done l) (hk : done k = true) :
    InFlight (update slotFree k true) (update done k false) l := by
  refine ⟨h.nodup, fun i hi => ?_, fun i hi => ?_, fun i hi hsf => ?_⟩
  · have hne : i ≠ k := fun heq => by
      rw [← heq, (h.out i hi).2.2] at hk
      exact Bool.false_ne_true hk
    rw [update_of_ne hne, update_of_ne hne]
    exact h.out i hi
  · have hne : i ≠ k := fun heq => by
      rw [heq, update_self] at hi
      exact Bool.false_ne_true hi
    rw [update_of_ne hne] at hi ⊢
    exact h.back i hi
  · have hne : i ≠ k := fun heq => by
      rw [heq, update_self] at hsf
      exact Bool.false_ne_true hsf.symm
    rw [update_of_ne hne] at hsf ⊢
    exact h.located i hi hsf

end InFlight
end NexoOS.Block
