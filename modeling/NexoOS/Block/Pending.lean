import NexoOS.Block.Proto

/-!
# The table of pending requests

`blockdev` and `nvmedev` keep the requests they have not answered in the same
way: a table of four places, the order of arrival as a queue of places, and
four I/O slots that are taken by the requests that are at the device. The
entry of a request is a command in a slot or a reply that waits for its turn.
-/

namespace NexoOS.Block

open Function List

def slots : Nat := 4

inductive Pending where
  | io (slot : Nat) (write : Bool) (len : Nat)
  | ready
deriving DecidableEq, Repr

def Pending.slot? : Pending → Option Nat
  | .io slot _ _ => some slot
  | .ready => none

/-- The local variables `pending`, `order[..order_len]`, `ready_buf` and
`slot_free` of the drivers' loops. -/
structure Table where
  pending : Nat → Option Pending
  order : List Nat
  readyBuf : Nat → Reply
  slotFree : Nat → Bool

namespace Table

def start : Table where
  pending := fun _ => none
  order := []
  readyBuf := fun _ => .error 0 0
  slotFree := fun _ => true

variable (t : Table)

/-- The first free place. -/
def freeIdx : Option Nat := (List.range slots).find? fun i => (t.pending i).isNone

def freeSlot : Option Nat := (List.range slots).find? t.slotFree

/-- Place `idx` gets an entry and goes to the end of the order. -/
def push (idx : Nat) (p : Pending) : Table :=
  { t with pending := update t.pending idx (some p), order := t.order ++ [idx] }

def pushReady (idx : Nat) (r : Reply) : Table :=
  { t.push idx .ready with readyBuf := update t.readyBuf idx r }

def pushIo (idx slot : Nat) (write : Bool) (len : Nat) : Table :=
  { t.push idx (.io slot write len) with slotFree := update t.slotFree slot false }

/-- The first of the order is answered and leaves the table. -/
def pop (idx : Nat) : Table :=
  { t with pending := update t.pending idx none, order := t.order.tail }

def freeSlotOf (slot : Nat) : Table :=
  { t with slotFree := update t.slotFree slot true }

/-- The slots of the commands that wait, in order of arrival. -/
def busy : List Nat := t.order.filterMap fun i => (t.pending i).bind Pending.slot?

/-- The first of the order can be answered: its reply is ready, or its
command has come back. -/
def headReady (done : Nat → Bool) : Bool :=
  match t.order with
  | [] => false
  | idx :: _ =>
    match t.pending idx with
    | some .ready => true
    | some (.io slot _ _) => done slot
    | none => false

/-- The order names each taken place once, and the slots that are not free
are those of the entries, each of one entry. -/
structure Valid (t : Table) : Prop where
  nodup : t.order.Nodup
  mem_order : ∀ i, i ∈ t.order ↔ i < slots ∧ t.pending i ≠ none
  nodup_busy : t.busy.Nodup
  mem_busy : ∀ k, k ∈ t.busy ↔ k < slots ∧ t.slotFree k = false

/-- The requests that wait have the numbers from `base` on, and the entry of
each is as `good` says: the number, its place, the entry. -/
def Each (base : Nat) (good : Nat → Nat → Pending → Prop) : Prop :=
  ∀ j idx, t.order[j]? = some idx → ∃ p, t.pending idx = some p ∧ good (base + j) idx p

/-! ## Room -/

variable {n idx : Nat} {t : Table}

/-- Fewer than `n` numbers leave one below `n` out. -/
theorem exists_lt_not_mem {l : List Nat} (h : l.length < n) : ∃ i, i < n ∧ i ∉ l := by
  by_contra hall
  have hsub : Finset.range n ⊆ l.toFinset := by
    intro i hi
    rw [mem_toFinset]
    by_contra hni
    exact hall ⟨i, Finset.mem_range.mp hi, hni⟩
  have hcard := Finset.card_le_card hsub
  rw [Finset.card_range] at hcard
  exact absurd (hcard.trans l.toFinset_card_le) (Nat.not_le.mpr h)

theorem find_range_some {p : Nat → Bool} {i : Nat} (h : (List.range n).find? p = some i) :
    i < n ∧ p i = true :=
  ⟨mem_range.mp (mem_of_find?_eq_some h), List.find?_some h⟩

theorem find_range_none {p : Nat → Bool} (h : (List.range n).find? p = none) :
    ∀ i, i < n → p i = false := by
  intro i hi
  have := List.find?_eq_none.mp h i (mem_range.mpr hi)
  exact Bool.eq_false_iff.mpr this

theorem length_busy_le (t : Table) : t.busy.length ≤ t.order.length :=
  length_filterMap_le _ _

theorem busy_push (h : idx ∉ t.order) (p : Pending) :
    (t.push idx p).busy = t.busy ++ p.slot?.toList := by
  have hcongr : (t.order.filterMap fun i =>
      (update t.pending idx (some p) i).bind Pending.slot?) = t.busy := by
    refine filterMap_congr fun i hi => ?_
    have hne : i ≠ idx := fun heq => h (heq ▸ hi)
    rw [update_of_ne hne]
  change ((t.order ++ [idx]).filterMap fun i =>
    (update t.pending idx (some p) i).bind Pending.slot?) = _
  rw [filterMap_append, hcongr, filterMap_cons, update_self]
  cases p <;> rfl

variable {p : Pending}

theorem busy_pop {rest : List Nat} (hord : t.order = idx :: rest) (hnodup : t.order.Nodup)
    (hp : t.pending idx = some p) :
    t.busy = p.slot?.toList ++ (t.pop idx).busy := by
  have hnot : idx ∉ rest := by
    rw [hord] at hnodup
    exact (nodup_cons.mp hnodup).1
  have hcongr : (t.pop idx).busy = rest.filterMap fun i => (t.pending i).bind Pending.slot? := by
    change (t.order.tail.filterMap fun i =>
      (update t.pending idx none i).bind Pending.slot?) = _
    rw [hord, tail_cons]
    refine filterMap_congr fun i hi => ?_
    have hne : i ≠ idx := fun heq => hnot (heq ▸ hi)
    rw [update_of_ne hne]
  rw [hcongr, busy, hord, filterMap_cons, hp]
  cases p <;> rfl

namespace Valid

variable {t : Table}

theorem start : Table.start.Valid where
  nodup := nodup_nil
  mem_order := by simp [Table.start]
  nodup_busy := nodup_nil
  mem_busy := by simp [Table.start, busy]

section
variable (h : t.Valid)
include h

theorem order_subset : t.order.toFinset ⊆ Finset.range slots := by
  intro i hi
  exact Finset.mem_range.mpr ((h.mem_order i).mp (mem_toFinset.mp hi)).1

theorem length_order_le : t.order.length ≤ slots := by
  have := Finset.card_le_card h.order_subset
  rwa [Finset.card_range, toFinset_card_of_nodup h.nodup] at this

/-- A place is free exactly if fewer than four requests wait. -/
theorem freeIdx_eq_none : t.freeIdx = none ↔ slots ≤ t.order.length := by
  constructor
  · intro hnone
    by_contra hlt
    obtain ⟨i, hi, hni⟩ := exists_lt_not_mem (Nat.not_le.mp hlt)
    have hsome := find_range_none hnone i hi
    rw [Option.isNone_eq_false_iff, Option.isSome_iff_ne_none] at hsome
    exact hni ((h.mem_order i).mpr ⟨hi, hsome⟩)
  · intro hlen
    refine List.find?_eq_none.mpr fun i hi => ?_
    -- four different places below four are all of them
    have hcard : (Finset.range slots).card ≤ t.order.toFinset.card := by
      rw [Finset.card_range, toFinset_card_of_nodup h.nodup]
      exact hlen
    have hmem : i ∈ t.order.toFinset := by
      rw [Finset.eq_of_subset_of_card_le h.order_subset hcard]
      exact Finset.mem_range.mpr (mem_range.mp hi)
    have := ((h.mem_order i).mp (mem_toFinset.mp hmem)).2
    simpa using this

theorem exists_freeSlot (hlen : t.order.length < slots) : ∃ k, t.freeSlot = some k := by
  cases hk : t.freeSlot with
  | some k => exact ⟨k, rfl⟩
  | none =>
    obtain ⟨k, hk', hnot⟩ := exists_lt_not_mem (t.length_busy_le.trans_lt hlen)
    exact absurd ((h.mem_busy k).mpr ⟨hk', find_range_none hk k hk'⟩) hnot

theorem not_mem_order {idx : Nat} (hfree : t.pending idx = none) : idx ∉ t.order :=
  fun hmem => ((h.mem_order idx).mp hmem).2 hfree

/-- The part of the invariant about places, after a new entry. -/
theorem mem_order_push {idx : Nat} (hidx : idx < slots) (p : Pending) (i : Nat) :
    i ∈ (t.push idx p).order ↔ i < slots ∧ (t.push idx p).pending i ≠ none := by
  show i ∈ t.order ++ [idx] ↔ i < slots ∧ update t.pending idx (some p) i ≠ none
  rw [mem_append, mem_singleton, h.mem_order]
  by_cases heq : i = idx
  · subst i
    simp [hidx]
  · rw [update_of_ne heq]
    simp [heq]

theorem nodup_push {idx : Nat} (hfree : t.pending idx = none) (p : Pending) :
    (t.push idx p).order.Nodup :=
  List.Nodup.append h.nodup (nodup_singleton idx)
    (disjoint_singleton.mpr (h.not_mem_order hfree))

theorem pushReady {idx : Nat} (hidx : idx < slots) (hfree : t.pending idx = none)
    (r : Reply) : (t.pushReady idx r).Valid := by
  have hbusy : (t.pushReady idx r).busy = t.busy := by
    have := busy_push (h.not_mem_order hfree) .ready
    rwa [Pending.slot?, Option.toList_none, append_nil] at this
  refine ⟨h.nodup_push hfree .ready, h.mem_order_push hidx .ready, ?_, ?_⟩
  · rw [hbusy]
    exact h.nodup_busy
  · rw [hbusy]
    exact h.mem_busy

theorem pushIo {idx slot : Nat} (hidx : idx < slots)
    (hfree : t.pending idx = none) (hslot : slot < slots) (hsf : t.slotFree slot = true)
    (write : Bool) (len : Nat) : (t.pushIo idx slot write len).Valid := by
  have hbusy : (t.pushIo idx slot write len).busy = t.busy ++ [slot] :=
    busy_push (h.not_mem_order hfree) (.io slot write len)
  have hnot : slot ∉ t.busy := by
    intro hmem
    rw [((h.mem_busy slot).mp hmem).2] at hsf
    exact Bool.false_ne_true hsf
  refine ⟨h.nodup_push hfree (.io slot write len), h.mem_order_push hidx (.io slot write len),
    ?_, fun k => ?_⟩
  · rw [hbusy]
    exact List.Nodup.append h.nodup_busy (nodup_singleton slot)
      (disjoint_singleton.mpr hnot)
  · rw [hbusy, mem_append, mem_singleton, h.mem_busy]
    show _ ↔ k < slots ∧ update t.slotFree slot false k = false
    by_cases heq : k = slot
    · subst k
      simp [hslot]
    · rw [update_of_ne heq]
      simp [heq]

end

variable {idx : Nat} {rest : List Nat}

section
variable (h : t.Valid)
include h

theorem not_mem_tail (hord : t.order = idx :: rest) : idx ∉ rest := by
  have := h.nodup
  rw [hord] at this
  exact (nodup_cons.mp this).1

theorem mem_order_pop (hord : t.order = idx :: rest) (i : Nat) :
    i ∈ (t.pop idx).order ↔ i < slots ∧ (t.pop idx).pending i ≠ none := by
  show i ∈ t.order.tail ↔ i < slots ∧ update t.pending idx none i ≠ none
  have hmem := h.mem_order i
  rw [hord, mem_cons] at hmem
  rw [hord, tail_cons]
  by_cases heq : i = idx
  · subst i
    simp [h.not_mem_tail hord]
  · rw [update_of_ne heq, ← hmem]
    simp [heq]

theorem nodup_pop (idx : Nat) : (t.pop idx).order.Nodup := List.Nodup.tail h.nodup

theorem popReady (hord : t.order = idx :: rest)
    (hp : t.pending idx = some .ready) : (t.pop idx).Valid := by
  have hbusy : t.busy = (t.pop idx).busy := busy_pop hord h.nodup hp
  refine ⟨h.nodup_pop idx, h.mem_order_pop hord, ?_, ?_⟩
  · rw [← hbusy]
    exact h.nodup_busy
  · rw [← hbusy]
    exact h.mem_busy

theorem popIo (hord : t.order = idx :: rest) {slot len : Nat} {write : Bool}
    (hp : t.pending idx = some (.io slot write len)) : ((t.pop idx).freeSlotOf slot).Valid := by
  have hbusy : t.busy = slot :: (t.pop idx).busy := busy_pop hord h.nodup hp
  have hnodup := h.nodup_busy
  rw [hbusy, nodup_cons] at hnodup
  refine ⟨h.nodup_pop idx, h.mem_order_pop hord, hnodup.2, fun k => ?_⟩
  have hmem := h.mem_busy k
  rw [hbusy, mem_cons] at hmem
  show k ∈ (t.pop idx).busy ↔ k < slots ∧ update t.slotFree slot true k = false
  by_cases heq : k = slot
  · subst k
    simp [hnodup.1]
  · rw [update_of_ne heq, ← hmem]
    simp [heq]

theorem slotFree_of_mem {slot : Nat} (hidx : idx ∈ t.order) (hp : t.pending idx = some p)
    (hs : p.slot? = some slot) :
    slot < slots ∧ t.slotFree slot = false := by
  refine (h.mem_busy slot).mp (mem_filterMap.mpr ⟨idx, hidx, ?_⟩)
  rw [hp]
  exact hs

theorem exists_entry {slot : Nat} (hslot : slot < slots) (hsf : t.slotFree slot = false) :
    ∃ (j idx : Nat) (write : Bool) (len : Nat), t.order[j]? = some idx ∧
      t.pending idx = some (.io slot write len) := by
  obtain ⟨idx, hidx, hslot?⟩ := mem_filterMap.mp ((h.mem_busy slot).mpr ⟨hslot, hsf⟩)
  obtain ⟨j, hj⟩ := mem_iff_getElem?.mp hidx
  obtain ⟨p, hp, hps⟩ := Option.bind_eq_some_iff.mp hslot?
  cases p with
  | ready => cases hps
  | io slot' write len =>
    rw [Pending.slot?, Option.some.injEq] at hps
    subst slot'
    exact ⟨j, idx, write, len, hj, hp⟩

end

end Valid

/-! ## The entries -/

namespace Each

variable {t : Table} {base : Nat} {good good' : Nat → Nat → Pending → Prop}

theorem start : Table.start.Each base good := by
  intro j idx hj
  simp [Table.start] at hj

theorem mono (h : t.Each base good)
    (himp : ∀ n idx p, idx ∈ t.order → t.pending idx = some p → base ≤ n →
      n < base + t.order.length → good n idx p → good' n idx p) : t.Each base good' := by
  intro j idx hj
  obtain ⟨p, hp, hgood⟩ := h j idx hj
  have hlt : j < t.order.length := (List.getElem?_eq_some_iff.mp hj).1
  exact ⟨p, hp, himp _ _ _ (mem_of_getElem? hj) hp (by omega) (by omega) hgood⟩

theorem push (h : t.Each base good) {idx : Nat} {t' : Table} (hidx : idx ∉ t.order)
    (hpend : t'.pending = (t.push idx p).pending) (hord : t'.order = (t.push idx p).order)
    (hgood : good (base + t.order.length) idx p) :
    t'.Each base good := by
  intro j i hj
  rw [hord] at hj
  change (t.order ++ [idx])[j]? = some i at hj
  rw [hpend]
  change ∃ q, update t.pending idx (some p) i = some q ∧ good (base + j) i q
  by_cases hlt : j < t.order.length
  · rw [List.getElem?_append_left hlt] at hj
    have hne : i ≠ idx := fun heq => hidx (heq ▸ mem_of_getElem? hj)
    rw [update_of_ne hne]
    exact h j i hj
  · have hj' : j = t.order.length := by
      have := (List.getElem?_eq_some_iff.mp hj).1
      rw [length_append, length_singleton] at this
      omega
    subst j
    rw [List.getElem?_concat_length, Option.some.injEq] at hj
    subst i
    rw [update_self]
    exact ⟨p, rfl, hgood⟩

theorem pop (h : t.Each base good) {idx : Nat} {rest : List Nat} {t' : Table}
    (hord : t.order = idx :: rest) (hnot : idx ∉ rest)
    (hpend : t'.pending = (t.pop idx).pending) (hord' : t'.order = (t.pop idx).order) :
    t'.Each (base + 1) good := by
  intro j i hj
  rw [hord'] at hj
  change t.order.tail[j]? = some i at hj
  rw [hord, tail_cons] at hj
  have hne : i ≠ idx := fun heq => hnot (heq ▸ mem_of_getElem? hj)
  rw [hpend]
  change ∃ q, update t.pending idx none i = some q ∧ good (base + 1 + j) i q
  rw [update_of_ne hne]
  have := h (j + 1) i (by rw [hord]; exact hj)
  rwa [Nat.add_assoc, Nat.add_comm 1 j]

theorem head (h : t.Each base good) {idx : Nat} {rest : List Nat}
    (hord : t.order = idx :: rest) : ∃ p, t.pending idx = some p ∧ good base idx p :=
  h 0 idx (by rw [hord]; rfl)

end Each

/-! ## Commands that have come back -/

/-- The entry of a request before number `n` has its command in a slot
`back`, if it has one. -/
def BackBefore (n : Nat) (back : Nat → Prop) (i _idx : Nat) (p : Pending) : Prop :=
  i < n → ∀ slot, p.slot? = some slot → back slot

theorem BackBefore.mono {i : Nat} {back back' : Nat → Prop} (h : BackBefore n back i idx p)
    (himp : ∀ k, back k → back' k) : BackBefore n back' i idx p :=
  fun hi slot hs => himp slot (h hi slot hs)

/-- The first of the queue can be answered when its command is back. -/
theorem headReady_of_back {base : Nat} {done : Nat → Bool} (hord : t.order ≠ [])
    (h : t.Each base (BackBefore n fun k => done k = true)) (hn : base < n) :
    t.headReady done = true := by
  obtain ⟨idx, rest, hord⟩ := exists_cons_of_ne_nil hord
  obtain ⟨p, hp, hback⟩ := h.head hord
  unfold headReady
  rw [hord]
  dsimp only
  rw [hp]
  cases p with
  | ready => rfl
  | io slot write len => exact hback hn slot rfl

/-- `t'` is `t`, perhaps with one more entry at the end of the order. -/
def Grows (t t' : Table) : Prop :=
  t' = t ∨ ∃ idx p, t.pending idx = none ∧ t'.pending = (t.push idx p).pending ∧
    t'.order = (t.push idx p).order

namespace Grows

variable {t t' : Table}

theorem length_le (h : t.Grows t') : t'.order.length ≤ t.order.length + 1 := by
  rcases h with rfl | ⟨idx, p, -, -, hord⟩
  · exact Nat.le_succ _
  · rw [hord]
    exact (length_append ..).le

theorem back (h : t.Grows t') (hv : t.Valid) {base n : Nat} {back : Nat → Prop}
    (hback : t.Each base (BackBefore n back)) (hn : n ≤ base + t.order.length) :
    t'.Each base (BackBefore n back) := by
  rcases h with rfl | ⟨idx, p, hfree, hpend, hord⟩
  · exact hback
  · exact hback.push (hv.not_mem_order hfree) hpend hord
      fun hlt => absurd hlt (Nat.not_lt.mpr hn)

end Grows
end Table
end NexoOS.Block
