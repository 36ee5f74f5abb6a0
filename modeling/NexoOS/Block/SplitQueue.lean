import NexoOS.Lib.Ring

/-!
# VirtIO split queues

`SplitQueue` of `libraries/virtio/src/lib.rs`, and the device's side of the
two rings. The indices in shared memory and in the driver are 16-bit
counters that wrap; the device conforms if it takes the heads in the order
of the available ring and publishes what it has completed in the used ring.
-/

namespace NexoOS.Block

/-- `DESC_NEXT`, `DESC_WRITE`. -/
def descNext : Nat := 1
def descWrite : Nat := 2

structure Desc (A : Type) where
  addr : A
  len : Nat
  flags : Nat
  next : Nat

/-- The driver's counters and the three shared pages. -/
structure SplitQueue (A : Type) where
  size : Nat
  desc : Nat → Desc A
  availRing : Nat → Nat
  /-- The `idx` field of the available ring. -/
  availShared : Nat
  /-- Head of the chain and bytes written, per entry. -/
  usedRing : Nat → Nat × Nat
  /-- The `idx` field of the used ring. -/
  usedShared : Nat
  availIdx : Nat
  usedIdx : Nat

/-- What a `u16` counter shows after `n` increments. -/
def u16 (n : Nat) : Nat := n % 2 ^ 16

namespace SplitQueue

variable {A : Type} (q : SplitQueue A)

/-- `set_desc`, whose assertion fails for a descriptor past the queue. -/
def setDesc (i : Nat) (d : Desc A) : Option (SplitQueue A) :=
  if i < q.size then some { q with desc := Function.update q.desc i d } else none

/-- `submit`: the head goes into the ring before the index moves. -/
def submit (head : Nat) : SplitQueue A :=
  { q with
    availRing := Function.update q.availRing (q.availIdx % q.size) head
    availIdx := u16 (q.availIdx + 1)
    availShared := u16 (q.availIdx + 1) }

def popUsed : Option ((Nat × Nat) × SplitQueue A) :=
  if q.usedShared = q.usedIdx then none
  else some (q.usedRing (q.usedIdx % q.size), { q with usedIdx := u16 (q.usedIdx + 1) })

/-- The device, which has taken heads up to index `last`, takes the next one. -/
def takeAvail (last : Nat) : Option (Nat × Nat) :=
  if q.availShared = last then none
  else some (q.availRing (last % q.size), u16 (last + 1))

/-- The device publishes a completion. -/
def publish (head len : Nat) : SplitQueue A :=
  { q with
    usedRing := Function.update q.usedRing (q.usedShared % q.size) (head, len)
    usedShared := u16 (q.usedShared + 1) }

/-! ## What the rings carry -/

/-- The heads `avail` have been submitted and not taken, the completions
`used` published and not popped; the device's index is `last`. -/
structure Carries (q : SplitQueue A) (last : Nat) (avail : List Nat) (used : List (Nat × Nat)) :
    Prop where
  size_dvd : q.size ∣ 2 ^ 16
  avail_taken : ∃ c, last = u16 c ∧ q.availIdx = u16 (c + avail.length) ∧
    q.availShared = u16 (c + avail.length) ∧ Ring.Holds q.size q.availRing c avail
  used_popped : ∃ c, q.usedIdx = u16 c ∧ q.usedShared = u16 (c + used.length) ∧
    Ring.Holds q.size q.usedRing c used

theorem u16_succ (n : Nat) : u16 (u16 n + 1) = u16 (n + 1) := Nat.mod_add_mod n (2 ^ 16) 1

theorem u16_mod {size : Nat} (h : size ∣ 2 ^ 16) (n : Nat) : u16 n % size = n % size :=
  Nat.mod_mod_of_dvd n h

theorem u16_eq_iff {c k : Nat} (hk : k < 2 ^ 16) : u16 (c + k) = u16 c ↔ k = 0 := by
  rw [eq_comm, u16, u16, Ring.mod_inj (by omega) (by omega)]
  omega

namespace Carries

variable {q : SplitQueue A} {last : Nat} {avail : List Nat} {used : List (Nat × Nat)}

theorem submit (h : q.Carries last avail used) (hroom : avail.length < q.size) (head : Nat) :
    (q.submit head).Carries last (avail ++ [head]) used := by
  obtain ⟨c, hlast, hidx, -, hholds⟩ := h.avail_taken
  refine ⟨h.size_dvd, ⟨c, hlast, ?_, ?_, ?_⟩, h.used_popped⟩
  · show u16 (q.availIdx + 1) = _
    rw [hidx, u16_succ, List.length_append, List.length_singleton, add_assoc]
  · show u16 (q.availIdx + 1) = _
    rw [hidx, u16_succ, List.length_append, List.length_singleton, add_assoc]
  · show Ring.Holds q.size (Function.update q.availRing (q.availIdx % q.size) head) c _
    rw [hidx, u16_mod h.size_dvd]
    exact hholds.push hroom head

/-- The device finds a head exactly if one is there, and it is the oldest. -/
theorem takeAvail_nil (h : q.Carries last [] used) : q.takeAvail last = none := by
  obtain ⟨c, hlast, -, hshared, -⟩ := h.avail_taken
  rw [takeAvail, if_pos]
  rw [hshared, hlast]
  rfl

theorem takeAvail_cons {head : Nat} (h : q.Carries last (head :: avail) used)
    (hlen : avail.length + 1 < 2 ^ 16) :
    ∃ last', q.takeAvail last = some (head, last') ∧ q.Carries last' avail used := by
  obtain ⟨c, hlast, hidx, hshared, hholds⟩ := h.avail_taken
  have hne : q.availShared ≠ last := by
    rw [hshared, hlast, Ne, List.length_cons, u16_eq_iff hlen]
    exact Nat.succ_ne_zero _
  refine ⟨u16 (last + 1), ?_, h.size_dvd, ⟨c + 1, ?_, ?_, ?_, hholds.pop⟩, h.used_popped⟩
  · rw [takeAvail, if_neg hne, hlast, u16_mod h.size_dvd, hholds.head]
  · rw [hlast, u16_succ]
  · rw [hidx, List.length_cons, add_right_comm, add_assoc]
  · rw [hshared, List.length_cons, add_right_comm, add_assoc]

theorem publish (h : q.Carries last avail used) (hroom : used.length < q.size)
    (head len : Nat) : (q.publish head len).Carries last avail (used ++ [(head, len)]) := by
  obtain ⟨c, hidx, hshared, hholds⟩ := h.used_popped
  refine ⟨h.size_dvd, h.avail_taken, ⟨c, hidx, ?_, ?_⟩⟩
  · show u16 (q.usedShared + 1) = _
    rw [hshared, u16_succ, List.length_append, List.length_singleton, add_assoc]
  · show Ring.Holds q.size (Function.update q.usedRing (q.usedShared % q.size) (head, len)) c _
    rw [hshared, u16_mod h.size_dvd]
    exact hholds.push hroom (head, len)

theorem popUsed_nil (h : q.Carries last avail []) : q.popUsed = none := by
  obtain ⟨c, hidx, hshared, -⟩ := h.used_popped
  rw [popUsed, if_pos]
  rw [hshared, hidx]
  rfl

theorem popUsed_cons {x : Nat × Nat} (h : q.Carries last avail (x :: used))
    (hlen : used.length + 1 < 2 ^ 16) :
    ∃ q', q.popUsed = some (x, q') ∧ q'.Carries last avail used ∧ q'.size = q.size ∧
      q'.desc = q.desc := by
  obtain ⟨c, hidx, hshared, hholds⟩ := h.used_popped
  have hne : q.usedShared ≠ q.usedIdx := by
    rw [hshared, hidx, Ne, List.length_cons, u16_eq_iff hlen]
    exact Nat.succ_ne_zero _
  refine ⟨{ q with usedIdx := u16 (q.usedIdx + 1) }, ?_,
    ⟨h.size_dvd, h.avail_taken, c + 1, ?_, ?_, hholds.pop⟩, rfl, rfl⟩
  · rw [popUsed, if_neg hne, hidx, u16_mod h.size_dvd, hholds.head]
  · show u16 (q.usedIdx + 1) = _
    rw [hidx, u16_succ]
  · show q.usedShared = _
    rw [hshared, List.length_cons, add_right_comm, add_assoc]

theorem setDesc (h : q.Carries last avail used) (f : Nat → Desc A) :
    { q with desc := f }.Carries last avail used :=
  ⟨h.size_dvd, h.avail_taken, h.used_popped⟩

end Carries
end SplitQueue
end NexoOS.Block
