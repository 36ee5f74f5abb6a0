import NexoOS.Lib.Bytes
import NexoOS.Fat.Volume

/-!
# The state of the A/B slots

`slots` of `abi/boot`: the block in `slots.bin` that loader and update service
share, and the choice of the slot to boot.
-/

namespace NexoOS.Update

open Function

open Fat

def magic : Nat := 0x42414c534f58454e

def version : Nat := 1

/-- The length of the block, one sector. -/
def slotsBytes : Nat := 512

structure Slot where
  priority : UInt8
  triesRemaining : UInt8
  /-- `1` once a boot of the slot was confirmed. -/
  successful : UInt8
  deriving DecidableEq

/-- The block of state; slot `0` is A, slot `1` is B. -/
structure SlotState where
  slot : Fin 2 → Slot
  lastSelected : UInt8

def other (i : Fin 2) : Fin 2 := 1 - i

theorem other_ne (i : Fin 2) : other i ≠ i := by
  revert i
  decide

theorem eq_other {i j : Fin 2} (h : j ≠ i) : j = other i := by
  revert i j
  decide

namespace SlotState

variable (st : SlotState)

def eligible (i : Fin 2) : Bool :=
  (st.slot i).successful = 1 ∨ 0 < (st.slot i).triesRemaining

/-- The eligible slot of highest priority; A wins a tie. -/
def choose : Option (Fin 2) :=
  match st.eligible 0, st.eligible 1 with
  | false, false => none
  | true, false => some 0
  | false, true => some 1
  | true, true => if (st.slot 0).priority < (st.slot 1).priority then some 1 else some 0

/-! ## On disk -/

def putSlot (b : Sector) (off : Nat) (s : Slot) : Sector :=
  update (update (update b off s.priority) (off + 1) s.triesRemaining)
    (off + 2) s.successful

/-- The block without its checksum. -/
def fields : Sector :=
  let b := putLe (putLe (fun _ => 0) 0 8 magic) 8 4 version
  let b := putSlot (putSlot b 12 (st.slot 0)) 16 (st.slot 1)
  update b 20 st.lastSelected

def encode : Sector := putLe st.fields 24 4 (crc32 (bytes st.fields 0 24)).toNat

def slotAt (b : Nat → UInt8) (off : Nat) : Slot :=
  { priority := b off, triesRemaining := b (off + 1), successful := b (off + 2) }

def decode (data : List UInt8) : Option SlotState :=
  let b := fun i => data.getD i 0
  if data.length < 28 then none
  else if leAt b 0 8 ≠ magic then none
  else if leAt b 8 4 ≠ version then none
  else if leAt b 24 4 ≠ (crc32 (data.take 24)).toNat then none
  else some { slot := fun i => slotAt b (12 + 4 * i), lastSelected := b 20 }

theorem putSlot_of_not_mem {b : Sector} {off p : Nat} {s : Slot}
    (h : ¬ (off ≤ p ∧ p < off + 3)) : putSlot b off s p = b p := by
  unfold putSlot
  rw [update_of_ne (by omega), update_of_ne (by omega), update_of_ne (by omega)]

theorem slotAt_putSlot (b : Sector) (off : Nat) (s : Slot) : slotAt (putSlot b off s) off = s := by
  have h1 : off ≠ off + 2 := by omega
  have h2 : off ≠ off + 1 := by omega
  have h3 : off + 1 ≠ off + 2 := by omega
  unfold slotAt putSlot
  rw [update_self, update_of_ne h1, update_of_ne h2, update_self, update_of_ne h3, update_self]

theorem slotAt_congr {b b' : Nat → UInt8} {off : Nat}
    (h : ∀ p, off ≤ p → p < off + 3 → b p = b' p) : slotAt b off = slotAt b' off := by
  unfold slotAt
  rw [h off (by omega) (by omega), h (off + 1) (by omega) (by omega),
    h (off + 2) (by omega) (by omega)]

theorem encode_of_lt {p : Nat} (h : p < 24) : st.encode p = st.fields p :=
  putLe_apply_of_not_mem (by omega)

theorem fields_slot (i : Fin 2) : slotAt st.fields (12 + 4 * i) = st.slot i := by
  have houter : ∀ b : Sector, slotAt (update b 20 st.lastSelected) (12 + 4 * i) =
      slotAt b (12 + 4 * i) := by
    intro b
    refine slotAt_congr fun p hp hp' => update_of_ne ?_ _ _
    have := i.isLt
    omega
  unfold fields
  dsimp only
  rw [houter]
  match i with
  | 0 =>
    rw [slotAt_congr fun p hp hp' => putSlot_of_not_mem (by omega)]
    exact slotAt_putSlot _ _ _
  | 1 => exact slotAt_putSlot _ _ _

theorem leAt_fields_magic : leAt st.fields 0 8 = magic := by
  have h : leAt st.fields 0 8 = leAt (putLe (fun _ => 0) 0 8 magic) 0 8 := by
    refine leAt_congr fun p hp => ?_
    unfold fields
    rw [update_of_ne (by omega), putSlot_of_not_mem (by omega),
      putSlot_of_not_mem (by omega), putLe_apply_of_not_mem (by omega)]
  rw [h, leAt_putLe]
  rfl

theorem leAt_fields_version : leAt st.fields 8 4 = version := by
  have h : leAt st.fields 8 4 = leAt (putLe (putLe (fun _ => 0) 0 8 magic) 8 4 version) 8 4 := by
    refine leAt_congr fun p hp => ?_
    unfold fields
    rw [update_of_ne (by omega), putSlot_of_not_mem (by omega), putSlot_of_not_mem (by omega)]
  rw [h, leAt_putLe]
  rfl

theorem decode_encode : decode (bytes st.encode 0 slotsBytes) = some st := by
  have hget : ∀ p < slotsBytes, (bytes st.encode 0 slotsBytes).getD p 0 = st.encode p := by
    intro p hp
    simp [bytes, List.getD_eq_getElem?_getD, hp]
  have hlow : ∀ p < 24, (bytes st.encode 0 slotsBytes).getD p 0 = st.fields p := by
    intro p hp
    rw [hget p (by unfold slotsBytes; omega), encode_of_lt st hp]
  have htake : (bytes st.encode 0 slotsBytes).take 24 = bytes st.fields 0 24 := by
    unfold bytes slotsBytes
    rw [← List.map_take, List.take_range]
    refine List.map_congr_left fun p hp => ?_
    exact encode_of_lt st (by simpa using hp)
  unfold decode
  dsimp only
  rw [if_neg (by simp [bytes, slotsBytes]), if_neg, if_neg, if_neg]
  · have hslot : (fun i : Fin 2 => slotAt
        (fun p => (bytes st.encode 0 slotsBytes).getD p 0) (12 + 4 * i)) = st.slot := by
      funext i
      rw [← fields_slot st i]
      refine slotAt_congr fun p _ hp => hlow p ?_
      have := i.isLt
      omega
    rw [hslot, hlow 20 (by omega)]
    unfold fields
    rw [update_self]
  · rw [htake, not_not]
    have hcrc : leAt (fun p => (bytes st.encode 0 slotsBytes).getD p 0) 24 4 =
        leAt st.encode 24 4 :=
      leAt_congr fun p hp => hget _ (by unfold slotsBytes; omega)
    rw [hcrc, encode, leAt_putLe, Nat.mod_eq_of_lt (crc32_toNat_lt _)]
  · rw [not_not, ← leAt_fields_version st]
    exact leAt_congr fun p hp => hlow _ (by omega)
  · rw [not_not, ← leAt_fields_magic st]
    exact leAt_congr fun p hp => hlow _ (by omega)

end SlotState
end NexoOS.Update
