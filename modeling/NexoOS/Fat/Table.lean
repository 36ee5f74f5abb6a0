import NexoOS.Fat.WellFormed

/-!
# Writing an entry of the allocation table

`fat_set` seen as a change to the bytes of the first copy of the table. A
12-bit entry shares a byte with its neighbour and may straddle two sectors;
at every cut the other entries keep their values.
-/

namespace NexoOS.Fat.Volume

open Disk Function List Prod Prog

variable {v : Volume} {img img' : Image} {c c' value : Nat} {B B' : Nat → UInt8}

/-! ## Entries as bytes -/

variable (v)

/-- First byte and number of bytes of an entry. -/
def entryStart (c : Nat) : Nat :=
  match v.kind with
  | .fat32 => c * 4
  | .fat16 => c * 2
  | .fat12 => c * 3 / 2

def entryWidth : Nat :=
  match v.kind with
  | .fat32 => 4
  | .fat16 => 2
  | .fat12 => 2

/-- The table is long enough for the entry. -/
def InTable (c : Nat) : Prop :=
  (v.entryStart c + v.entryWidth - 1) / sectorBytes < v.fatSectors

/-- The value of an entry in a table with bytes `B`. -/
def rawOf (B : Nat → UInt8) (c : Nat) : Nat :=
  match v.kind with
  | .fat32 => leAt B (c * 4) 4 % 2 ^ 28
  | .fat16 => leAt B (c * 2) 2
  | .fat12 =>
    let raw := (B (c * 3 / 2)).toNat + 256 * (B (c * 3 / 2 + 1)).toNat
    if c % 2 = 1 then raw / 16 else raw % 4096

theorem fatByte_eq (img : Image) (sec i : Nat) (hi : i < sectorBytes) :
    v.fatByte img (sec * sectorBytes + i) = img (v.fatStart + sec) i := by
  simp only [fatByte, sectorBytes] at *
  rw [show (sec * 512 + i) / 512 = sec by omega, show (sec * 512 + i) % 512 = i by omega]

variable {n j : Nat} {b : Sector} {cs : List Nat}

theorem leAt_fatByte (img : Image) {o : Nat} (h : o % sectorBytes + n ≤ sectorBytes) :
    leAt (img (v.fatStart + o / sectorBytes)) (o % sectorBytes) n = leAt (v.fatByte img) o n := by
  refine leAt_congr fun i hi => ?_
  simp only [fatByte, sectorBytes] at *
  rw [show (o + i) / 512 = o / 512 by omega, show (o + i) % 512 = o % 512 + i by omega]

/-- The byte after `o` is the first of the next sector or the next of this one. -/
theorem fatByte_succ (img : Image) (o : Nat) :
    v.fatByte img (o + 1) = if o % sectorBytes = sectorBytes - 1 then
      img (v.fatStart + o / sectorBytes + 1) 0
      else img (v.fatStart + o / sectorBytes) (o % sectorBytes + 1) := by
  unfold fatByte
  split <;> simp only [sectorBytes] at *
  · rw [show (o + 1) / 512 = o / 512 + 1 by omega, show (o + 1) % 512 = 0 by omega, add_assoc]
  · rw [show (o + 1) / 512 = o / 512 by omega, show (o + 1) % 512 = o % 512 + 1 by omega]

theorem fatRaw_eq (img : Image) (c : Nat) :
    (v.InTable c ∧ v.fatRaw img c = .ok (v.rawOf (v.fatByte img) c)) ∨
      (¬ v.InTable c ∧ v.fatRaw img c = .error (.corrupted "indice na FAT")) := by
  unfold fatRaw rawOf InTable entryStart entryWidth
  cases hk : v.kind with
  | fat32 =>
    dsimp only
    rw [u32At, leAt_fatByte v img (by simp only [sectorBytes]; omega)]
    simp only [sectorBytes]
    by_cases h : v.fatSectors ≤ c * 4 / 512
    · exact .inr ⟨by omega, if_pos h⟩
    · exact .inl ⟨by omega, if_neg h⟩
  | fat16 =>
    dsimp only
    rw [u16At, leAt_fatByte v img (by simp only [sectorBytes]; omega)]
    simp only [sectorBytes]
    by_cases h : v.fatSectors ≤ c * 2 / 512
    · exact .inr ⟨by omega, if_pos h⟩
    · exact .inl ⟨by omega, if_neg h⟩
  | fat12 =>
    dsimp only
    have hlo : img (v.fatStart + c * 3 / 2 / sectorBytes) (c * 3 / 2 % sectorBytes) =
        v.fatByte img (c * 3 / 2) := rfl
    rw [← fatByte_succ, hlo]
    by_cases h : v.fatSectors ≤ (c * 3 / 2 + 1) / sectorBytes
    · exact .inr ⟨not_lt.2 h, if_pos h⟩
    · exact .inl ⟨not_le.1 h, if_neg h⟩

variable {v}

theorem inTable_of_fatRaw (h : v.fatRaw img c = .ok n) : v.InTable c := by
  rcases v.fatRaw_eq img c with ⟨ht, _⟩ | ⟨_, herr⟩
  · exact ht
  · rw [herr] at h
    cases h

theorem fatRaw_of_inTable (h : v.InTable c) : v.fatRaw img c = .ok (v.rawOf (v.fatByte img) c) := by
  rcases v.fatRaw_eq img c with ⟨_, hok⟩ | ⟨hn, _⟩
  · exact hok
  · exact absurd h hn

theorem fatRaw_of_not_inTable (h : ¬ v.InTable c) :
    v.fatRaw img c = .error (.corrupted "indice na FAT") := by
  rcases v.fatRaw_eq img c with ⟨ht, _⟩ | ⟨_, herr⟩
  · exact absurd ht h
  · exact herr

/-! ## The bytes after `fat_set` -/

/-- The bytes of the table with `value` in the entry of `c`. -/
def bytesWith (v : Volume) (B : Nat → UInt8) (c value : Nat) : Nat → UInt8 :=
  match v.kind with
  | .fat32 => putLe B (c * 4) 4 (leAt B (c * 4) 4 / 2 ^ 28 * 2 ^ 28 + value % 2 ^ 28)
  | .fat16 => putLe B (c * 2) 2 value
  | .fat12 =>
    update (update B (c * 3 / 2) (lo12 c value (B (c * 3 / 2))))
      (c * 3 / 2 + 1) (hi12 c value (B (c * 3 / 2 + 1)))

/-- An odd entry leaves the low half of its first byte alone, an even one the
high half of its second. -/
theorem lo12_mod (hc : c % 2 = 1) (value : Nat) (lo : UInt8) :
    (lo12 c value lo).toNat % 16 = lo.toNat % 16 := by
  rw [lo12, if_pos hc, UInt8.toNat_ofNat']
  omega

theorem hi12_div (hc : c % 2 ≠ 1) (value : Nat) (hi : UInt8) :
    (hi12 c value hi).toNat / 16 = hi.toNat / 16 := by
  have := hi.toNat_lt
  rw [hi12, if_neg hc, UInt8.toNat_ofNat']
  omega

theorem bytesWith_outside (hj : j < v.entryStart c ∨ v.entryStart c + v.entryWidth ≤ j) :
    v.bytesWith B c value j = B j := by
  unfold bytesWith
  unfold entryStart entryWidth at hj
  cases hk : v.kind with
  | fat32 | fat16 =>
    rw [hk] at hj
    exact putLe_apply_of_not_mem (by dsimp only at hj; omega)
  | fat12 =>
    rw [hk] at hj
    dsimp only at hj ⊢
    rw [update_of_ne (by omega), update_of_ne (by omega)]

/-- With each byte of another entry old or new, that entry keeps its value. -/
theorem rawOf_other (hc : c' ≠ c)
    (h : ∀ j, v.entryStart c' ≤ j → j < v.entryStart c' + v.entryWidth →
      B' j = B j ∨ B' j = v.bytesWith B c value j) : v.rawOf B' c' = v.rawOf B c' := by
  have hout : ∀ j, v.entryStart c' ≤ j → j < v.entryStart c' + v.entryWidth →
      (j < v.entryStart c ∨ v.entryStart c + v.entryWidth ≤ j) → B' j = B j := by
    intro j h₁ h₂ h₃
    rcases h j h₁ h₂ with h | h
    · exact h
    · rw [h, bytesWith_outside h₃]
  unfold entryStart entryWidth at hout h
  unfold rawOf
  cases hk : v.kind with
  | fat32 | fat16 =>
    rw [hk] at hout
    dsimp only at hout ⊢
    rw [leAt_congr fun i hi => hout (_ + i) (by omega) (by omega) (by omega)]
  | fat12 =>
    rw [hk] at hout h
    dsimp only at hout h ⊢
    by_cases hodd : c' % 2 = 1
    · -- the first byte may be shared with the even entry before it
      rw [if_pos hodd, if_pos hodd, hout (c' * 3 / 2 + 1) (by omega) (by omega) (by omega)]
      have hlo : (B' (c' * 3 / 2)).toNat / 16 = (B (c' * 3 / 2)).toNat / 16 := by
        rcases h (c' * 3 / 2) (by omega) (by omega) with h | h
        · rw [h]
        by_cases hshare : c' * 3 / 2 = c * 3 / 2 + 1
        · rw [h, bytesWith, hk]
          dsimp only
          rw [hshare, update_self, hi12_div (by omega)]
        · rw [hout (c' * 3 / 2) (by omega) (by omega) (by omega)]
      have := (B (c' * 3 / 2)).toNat_lt
      have := (B' (c' * 3 / 2)).toNat_lt
      omega
    · -- the second byte may be shared with the odd entry after it
      rw [if_neg hodd, if_neg hodd, hout (c' * 3 / 2) (by omega) (by omega) (by omega)]
      have hhi : (B' (c' * 3 / 2 + 1)).toNat % 16 = (B (c' * 3 / 2 + 1)).toNat % 16 := by
        rcases h (c' * 3 / 2 + 1) (by omega) (by omega) with h | h
        · rw [h]
        by_cases hshare : c' * 3 / 2 + 1 = c * 3 / 2
        · rw [h, bytesWith, hk]
          dsimp only
          rw [hshare, update_of_ne (by omega), update_self, lo12_mod (by omega)]
        · rw [hout (c' * 3 / 2 + 1) (by omega) (by omega) (by omega)]
      omega

theorem rawOf_congr (h : ∀ j, v.entryStart c ≤ j → j < v.entryStart c + v.entryWidth →
    B' j = B j) : v.rawOf B' c = v.rawOf B c := by
  have hany : ∀ j, v.entryStart c ≤ j → j < v.entryStart c + v.entryWidth →
      B' j = B j ∨ B' j = v.bytesWith B (c + 1) 0 j := fun j h₁ h₂ => .inl (h j h₁ h₂)
  exact rawOf_other (Nat.succ_ne_self c).symm hany

/-- Values an entry can hold. -/
def valueLimit : FatKind → Nat
  | .fat32 => 2 ^ 28
  | .fat16 => 2 ^ 16
  | .fat12 => 2 ^ 12

theorem rawOf_self (h : ∀ j, v.entryStart c ≤ j → j < v.entryStart c + v.entryWidth →
      B' j = v.bytesWith B c value j) : v.rawOf B' c = value % valueLimit v.kind := by
  unfold entryStart entryWidth at h
  unfold rawOf
  unfold bytesWith at h
  cases hk : v.kind with
  | fat32 | fat16 =>
    rw [hk] at h
    dsimp only [valueLimit] at h ⊢
    have := leAt_lt B (c * 4) 4
    rw [leAt_congr fun i hi => h (_ + i) (by omega) (by omega), leAt_putLe]
    omega
  | fat12 =>
    rw [hk] at h
    dsimp only [valueLimit] at h ⊢
    rw [h (c * 3 / 2) (by omega) (by omega), h (c * 3 / 2 + 1) (by omega) (by omega),
      update_self, update_of_ne (by omega), update_self]
    unfold lo12 hi12
    have := (B (c * 3 / 2)).toNat_lt
    have := (B (c * 3 / 2 + 1)).toNat_lt
    split <;> simp only [UInt8.toNat_ofNat'] <;> omega

theorem bytesWith_reserved (hk : v.kind = .fat32) (j : Nat) :
    leAt (v.bytesWith B c value) (j * 4) 4 / 2 ^ 28 = leAt B (j * 4) 4 / 2 ^ 28 := by
  by_cases hj : j = c
  · have := leAt_lt B (c * 4) 4
    rw [hj, bytesWith, hk, leAt_putLe]
    omega
  · rw [leAt_congr fun i hi => bytesWith_outside ?_]
    rw [entryStart, entryWidth, hk]
    dsimp only
    omega

/-! ## The sectors written -/

theorem div_mul_add_mod (off : Nat) : off / sectorBytes * sectorBytes + off % sectorBytes = off :=
  Nat.div_add_mod' off sectorBytes

theorem fatSectorsWith_fat12 {off sec : Nat} {s : Sector}
    (h : (sec, s) ∈ if off % sectorBytes = sectorBytes - 1 then
        [(off / sectorBytes, update (img (v.fatStart + off / sectorBytes))
            (off % sectorBytes) (lo12 c value (v.fatByte img off))),
          (off / sectorBytes + 1, update (img (v.fatStart + off / sectorBytes + 1)) 0
            (hi12 c value (v.fatByte img (off + 1))))] else
        [(off / sectorBytes, update (update (img (v.fatStart + off / sectorBytes))
            (off % sectorBytes) (lo12 c value (v.fatByte img off))) (off % sectorBytes + 1)
            (hi12 c value (v.fatByte img (off + 1))))])
    (ht : (off + 1) / sectorBytes < v.fatSectors) : sec < v.fatSectors ∧ ∀ i < sectorBytes, s i =
      update (update (v.fatByte img) off (lo12 c value (v.fatByte img off)))
        (off + 1) (hi12 c value (v.fatByte img (off + 1))) (sec * sectorBytes + i) := by
  have hoff := div_mul_add_mod off
  have hsec : off / sectorBytes < v.fatSectors :=
    lt_of_le_of_lt (Nat.div_le_div_right (by omega)) ht
  by_cases hlast : off % sectorBytes = sectorBytes - 1
  · have hpos : 0 < sectorBytes := by decide
    have hnext : (off / sectorBytes + 1) * sectorBytes = off + 1 := by
      rw [add_mul, one_mul]
      omega
    rw [if_pos hlast] at h
    rcases mem_cons.1 h with h | h
    · -- the first of two sectors ends with the low byte
      cases h
      refine ⟨hsec, fun i hi => ?_⟩
      have hne : off / sectorBytes * sectorBytes + i ≠ off + 1 := by omega
      rw [update_shift (off / sectorBytes * sectorBytes) (fatByte_eq v img _ i hi).symm, hoff,
        update_of_ne hne]
    · -- the second starts with the high byte
      obtain ⟨rfl, rfl⟩ := Prod.mk.inj (mem_singleton.1 h)
      refine ⟨by rwa [← hnext, Nat.mul_div_cancel _ hpos] at ht, fun i hi => ?_⟩
      have hold : img (v.fatStart + off / sectorBytes + 1) i =
          update (v.fatByte img) off (lo12 c value (v.fatByte img off)) (off + 1 + i) := by
        rw [update_of_ne (by omega), ← hnext, fatByte_eq v img _ i hi, add_assoc]
      rw [update_shift (off + 1) hold, hnext, add_zero]
  · rw [if_neg hlast] at h
    obtain ⟨rfl, rfl⟩ := Prod.mk.inj (mem_singleton.1 h)
    refine ⟨hsec, fun i hi => ?_⟩
    have hold := update_shift (o := off % sectorBytes) (x := lo12 c value (v.fatByte img off))
      (off / sectorBytes * sectorBytes) (fatByte_eq v img _ i hi).symm
    rw [update_shift (off / sectorBytes * sectorBytes) hold, ← add_assoc, hoff]

/-- The sectors `fat_set` writes hold the new bytes of the table, and lie
within it. -/
theorem fatSectorsWith_mem {sec : Nat} {s : Sector} (ht : v.InTable c)
    (h : (sec, s) ∈ v.fatSectorsWith img c value) : sec < v.fatSectors ∧
      ∀ i < sectorBytes, s i = v.bytesWith (v.fatByte img) c value (sec * sectorBytes + i) := by
  unfold fatSectorsWith at h
  unfold InTable entryStart entryWidth at ht
  unfold bytesWith
  cases hk : v.kind with
  | fat32 =>
    rw [hk] at h ht
    obtain ⟨rfl, rfl⟩ := Prod.mk.inj (mem_singleton.1 h)
    dsimp only at ht ⊢
    refine ⟨lt_of_le_of_lt (Nat.div_le_div_right (by omega)) ht, fun i hi => ?_⟩
    rw [u32At, leAt_fatByte v img (by simp only [sectorBytes]; omega),
      putLe_shift (c * 4 / sectorBytes * sectorBytes) (fatByte_eq v img _ i hi).symm,
      div_mul_add_mod]
  | fat16 =>
    rw [hk] at h ht
    obtain ⟨rfl, rfl⟩ := Prod.mk.inj (mem_singleton.1 h)
    dsimp only at ht ⊢
    refine ⟨lt_of_le_of_lt (Nat.div_le_div_right (by omega)) ht, fun i hi => ?_⟩
    rw [putLe_shift (c * 2 / sectorBytes * sectorBytes) (fatByte_eq v img _ i hi).symm,
      div_mul_add_mod]
  | fat12 =>
    rw [hk] at h ht
    refine fatSectorsWith_fat12 ?_ ht
    have hlo : ∀ off, img (v.fatStart + off / sectorBytes) (off % sectorBytes) = v.fatByte img off :=
      fun _ => rfl
    dsimp only at h
    rw [hlo] at h
    by_cases hlast : c * 3 / 2 % sectorBytes = sectorBytes - 1
    · rw [if_pos hlast] at h ⊢
      rwa [fatByte_succ, if_pos hlast]
    · rw [if_neg hlast] at h ⊢
      rwa [fatByte_succ, if_neg hlast]

/-- Every byte of the entry is in a sector that is written, once. -/
theorem fatSectorsWith_cover (h₁ : v.entryStart c ≤ j) (h₂ : j < v.entryStart c + v.entryWidth) :
    ∃ s, (j / sectorBytes, s) ∈ v.fatSectorsWith img c value := by
  unfold entryStart at h₁ h₂
  unfold entryWidth at h₂
  unfold fatSectorsWith
  cases hk : v.kind with
  | fat32 | fat16 =>
    rw [hk] at h₁ h₂
    dsimp only at h₁ h₂ ⊢
    refine ⟨_, mem_singleton.2 (Prod.ext ?_ rfl)⟩
    simp only [sectorBytes]
    omega
  | fat12 =>
    rw [hk] at h₁ h₂
    dsimp only at h₁ h₂ ⊢
    split
    · rename_i hlast
      simp only [sectorBytes] at hlast ⊢
      by_cases hj : j = c * 3 / 2
      · exact ⟨_, mem_cons.2 (.inl (by rw [hj]))⟩
      · rw [show j / 512 = c * 3 / 2 / 512 + 1 by omega]
        exact ⟨_, mem_cons.2 (.inr (mem_singleton.2 rfl))⟩
    · rename_i hlast
      simp only [sectorBytes] at hlast ⊢
      rw [show j / 512 = c * 3 / 2 / 512 by omega]
      exact ⟨_, mem_singleton.2 rfl⟩

/-- The value of an entry depends on the first copy of the table only. -/
theorem fatRaw_congr (g : v.Geometry)
    (h : ∀ a, v.fatStart ≤ a → a < v.rootDirStart → img' a = img a) (x : Nat) :
    v.fatRaw img' x = v.fatRaw img x := by
  obtain ⟨n, hn, hroot⟩ := g.copies
  have hle : v.fatSectors ≤ n * v.fatSectors := Nat.le_mul_of_pos_left _ hn
  by_cases ht : v.InTable x
  · rw [fatRaw_of_inTable ht, fatRaw_of_inTable ht]
    congr 1
    refine rawOf_congr fun j h₁ h₂ => ?_
    have hj : j / sectorBytes < v.fatSectors :=
      lt_of_le_of_lt (Nat.div_le_div_right (by omega)) ht
    rw [fatByte, fatByte, h _ (Nat.le_add_right _ _) (by omega)]
  · rw [fatRaw_of_not_inTable ht, fatRaw_of_not_inTable ht]

/-! ## `fat_set` -/

theorem Geometry.fatCopies_eq (g : v.Geometry) :
    0 < v.fatCopies ∧ v.rootDirStart = v.fatStart + v.fatCopies * v.fatSectors := by
  obtain ⟨n, hn, hroot⟩ := g.copies
  have hcopies : v.fatCopies = n := by
    rw [fatCopies, hroot, Nat.add_sub_cancel_left, Nat.mul_div_cancel _ g.fat_pos]
  rw [hcopies]
  exact ⟨hn, hroot⟩

theorem mem_tableWrites {ss : List (Nat × Sector)} {a : Nat} :
    (a, b) ∈ v.tableWrites ss ↔
      ∃ k < v.fatCopies, ∃ sec, (sec, b) ∈ ss ∧ a = v.fatStart + k * v.fatSectors + sec := by
  simp only [tableWrites, mem_flatMap, mem_range, mem_map, Prod.exists, Prod.mk.injEq]
  constructor
  · rintro ⟨k, hk, sec, s, hs, rfl, rfl⟩
    exact ⟨k, hk, sec, hs, rfl⟩
  · rintro ⟨k, hk, sec, hs, rfl⟩
    exact ⟨k, hk, sec, b, hs, rfl, rfl⟩

section
variable (ht : v.InTable c)
include ht

theorem tableWrites_within (g : v.Geometry) {a : Nat}
    (h : (a, b) ∈ v.tableWrites (v.fatSectorsWith img c value)) :
    v.fatStart ≤ a ∧ a < v.rootDirStart := by
  obtain ⟨k, hk, sec, hs, rfl⟩ := mem_tableWrites.1 h
  have hsec := (fatSectorsWith_mem ht hs).1
  have hle : (k + 1) * v.fatSectors ≤ v.fatCopies * v.fatSectors := Nat.mul_le_mul_right _ hk
  rw [add_mul, one_mul] at hle
  rw [g.fatCopies_eq.2]
  omega

variable {k sec i : Nat} (hsec : sec < v.fatSectors) (hi : i < sectorBytes)
include hsec hi

theorem tableWrites_bytes
    (h : (v.fatStart + k * v.fatSectors + sec, b) ∈ v.tableWrites (v.fatSectorsWith img c value)) :
    b i = v.bytesWith (v.fatByte img) c value (sec * sectorBytes + i) := by
  obtain ⟨k', _, sec', hs, ha⟩ := mem_tableWrites.1 h
  obtain ⟨hsec', hbytes⟩ := fatSectorsWith_mem ht hs
  have hmod : (k * v.fatSectors + sec) % v.fatSectors = (k' * v.fatSectors + sec') % v.fatSectors :=
    congrArg (· % v.fatSectors) (by omega)
  rw [Nat.mul_add_mod', Nat.mul_add_mod', Nat.mod_eq_of_lt hsec, Nat.mod_eq_of_lt hsec'] at hmod
  rw [hmod]
  exact hbytes i hi

/-- With all of them done, a copy that was as the first one has the new bytes. -/
theorem writeAll_copy (hk : k < v.fatCopies)
    (hold : img (v.fatStart + k * v.fatSectors + sec) i = img (v.fatStart + sec) i) :
    img.writeAll (v.tableWrites (v.fatSectorsWith img c value))
        (v.fatStart + k * v.fatSectors + sec) i =
      v.bytesWith (v.fatByte img) c value (sec * sectorBytes + i) := by
  by_cases hin : ∃ b, (v.fatStart + k * v.fatSectors + sec, b) ∈
      v.tableWrites (v.fatSectorsWith img c value)
  · obtain ⟨b, hb⟩ := hin
    obtain ⟨b', hb', hval⟩ := writeAll_mem (d := img) hb
    rw [hval]
    exact tableWrites_bytes ht hsec hi hb'
  -- a byte of the entry would be written
  have hout : sec * sectorBytes + i < v.entryStart c ∨
      v.entryStart c + v.entryWidth ≤ sec * sectorBytes + i := by
    by_contra hentry
    obtain ⟨s, hs⟩ : ∃ s, ((sec * sectorBytes + i) / sectorBytes, s) ∈ v.fatSectorsWith img c value :=
      fatSectorsWith_cover (by omega) (by omega)
    rw [show (sec * sectorBytes + i) / sectorBytes = sec by simp only [sectorBytes] at *; omega] at hs
    exact hin ⟨s, mem_tableWrites.2 ⟨k, hk, sec, hs, rfl⟩⟩
  rw [bytesWith_outside hout, fatByte_eq v img sec i hi, ← hold]
  rcases (cut_writeAll img (v.tableWrites (v.fatSectorsWith img c value))).mem
    (v.fatStart + k * v.fatSectors + sec) with h | ⟨b, hb, _⟩
  · rw [h]
  · exact absurd ⟨b, hb⟩ hin

theorem writeAll_first (hcopies : 0 < v.fatCopies) (img : Image) (value : Nat) :
    img.writeAll (v.tableWrites (v.fatSectorsWith img c value)) (v.fatStart + sec) i =
      v.bytesWith (v.fatByte img) c value (sec * sectorBytes + i) := by
  have hzero : v.fatStart + sec = v.fatStart + 0 * v.fatSectors + sec := by omega
  rw [hzero]
  exact writeAll_copy ht hsec hi hcopies (by rw [← hzero])

end

/-- The images differ in the copies of the table only, and there in no other
entry than that of `c`. -/
structure TableOnly (v : Volume) (img img' : Image) (c : Nat) : Prop where
  outside : ∀ a, ¬ (v.fatStart ≤ a ∧ a < v.rootDirStart) → img' a = img a
  raw : ∀ c', c' ≠ c → v.fatRaw img' c' = v.fatRaw img c'

theorem TableOnly.data (g : v.Geometry) (h : v.TableOnly img img' c) (c' k : Nat) :
    img' (v.clusterStart c' + k) = img (v.clusterStart c' + k) := by
  have := g.data
  exact h.outside _ (by rw [clusterStart]; omega)

theorem TableOnly.agree (g : v.Geometry) (h : v.TableOnly img img' c) :
    v.Agree img img' (· = c) := by
  have hbase := g.base_lt
  exact ⟨h.outside _ (by omega), fun i _ => h.outside _ (by omega), fun c' _ hne => h.raw c' hne,
    fun c' _ _ k _ => h.data g c' k⟩

section
variable (ht : v.InTable c)
include ht

theorem fatRaw_of_cut
    (hcut : Disk.Cut whole img (v.tableWrites (v.fatSectorsWith img c value)) img')
    (hne : c' ≠ c) : v.fatRaw img' c' = v.fatRaw img c' := by
  by_cases ht' : v.InTable c'
  · rw [fatRaw_of_inTable ht', fatRaw_of_inTable ht', rawOf_other hne]
    intro j hj₁ hj₂
    have hj : j / sectorBytes < v.fatSectors :=
      lt_of_le_of_lt (Nat.div_le_div_right (by omega)) ht'
    rcases hcut.mem (v.fatStart + 0 * v.fatSectors + j / sectorBytes) with h | ⟨b, hb, h⟩ <;>
      rw [Nat.zero_mul, add_zero] at h
    · exact .inl (congrFun h _)
    · have hnew := tableWrites_bytes ht hj (Nat.mod_lt j (by decide)) hb
      rw [div_mul_add_mod] at hnew
      exact .inr ((congrFun h _).trans hnew)
  · rw [fatRaw_of_not_inTable ht', fatRaw_of_not_inTable ht']

theorem tableOnly_of_cut (g : v.Geometry)
    (hcut : Disk.Cut whole img (v.tableWrites (v.fatSectorsWith img c value)) img') :
    v.TableOnly img img' c := by
  refine ⟨fun a ha => ?_, fun c' hne => fatRaw_of_cut ht hcut hne⟩
  rcases hcut.mem a with h | ⟨b, hb, _⟩
  · exact h
  · exact absurd (tableWrites_within ht g hb) ha

variable (hcopies : 0 < v.fatCopies)
include hcopies

theorem fatByte_writeAll (hj : j / sectorBytes < v.fatSectors) :
    v.fatByte (img.writeAll (v.tableWrites (v.fatSectorsWith img c value))) j =
      v.bytesWith (v.fatByte img) c value j := by
  have h := writeAll_first ht hj (Nat.mod_lt j (by decide : 0 < sectorBytes)) hcopies img value
  rwa [div_mul_add_mod] at h

theorem fatRaw_writeAll : v.fatRaw (img.writeAll (v.tableWrites (v.fatSectorsWith img c value))) c =
      .ok (value % valueLimit v.kind) := by
  rw [fatRaw_of_inTable ht, rawOf_self]
  intro j hj₁ hj₂
  exact fatByte_writeAll ht hcopies (lt_of_le_of_lt (Nat.div_le_div_right (by omega)) ht)

end

theorem holds_fatSet (g : v.Geometry) (hc : v.InRange c) (ht : v.InTable c)
    (hv : value < valueLimit v.kind) :
    Prog.Holds whole (v.fatSet c value) () img (fun d => v.TableOnly img d c)
      (fun r _ d => r = .ok () ∧ v.TableOnly img d c ∧ v.fatRaw d c = .ok value) := by
  unfold fatSet
  rw [if_neg (by have := hc.1; have := hc.2; omega)]
  refine holds_bind_reading rfl ?_
  exact holds_writeList (fun d' h => tableOnly_of_cut ht g h)
    ⟨rfl, tableOnly_of_cut ht g (cut_writeAll _ _),
      by rw [fatRaw_writeAll ht g.fatCopies_eq.1, Nat.mod_eq_of_lt hv]⟩

/-! ## The table as an array -/

/-- Every copy of the table is as the first. -/
def CopiesAgree (v : Volume) (img : Image) : Prop :=
  ∀ k < v.fatCopies, ∀ sec < v.fatSectors, ∀ i < sectorBytes,
    img (v.fatStart + k * v.fatSectors + sec) i = img (v.fatStart + sec) i

/-- From `img` to `img'` entry `i` gets `value` as in an array, in every copy. -/
structure Updates (v : Volume) (img img' : Image) (i value : Nat) : Prop where
  self : v.fatRaw img' i = .ok (value % valueLimit v.kind)
  other : ∀ j, v.InRange j → j ≠ i → v.fatRaw img' j = v.fatRaw img j
  reserved : v.kind = .fat32 → ∀ j, v.InRange j →
    leAt (v.fatByte img') (j * 4) 4 / 2 ^ 28 = leAt (v.fatByte img) (j * 4) 4 / 2 ^ 28
  copies : v.CopiesAgree img → v.CopiesAgree img'

theorem updates_writeAll (hall : ∀ c, v.InRange c → v.InTable c) (hc : v.InRange c)
    (hcopies : 0 < v.fatCopies) :
    v.Updates img (img.writeAll (v.tableWrites (v.fatSectorsWith img c value))) c value where
  self := fatRaw_writeAll (hall c hc) hcopies
  other := fun j _ hne => fatRaw_of_cut (hall c hc) (cut_writeAll _ _) hne
  reserved := by
    intro hk j hj
    have hin := hall j hj
    rw [InTable, entryStart, entryWidth, hk] at hin
    dsimp only at hin
    rw [leAt_congr fun i hi => fatByte_writeAll (hall c hc) hcopies
      (lt_of_le_of_lt (Nat.div_le_div_right (by omega)) hin), bytesWith_reserved hk j]
  copies := by
    intro hold k hk sec hsec i hi
    rw [writeAll_copy (hall c hc) hsec hi hk (hold k hk sec hsec i hi),
      writeAll_first (hall c hc) hsec hi hcopies]

/-- `fat_set` updates the table as an array exactly if the mounted geometry has a
copy of the table, or the entry holds the value already. -/
theorem fatSet_updates_iff (hall : ∀ c, v.InRange c → v.InTable c) (hc : v.InRange c)
    (value : Nat) : ((v.fatSet c value).eval () img).1 = .ok () ∧
    (v.Updates img ((v.fatSet c value).eval () img).2.2 c value ↔
      0 < v.fatCopies ∨ v.fatRaw img c = .ok (value % valueLimit v.kind)) := by
  have hrun : (v.fatSet c value).eval () img =
      (.ok (), (), img.writeAll (v.tableWrites (v.fatSectorsWith img c value))) := by
    unfold fatSet
    rw [if_neg (by have := hc.1; have := hc.2; omega), eval_bind]
    rfl
  rw [hrun]
  refine ⟨rfl, ?_⟩
  by_cases hcopies : 0 < v.fatCopies
  · exact ⟨fun _ => .inl hcopies, fun _ => updates_writeAll hall hc hcopies⟩
  -- without a copy nothing is written
  have hnone : v.tableWrites (v.fatSectorsWith img c value) = [] := by
    rw [tableWrites, Nat.eq_zero_of_not_pos hcopies]
    rfl
  rw [hnone, or_iff_right hcopies]
  exact ⟨fun h => h.self, fun h => ⟨h, fun _ _ _ => rfl, fun _ _ _ => rfl, fun h => h⟩⟩

/-- A sector with the given bytes, zero elsewhere. -/
def sectorOf (fields : List (Nat × UInt8)) : Sector := fun i => (fields.lookup i).getD 0

/-- A FAT32 volume of six sectors with two tables of `low + high * 2 ^ 24` sectors. -/
def wideImage (low high : UInt8) : Image := fun a =>
  if a = 0 then sectorOf [(12, 2), (13, 1), (14, 1), (16, 2), (19, 6), (36, low), (39, high),
    (44, 2), (510, 0x55), (511, 0xaa)]
  else fun _ => 0

def wideVolume (fatSectors dataStart totalClusters : Nat) : Volume :=
  { base := 0, kind := .fat32, sectorsPerCluster := 1, fatStart := 1, fatSectors,
    rootDirStart := dataStart, rootDirSectors := 0, dataStart, totalClusters, rootCluster := 2 }

theorem wideVolume_inTable {f d c : Nat} (hf : 0 < f) (hn : n ≤ 5)
    (hc : (wideVolume f d n).InRange c) : (wideVolume f d n).InTable c := by
  have hlt : c < n + 2 := hc.2
  change (c * 4 + 4 - 1) / 512 < f
  omega

theorem fatSet_updates_two_copies : let v := wideVolume 1 3 3
    mount (wideImage 1 0) 6 0 = .ok v ∧
    v.Updates (wideImage 1 0) ((v.fatSet 2 7).eval () (wideImage 1 0)).2.2 2 7 := by
  refine ⟨by decide +kernel, ?_⟩
  exact (fatSet_updates_iff (fun _ => wideVolume_inTable (by decide) (by decide))
    (by unfold InRange; decide) 7).2.2 (.inl (by decide))

/-- Two tables of `2 ^ 31` sectors: their product wraps to zero on mounting, so
`fat_set` takes the volume to have no table, and writes nothing. -/
theorem fatSet_writes_no_copy : let v := wideVolume (2 ^ 31) 1 5
    mount (wideImage 0 0x80) 6 0 = .ok v ∧ (∀ c, v.InRange c → v.InTable c) ∧ v.InRange 2 ∧
    ((v.fatSet 2 7).eval () (wideImage 0 0x80)).1 = .ok () ∧
    v.fatRaw ((v.fatSet 2 7).eval () (wideImage 0 0x80)).2.2 2 = .ok 0 := by
  refine ⟨by decide +kernel, fun _ => wideVolume_inTable (by decide) (by decide),
    by unfold InRange; decide, by decide +kernel, by decide +kernel⟩

/-! ## Freeing a chain -/

theorem nextCluster_none (hraw : v.fatRaw img c = .ok n) (h : v.nextCluster img c = .ok none) :
    v.isEnd n = true := by
  unfold nextCluster at h
  rw [hraw] at h
  by_contra hend
  rw [Bool.not_eq_true] at hend
  simp only [hend, Bool.false_eq_true, if_false] at h
  split at h <;> cases h

theorem nextCluster_some {m : Nat} (hraw : v.fatRaw img c = .ok n)
    (h : v.nextCluster img c = .ok (some m)) : m = n := by
  unfold nextCluster at h
  rw [hraw] at h
  dsimp only at h
  split at h
  · cases h
  split at h
  · cases h
  · exact (Option.some.inj (Except.ok.inj h)).symm

theorem Chain.fatRaw_ok (h : v.Chain img c cs) : ∃ n, v.fatRaw img c = .ok n := by
  have hnext : ∃ o, v.nextCluster img c = .ok o := by
    cases h with
    | last _ hn | link _ hn _ => exact ⟨_, hn⟩
  obtain ⟨o, ho⟩ := hnext
  unfold nextCluster at ho
  cases hraw : v.fatRaw img c with
  | ok n => exact ⟨n, rfl⟩
  | error e =>
    rw [hraw] at ho
    cases ho

theorem valueLimit_pos (k : FatKind) : 0 < valueLimit k := by
  cases k <;> decide

/-- One turn of the loop: the entry is read and freed before `k` goes on. -/
theorem holds_freeTurn (g : v.Geometry) (h : v.Chain img c cs)
    {k : Nat → FatM Unit} {Q : Except FatError Unit → Unit → Image → Prop}
    (hn : v.fatRaw img c = .ok n)
    (hk : ∀ d, v.TableOnly img d c → v.fatRaw d c = .ok 0 → Prog.Holds whole (k n) () d
      (fun d => v.Agree img d (· ∈ cs)) Q) : Prog.Holds whole
      ((reading fun img => v.fatRaw img c) >>= fun n => v.fatSet c 0 >>= fun _ => k n) () img
      (fun d => v.Agree img d (· ∈ cs)) Q := by
  have hc := h.inRange c h.head
  refine holds_bind_reading hn ?_
  refine holds_bind
    (((holds_fatSet g hc (inTable_of_fatRaw hn) (valueLimit_pos _)).imp
      (fun d' hd => (hd.agree g).mono fun x hx => hx ▸ h.head) fun _ _ _ hd => hd)) ?_
    (fun e s' d' hd => by cases hd.1)
  rintro _ _ d' ⟨_, hd, hzero⟩
  exact hk d' hd hzero

/-- Freeing a chain changes nothing but its clusters, at every cut; the first one
is freed in any case. -/
theorem holds_freeLoop (g : v.Geometry) (left : Nat) (h : v.Chain img c cs) :
    Prog.Holds whole (v.freeLoop left c) () img (fun d => v.Agree img d (· ∈ cs))
      (fun _ _ d => v.Agree img d (· ∈ cs) ∧ v.fatRaw d c = .ok 0) := by
  induction left generalizing img c cs with
  | zero =>
    have hc := h.inRange c h.head
    obtain ⟨n, hn⟩ := h.fatRaw_ok
    unfold freeLoop
    rw [if_neg (by have := hc.1; have := hc.2; omega)]
    refine holds_freeTurn g h hn fun d hd hzero => ?_
    have hagree := (hd.agree g).mono fun x hx => hx ▸ h.head
    exact holds_fail hagree ⟨hagree, hzero⟩
  | succ left ih =>
    have hc := h.inRange c h.head
    obtain ⟨n, hn⟩ := h.fatRaw_ok
    unfold freeLoop
    rw [if_neg (by have := hc.1; have := hc.2; omega)]
    refine holds_freeTurn g h hn fun d hd hzero => ?_
    have hagree : v.Agree img d (· ∈ cs) := (hd.agree g).mono fun x hx => hx ▸ h.head
    dsimp only
    split
    · exact holds_pure hagree ⟨hagree, hzero⟩
    rename_i hgo
    cases h with
    | last _ hnext => exact absurd (.inl (nextCluster_none hn hnext)) hgo
    | @link _ m cs' _ hnext hrest =>
      obtain rfl := nextCluster_some hn hnext
      have hnd := nodup_cons.1 (Chain.link hc hnext hrest).nodup
      have hrest' : v.Chain d m cs' := hrest.congr fun x hx =>
        hd.raw x fun heq => hnd.1 (heq ▸ hx)
      refine (ih hrest').imp (fun d₂ h₂ => ?_) (fun _ _ d₂ h₂ => ?_)
      · exact hagree.trans (h₂.mono fun x hx => mem_cons_of_mem _ hx)
      · refine ⟨hagree.trans (h₂.1.mono fun x hx => mem_cons_of_mem _ hx), ?_⟩
        rw [h₂.1.raw c hc hnd.1, hzero]

end NexoOS.Fat.Volume
