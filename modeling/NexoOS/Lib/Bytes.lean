import Mathlib

/-!
# Fields in byte buffers

A buffer is its bytes by offset. `leAt` reads a little-endian field, `putLe`
writes one, `splice` copies a buffer into another one, and the lemmas say what
each field holds after a write.
-/

namespace NexoOS

open Function

/-! ## Instances

With a name they are the same constants wherever they are used. -/

instance neZero_two : NeZero 2 := ⟨by decide⟩

instance neZero_four : NeZero 4 := ⟨by decide⟩

instance neZero_eight : NeZero 8 := ⟨by decide⟩

instance lawfulBEq_natNat : LawfulBEq (Nat × Nat) := inferInstance

instance lawfulBEq_natBool : LawfulBEq (Nat × Bool) := inferInstance

/-! ## Fields -/

/-- The number in the `n` bytes from offset `o` on, least significant first. -/
def leAt (b : Nat → UInt8) (o : Nat) : Nat → Nat
  | 0 => 0
  | n + 1 => (b o).toNat + 256 * leAt b (o + 1) n

/-- Byte `i` of the little-endian form of `v`. -/
def leByte (v i : Nat) : UInt8 := UInt8.ofNat (v / 256 ^ i)

/-- `b` with the `n` bytes from `o` on replaced by `v`. -/
def putLe (b : Nat → UInt8) (o n v : Nat) : Nat → UInt8 :=
  fun i => if o ≤ i ∧ i < o + n then leByte v (i - o) else b i

variable {b b' : Nat → UInt8} {o n v : Nat} {o' i n' : Nat}

theorem leAt_congr (h : ∀ i, i < n → b (o + i) = b' (o' + i)) : leAt b o n = leAt b' o' n := by
  induction n generalizing o o' with
  | zero => rfl
  | succ n ih =>
    have hrest : leAt b (o + 1) n = leAt b' (o' + 1) n := by
      refine ih fun i hi => ?_
      have := h (i + 1) (by omega)
      rwa [add_comm i 1, ← add_assoc, ← add_assoc] at this
    have hhead : b o = b' o' := h 0 (Nat.succ_pos n)
    rw [leAt, leAt, hhead, hrest]

theorem leAt_lt (b : Nat → UInt8) (o n : Nat) : leAt b o n < 256 ^ n := by
  induction n generalizing o with
  | zero => exact Nat.one_pos
  | succ n ih =>
    have hbyte : (b o).toNat < 256 := (b o).toNat_lt
    have := ih (o + 1)
    rw [leAt, Nat.pow_succ]
    omega

theorem toNat_leByte (v i : Nat) : (leByte v i).toNat = v / 256 ^ i % 256 := by
  rw [leByte, UInt8.toNat_ofNat']

theorem putLe_apply_of_not_mem (h : ¬ (o ≤ i ∧ i < o + n)) : putLe b o n v i = b i :=
  if_neg h

theorem putLe_shift (a : Nat) (h : b i = b' (a + i)) :
    putLe b o n v i = putLe b' (a + o) n v (a + i) := by
  unfold putLe
  by_cases hin : o ≤ i ∧ i < o + n
  · rw [if_pos hin, if_pos (by omega), Nat.add_sub_add_left]
  · rw [if_neg hin, if_neg (by omega), h]

theorem update_shift {x : UInt8} (a : Nat) (h : b i = b' (a + i)) :
    update b o x i = update b' (a + o) x (a + i) := by
  by_cases hin : i = o
  · rw [hin, update_self, update_self]
  · rw [update_of_ne hin, update_of_ne (by omega), h]

theorem leAt_leByte (v o n j : Nat) (h : ∀ i, i < n → b (o + i) = leByte v (j + i)) :
    leAt b o n = v / 256 ^ j % 256 ^ n := by
  induction n generalizing o j with
  | zero => simp [leAt, Nat.mod_one]
  | succ n ih =>
    have h₀ : b o = leByte v j := h 0 (Nat.succ_pos n)
    have hrest : leAt b (o + 1) n = v / 256 ^ (j + 1) % 256 ^ n := by
      refine ih (o + 1) (j + 1) fun i hi => ?_
      have := h (i + 1) (by omega)
      rwa [add_comm i 1, ← add_assoc, ← add_assoc] at this
    rw [leAt, h₀, hrest, toNat_leByte, Nat.pow_succ 256 j, ← Nat.div_div_eq_div_mul,
      Nat.pow_succ' (n := n), Nat.mod_mul]

theorem leAt_putLe (b : Nat → UInt8) (o n v : Nat) : leAt (putLe b o n v) o n = v % 256 ^ n := by
  rw [leAt_leByte v o n 0]
  · simp
  · intro i hi
    rw [putLe, if_pos (by omega)]
    simp

theorem leAt_putLe_of_disjoint (h : o' + n' ≤ o ∨ o + n ≤ o') :
    leAt (putLe b o n v) o' n' = leAt b o' n' :=
  leAt_congr fun i hi => if_neg (by omega)

/-! ## Runs of bytes -/

variable (b)

def bytes (o n : Nat) : List UInt8 := (List.range n).map fun i => b (o + i)

@[simp] theorem length_bytes (o n : Nat) : (bytes b o n).length = n := by
  simp [bytes]

theorem getElem?_bytes (o n j : Nat) :
    (bytes b o n)[j]? = if j < n then some (b (o + j)) else none := by
  rw [bytes, List.getElem?_map]
  split
  · rename_i h
    rw [List.getElem?_range h, Option.map_some]
  · rename_i h
    rw [List.getElem?_eq_none (by simpa using h), Option.map_none]

variable {b}

theorem bytes_congr (h : ∀ i, i < n → b (o + i) = b' (o' + i)) : bytes b o n = bytes b' o' n :=
  List.map_congr_left fun i hi => h i (List.mem_range.1 hi)

def window (b : Nat → UInt8) (o : Nat) : Nat → UInt8 := fun i => b (o + i)

/-- `b` with the `n` bytes from `o` on replaced by those of `s`. -/
def splice (b : Nat → UInt8) (o n : Nat) (s : Nat → UInt8) : Nat → UInt8 :=
  fun i => if o ≤ i ∧ i < o + n then s (i - o) else b i

variable {s : Nat → UInt8}

theorem splice_of_not_mem (h : ¬ (o ≤ i ∧ i < o + n)) : splice b o n s i = b i :=
  if_neg h

theorem window_splice (h : i < n) : window (splice b o n s) o i = s i := by
  rw [window, splice, if_pos (by omega), Nat.add_sub_cancel_left]

theorem window_splice_of_disjoint (hi : i < n') (h : o' + n' ≤ o ∨ o + n ≤ o') :
    window (splice b o n s) o' i = window b o' i :=
  if_neg (by omega)

variable (b)

theorem bytes_splice (o n : Nat) (s : Nat → UInt8) : bytes (splice b o n s) o n = bytes s 0 n := by
  refine bytes_congr fun i hi => ?_
  rw [splice, if_pos (by omega), Nat.add_sub_cancel_left, zero_add]

theorem bytes_window (o n : Nat) : bytes (window b o) 0 n = bytes b o n :=
  bytes_congr fun i _ => by rw [window, zero_add]

/-- `b` with the numbers `f 0, …, f (n - 1)` as 64-bit words from `o` on. -/
def putWords (o n : Nat) (f : Nat → Nat) : Nat → UInt8 :=
  splice b o (8 * n) fun i => leByte (f (i / 8)) (i % 8)

variable {b}

theorem leAt_putWords {f : Nat → Nat} {k : Nat} (hk : k < n) :
    leAt (putWords b o n f) (o + 8 * k) 8 = f k % 256 ^ 8 := by
  rw [leAt_leByte (f k) (o + 8 * k) 8 0]
  · simp
  · intro i hi
    rw [putWords, splice, if_pos (by omega), add_assoc, Nat.add_sub_cancel_left,
      Nat.mul_add_div (by omega), Nat.mul_add_mod, Nat.div_eq_of_lt hi, Nat.mod_eq_of_lt hi,
      add_zero, zero_add]

theorem leAt_putWords_of_disjoint {f : Nat → Nat} (h : o' + n' ≤ o ∨ o + 8 * n ≤ o') :
    leAt (putWords b o n f) o' n' = leAt b o' n' :=
  leAt_congr fun i hi => if_neg (by omega)

/-! ## CRC-32

The bitwise CRC with the reflected polynomial of IEEE 802.3. -/

def crcBit (crc : UInt32) : UInt32 := (crc >>> 1) ^^^ (0xedb88320 &&& (0 - (crc &&& 1)))

def crcByte (crc : UInt32) (b : UInt8) : UInt32 := Nat.repeat crcBit 8 (crc ^^^ b.toUInt32)

def crc32 (data : List UInt8) : UInt32 := ~~~ data.foldl crcByte 0xffffffff

-- the check value of the polynomial: the CRC of the digits 1 to 9
example : crc32 [0x31, 0x32, 0x33, 0x34, 0x35, 0x36, 0x37, 0x38, 0x39] = 0xcbf43926 := by
  decide +kernel

theorem crc32_toNat_lt (data : List UInt8) : (crc32 data).toNat < 256 ^ 4 :=
  (crc32 data).toBitVec.isLt

end NexoOS
