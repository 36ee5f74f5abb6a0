import Mathlib

/-!
# Addresses and page table entries

The address types of `kernel/lib/mm/src/addr.rs` and the flags and entries of
`arch/x86_64/src/paging.rs`, bit by bit.
-/

namespace NexoOS.Paging

def pageSize : UInt64 := 4096
def page2m : UInt64 := 2 * 1024 * 1024
def page1g : UInt64 := 1024 * 1024 * 1024
def addrMask : UInt64 := 0x000ffffffffff000

abbrev PhysAddr := UInt64
abbrev VirtAddr := UInt64

/-- `is_aligned`, for both kinds of address. -/
def isAligned (a align : UInt64) : Bool := a &&& (align - 1) == 0

def VirtAddr.isCanonical (v : VirtAddr) : Bool := v >>> 47 == 0 || v >>> 47 == 0x1ffff

def VirtAddr.pageOffset (v : VirtAddr) : UInt64 := v &&& (pageSize - 1)

/-- The nine bits of the level, 4 for the root table to 1. -/
def VirtAddr.tableIndex (v : VirtAddr) (level : Nat) : Nat :=
  ((v >>> (12 + 9 * (UInt64.ofNat level - 1))) &&& 0x1ff).toNat

/-! ## Flags -/

structure PageFlags where
  raw : UInt64
  deriving DecidableEq

namespace PageFlags

def present : PageFlags := ⟨1⟩
def writable : PageFlags := ⟨2⟩
def user : PageFlags := ⟨4⟩
def writeThrough : PageFlags := ⟨8⟩
def noCache : PageFlags := ⟨16⟩
def huge : PageFlags := ⟨128⟩
def noExecute : PageFlags := ⟨0x8000000000000000⟩

def bits (f : PageFlags) : UInt64 := f.raw &&& ~~~addrMask
def fromBits (b : UInt64) : PageFlags := ⟨b &&& ~~~addrMask⟩
def contains (f other : PageFlags) : Bool := f.raw &&& other.raw == other.raw
def union (f other : PageFlags) : PageFlags := ⟨f.raw ||| other.raw⟩
def without (f other : PageFlags) : PageFlags := ⟨f.raw &&& ~~~other.raw⟩

instance : OrOp PageFlags := ⟨union⟩

def kernelRw : PageFlags := present ||| writable ||| noExecute

end PageFlags

/-! ## Entries -/

structure PageTableEntry where
  raw : UInt64
  deriving DecidableEq

namespace PageTableEntry

def empty : PageTableEntry := ⟨0⟩
def new (addr : PhysAddr) (flags : PageFlags) : PageTableEntry :=
  ⟨(addr &&& addrMask) ||| flags.bits⟩
def isPresent (e : PageTableEntry) : Bool := e.raw &&& 1 != 0
def isHuge (e : PageTableEntry) : Bool := e.raw &&& 128 != 0
def addr (e : PageTableEntry) : PhysAddr := e.raw &&& addrMask
def flags (e : PageTableEntry) : PageFlags := .fromBits e.raw

end PageTableEntry

/-! ## Facts about the bits -/

/-- The part of a word under a mask does not see the part outside it. -/
theorem and_mask_merge (a b mask : UInt64) :
    ((a &&& mask) ||| (b &&& ~~~mask)) &&& mask = a &&& mask := by
  apply UInt64.toBitVec_inj.mp
  ext i
  simp
  grind

theorem and_not_mask_merge (a b mask : UInt64) :
    ((a &&& mask) ||| (b &&& ~~~mask)) &&& ~~~mask = b &&& ~~~mask := by
  apply UInt64.toBitVec_inj.mp
  ext i
  simp
  grind

variable (a : PhysAddr) (f : PageFlags)

theorem new_addr : (PageTableEntry.new a f).addr = a &&& addrMask :=
  and_mask_merge _ _ _

theorem new_flags : (PageTableEntry.new a f).flags = ⟨f.bits⟩ :=
  congrArg PageFlags.mk (and_not_mask_merge _ _ _)

theorem new_raw_and {bit : UInt64} (h : bit &&& addrMask = 0) :
    (PageTableEntry.new a f).raw &&& bit = f.raw &&& bit := by
  have key : ∀ a r mask bit : UInt64, bit &&& mask = 0 →
      ((a &&& mask) ||| (r &&& ~~~mask)) &&& bit = r &&& bit := by
    intro a r mask bit h
    apply UInt64.toBitVec_inj.mp
    ext i hi
    have hb := congrArg (fun x => x.toBitVec[i]) h
    simp at hb ⊢
    grind
  exact key _ _ _ _ h

theorem tableIndex_eq (v : VirtAddr) {level : Nat} (h : 1 ≤ level) (h' : level ≤ 4) :
    v.tableIndex level = v.toNat / 2 ^ (12 + 9 * (level - 1)) % 512 := by
  have hs : ∀ k : UInt64, k.toNat < 64 →
      ((v >>> k) &&& 0x1ff).toNat = v.toNat / 2 ^ k.toNat % 512 := by
    intro k hk
    rw [UInt64.toNat_and, UInt64.toNat_shiftRight, Nat.mod_eq_of_lt hk, Nat.shiftRight_eq_div_pow]
    exact Nat.and_two_pow_sub_one_eq_mod _ 9
  unfold VirtAddr.tableIndex
  obtain rfl | rfl | rfl | rfl : level = 1 ∨ level = 2 ∨ level = 3 ∨ level = 4 := by omega
  all_goals exact hs _ (by decide)

theorem isAligned_iff (a : UInt64) {align : UInt64} {k : Nat} (h : (align - 1).toNat = 2 ^ k - 1) :
    isAligned a align = true ↔ a.toNat % 2 ^ k = 0 := by
  unfold isAligned
  rw [beq_iff_eq, ← UInt64.toNat_inj, UInt64.toNat_and, h, Nat.and_two_pow_sub_one_eq_mod]
  rfl

theorem isAligned_pageSize (a : UInt64) : isAligned a pageSize = true ↔ a.toNat % 4096 = 0 :=
  isAligned_iff a (k := 12) (by decide)

theorem isAligned_page2m (a : UInt64) : isAligned a page2m = true ↔ a.toNat % 2097152 = 0 :=
  isAligned_iff a (k := 21) (by decide)

theorem and_not_of_aligned {a align : UInt64} (h : isAligned a align = true) :
    a &&& ~~~(align - 1) = a := by
  have key : ∀ a mask : UInt64, a &&& mask = 0 → a &&& ~~~mask = a := by
    intro a mask h
    apply UInt64.toBitVec_inj.mp
    ext i hi
    have hb := congrArg (fun x => x.toBitVec[i]) h
    simp at hb ⊢
    grind
  exact key _ _ (beq_iff_eq.mp h)

theorem isCanonical_iff (v : VirtAddr) :
    v.isCanonical = true ↔ v.toNat < 2 ^ 47 ∨ 2 ^ 64 - 2 ^ 47 ≤ v.toNat := by
  have hs : (v >>> 47).toNat = v.toNat / 2 ^ 47 := by
    rw [UInt64.toNat_shiftRight, Nat.shiftRight_eq_div_pow]
    rfl
  have hlt := v.toNat_lt
  unfold VirtAddr.isCanonical
  rw [Bool.or_eq_true, beq_iff_eq, beq_iff_eq, ← UInt64.toNat_inj, ← UInt64.toNat_inj, hs]
  have h0 : (0 : UInt64).toNat = 0 := rfl
  have h1 : (0x1ffff : UInt64).toNat = 0x1ffff := rfl
  rw [h0, h1]
  omega

theorem addr_of_aligned {a : PhysAddr} (h : isAligned a pageSize = true) (hlt : a.toNat < 2 ^ 52) :
    a &&& addrMask = a := by
  rw [isAligned_pageSize] at h
  apply UInt64.toNat_inj.mp
  rw [UInt64.toNat_and]
  have hm : addrMask.toNat = (2 ^ 40 - 1) <<< 12 := by decide
  apply Nat.eq_of_testBit_eq
  intro i
  rw [Nat.testBit_and, hm, Nat.testBit_shiftLeft, Nat.testBit_two_pow_sub_one]
  by_cases h12 : i < 12
  · have : a.toNat.testBit i = false := by
      rw [← Nat.mod_add_div a.toNat 4096, h, Nat.zero_add]
      have := Nat.testBit_two_pow_mul (i := 12) (a := a.toNat / 4096) (j := i)
      simpa [Nat.not_le.mpr h12] using this
    simp [this]
  by_cases h52 : 52 ≤ i
  · have : a.toNat.testBit i = false :=
      Nat.testBit_lt_two_pow (Nat.lt_of_lt_of_le hlt (Nat.pow_le_pow_right (by decide) h52))
    simp [this]
  · simp [show 12 ≤ i by omega, show i - 12 < 40 by omega]

theorem new_addr_frame {a : PhysAddr} (h : isAligned a pageSize = true) (hlt : a.toNat < 2 ^ 52)
    (f : PageFlags) : (PageTableEntry.new a f).addr = a := by
  rw [new_addr, addr_of_aligned h hlt]

theorem new_isPresent {f : PageFlags} (h : f.raw &&& 1 = 1) :
    (PageTableEntry.new a f).isPresent = true := by
  rw [PageTableEntry.isPresent, new_raw_and a f (by decide), h]
  rfl

theorem new_isHuge : (PageTableEntry.new a f).isHuge = (f.raw &&& 128 != 0) := by
  rw [PageTableEntry.isHuge, new_raw_and a f (by decide)]

theorem union_and (f g : PageFlags) : (f ||| g).raw &&& g.raw = g.raw := by
  show (f.raw ||| g.raw) &&& g.raw = g.raw
  apply UInt64.toBitVec_inj.mp
  ext i
  simp
  grind

end NexoOS.Paging
