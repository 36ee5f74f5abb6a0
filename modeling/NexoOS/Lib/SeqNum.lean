import Mathlib

/-!
# Wrapping 32-bit sequence numbers

A 32-bit counter that wraps is a window onto an unbounded one: `wrap n` is
the counter's value at absolute position `n`. As long as two positions are
less than `2 ^ 32` apart, the wrapped values determine their distance
(`wrap_sub`) and their equality (`wrap_inj`), which is all a sliding-window
protocol ever asks of them.
-/

namespace NexoOS.SeqNum

/-- The 32-bit value a wrapping counter shows at absolute position `n`. -/
def wrap (n : Nat) : UInt32 := UInt32.ofNat n

theorem wrap_toNat (n : Nat) : (wrap n).toNat = n % 2 ^ 32 := by
  simp [wrap]

theorem wrap_add (a b : Nat) : wrap (a + b) = wrap a + wrap b := by
  apply UInt32.toNat_inj.mp
  simp [wrap_toNat]

theorem wrap_succ (a : Nat) : wrap a + 1 = wrap (a + 1) := by
  rw [wrap_add]
  rfl

theorem wrap_of_toNat (u : UInt32) : wrap u.toNat = u := by
  apply UInt32.toNat_inj.mp
  rw [wrap_toNat]
  exact Nat.mod_eq_of_lt u.toNat_lt

variable {a b : Nat}

/-- The wrapped difference of two positions less than `2 ^ 32` apart is
their distance. -/
theorem wrap_sub (hle : a ≤ b) (hlt : b - a < 2 ^ 32) : (wrap b - wrap a).toNat = b - a := by
  rw [UInt32.toNat_sub, wrap_toNat, wrap_toNat]
  omega

theorem wrap_sub_of_lt (hlt : a < b) (hle : b - a ≤ 2 ^ 32) :
    (wrap a - wrap b).toNat = 2 ^ 32 - (b - a) := by
  rw [UInt32.toNat_sub, wrap_toNat, wrap_toNat]
  omega

/-- Positions less than `2 ^ 32` apart are told apart by their wrapped
values. -/
theorem wrap_inj (h : wrap a = wrap b) (h1 : a < b + 2 ^ 32) (h2 : b < a + 2 ^ 32) : a = b := by
  have h' := congrArg UInt32.toNat h
  rw [wrap_toNat, wrap_toNat] at h'
  omega

/-- A value whose wrapped distance from position `a` is at most `n` is the
wrapped value of a position between `a` and `a + n`. -/
theorem exists_of_sub_le {u : UInt32} {n : Nat} (h : (u - wrap a).toNat ≤ n) :
    ∃ d, d ≤ n ∧ u = wrap (a + d) ∧ (u - wrap a).toNat = d := by
  refine ⟨(u - wrap a).toNat, h, ?_, rfl⟩
  apply UInt32.toNat_inj.mp
  have hu := u.toNat_lt
  rw [wrap_toNat, UInt32.toNat_sub, wrap_toNat]
  omega

end NexoOS.SeqNum
