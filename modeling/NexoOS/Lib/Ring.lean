import Mathlib

/-!
# Rings in shared memory

A ring of `n` places carries a stream of items between a producer and a
consumer: item number `k` stands in place `k % n`. `Holds` says that the
items from number `c` on are in their places. The consumer learns that there is
an item by comparing indices that wrap (`mod_inj`).
-/

namespace NexoOS.Ring

variable {α : Type*} {n : Nat}

/-- Numbers less than `n` apart fall on the same place only if they are equal. -/
theorem mod_inj {a b : Nat} (hle : a ≤ b) (hlt : b < a + n) : a % n = b % n ↔ a = b := by
  refine ⟨fun h => ?_, fun h => h ▸ rfl⟩
  have hdvd : n ∣ b - a := (Nat.modEq_iff_dvd' hle).mp h
  have hzero : b - a = 0 := Nat.eq_zero_of_dvd_of_lt hdvd (by omega)
  omega

/-- `buf` holds `items`, the first of which has number `c`. -/
structure Holds (n : Nat) (buf : Nat → α) (c : Nat) (items : List α) : Prop where
  fits : items.length ≤ n
  place : ∀ k x, items[k]? = some x → buf ((c + k) % n) = x

namespace Holds

variable {buf : Nat → α} {c : Nat} {items : List α} {x : α}

theorem nil (n : Nat) (buf : Nat → α) (c : Nat) : Holds n buf c [] where
  fits := Nat.zero_le n
  place := by simp

theorem push (h : Holds n buf c items) (hroom : items.length < n) (x : α) :
    Holds n (Function.update buf ((c + items.length) % n) x) c (items ++ [x]) where
  fits := by
    rw [List.length_append, List.length_singleton]
    exact hroom
  place := by
    intro k y hk
    by_cases hlt : k < items.length
    · have hne : (c + k) % n ≠ (c + items.length) % n := by
        rw [Ne, mod_inj (by omega) (by omega)]
        omega
      rw [Function.update_of_ne hne]
      rw [List.getElem?_append_left hlt] at hk
      exact h.place k y hk
    · have hk' : k = items.length := by
        have := (List.getElem?_eq_some_iff.mp hk).1
        rw [List.length_append, List.length_singleton] at this
        omega
      subst k
      rw [List.getElem?_concat_length, Option.some.injEq] at hk
      rw [Function.update_self, hk]

theorem head (h : Holds n buf c (x :: items)) : buf (c % n) = x :=
  h.place 0 x rfl

theorem pop (h : Holds n buf c (x :: items)) : Holds n buf (c + 1) items where
  fits := Nat.le_of_succ_le h.fits
  place := by
    intro k y hk
    have := h.place (k + 1) y hk
    rwa [Nat.add_assoc, Nat.add_comm 1 k]

end Holds

end NexoOS.Ring
