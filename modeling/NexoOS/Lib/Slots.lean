import Mathlib

/-!
# Resources owned by slots

A server records the owner of a resource as the number of a slot, and gives
slots to one holder after another. `Made` ties the records to the holder that
made each resource; from it, whoever passes the comparison of slot numbers is
the maker (`Made.maker_eq`). It is kept if a slot is emptied only once nothing
is recorded for it, and filled only while it is empty.
-/

namespace NexoOS

open Function

variable {R S K : Type}

section Update

variable [DecidableEq S] {f : S → Option K} {i j : S} {a c : K}

theorem of_update_none (h : update f i none j = some c) : j ≠ i ∧ f j = some c := by
  by_cases hj : j = i
  · rw [hj, update_self] at h
    cases h
  · rw [update_of_ne hj] at h
    exact ⟨hj, h⟩

theorem of_update_some (h : update f i (some a) j = some c) :
    (j = i ∧ c = a) ∨ (j ≠ i ∧ f j = some c) := by
  by_cases hj : j = i
  · rw [hj, update_self] at h
    exact .inl ⟨hj, (Option.some.inj h).symm⟩
  · rw [update_of_ne hj] at h
    exact .inr ⟨hj, h⟩

end Update

section Lists

variable {α : Type} {l : List α} {i j : Nat} {x y : α}

theorem getElem?_set_cases (h : (l.set i x)[j]? = some y) : (j = i ∧ y = x) ∨ l[j]? = some y := by
  rw [List.getElem?_set] at h
  split at h
  · split at h
    · exact .inl ⟨by omega, (Option.some.inj h).symm⟩
    · cases h
  · exact .inr h

theorem getElem?_concat_cases (h : (l ++ [x])[i]? = some y) :
    l[i]? = some y ∨ (i = l.length ∧ y = x) := by
  rw [List.getElem?_append] at h
  split at h
  · exact .inl h
  rw [List.getElem?_singleton] at h
  split at h
  · exact .inr ⟨by omega, (Option.some.inj h).symm⟩
  · cases h

end Lists

/-- `maker` says who made the resources that are in use. -/
structure Made (owner : R → Option S) (holder : S → Option K) (maker : R → Option K) : Prop where
  owned : ∀ r s, owner r = some s → ∃ k, holder s = some k ∧ maker r = some k
  free : ∀ r, owner r = none → maker r = none

namespace Made

variable {owner owner' : R → Option S} {holder : S → Option K} {maker : R → Option K}

theorem maker_eq (h : Made owner holder maker) {r : R} {s : S} {k : K} (hr : owner r = some s)
    (hs : holder s = some k) : maker r = some k := by
  obtain ⟨k', hk', hm⟩ := h.owned r s hr
  rw [hm, ← hk', hs]

theorem owner_of_maker (h : Made owner holder maker) {r : R} {k : K} (hr : maker r = some k) :
    ∃ s, owner r = some s ∧ holder s = some k := by
  cases ho : owner r with
  | none =>
    rw [h.free r ho] at hr
    cases hr
  | some s =>
    obtain ⟨k', hk', hm⟩ := h.owned r s ho
    rw [hm] at hr
    exact ⟨s, rfl, hk'.trans hr⟩

/-- The makers after a step in which `fresh` says what was made, by `k`. -/
def remake (owner' : R → Option S) (fresh : R → Bool) (k : Option K) (maker : R → Option K) (r : R) :
    Option K :=
  match owner' r with
  | none => none
  | some _ => if fresh r then k else maker r

theorem maker_of_remake {fresh : R → Bool} {k : Option K} {k' : K} {r : R} (hf : fresh r = false)
    (h : remake owner' fresh k maker r = some k') : maker r = some k' := by
  unfold remake at h
  split at h
  · cases h
  · rwa [hf] at h

/-- The holder of slot `s` makes resources; others may go. -/
theorem step (h : Made owner holder maker) {fresh : R → Bool} {k : Option K}
    (hfresh : ∀ r, fresh r = true → ∀ s, owner' r = some s → ∃ k', k = some k' ∧ holder s = some k')
    (hold : ∀ r, fresh r = false → ∀ s, owner' r = some s → owner r = some s) :
    Made owner' holder (remake owner' fresh k maker) := by
  constructor
  case owned =>
    intro r s hr
    rw [remake, hr]
    cases hf : fresh r with
    | true =>
      obtain ⟨k', rfl, hk'⟩ := hfresh r hf s hr
      exact ⟨k', hk', rfl⟩
    | false => exact h.owned r s (hold r hf s hr)
  case free =>
    intro r hr
    rw [remake, hr]

variable [DecidableEq S]

theorem leave (h : Made owner holder maker) {s : S} (hs : ∀ r, owner r ≠ some s) :
    Made owner (Function.update holder s none) maker := by
  refine ⟨fun r s' hr => ?_, h.free⟩
  have hne : s' ≠ s := by
    rintro rfl
    exact hs r hr
  rw [Function.update_of_ne hne]
  exact h.owned r s' hr

theorem enter (h : Made owner holder maker) {s : S} (hs : holder s = none) (k : K) :
    Made owner (Function.update holder s (some k)) maker := by
  refine ⟨fun r s' hr => ?_, h.free⟩
  obtain ⟨k', hk', hm⟩ := h.owned r s' hr
  have hne : s' ≠ s := by
    rintro rfl
    rw [hs] at hk'
    cases hk'
  rw [Function.update_of_ne hne]
  exact ⟨k', hk', hm⟩

end Made
end NexoOS
