import Mathlib

/-!
# Direct-mapped caches

Every key has one place, which keeps the key that was put there last and its
value. A cache is coherent with a store if each value that it would give out
is the one in the store.
-/

namespace NexoOS

structure Cache (S K V : Type*) where
  tags : S → K
  lines : S → V

namespace Cache

variable {S K V : Type*} {place : K → S} {valid : K → Prop} {c : Cache S K V} {store : K → V}

/-- The keys that are not `valid` are never looked up, so that one of them can
stand for an empty place. -/
def Coherent (place : K → S) (valid : K → Prop) (store : K → V) (c : Cache S K V) : Prop :=
  ∀ k, valid k → c.tags (place k) = k → c.lines (place k) = store k

theorem coherent_of_invalid (h : ∀ p, ¬ valid (c.tags p)) : c.Coherent place valid store := by
  intro k hk htag
  rw [← htag] at hk
  exact absurd hk (h _)

variable [DecidableEq S] (c)

/-- The place `p` gets the key `k` with the value `v`. -/
def put (p : S) (k : K) (v : V) : Cache S K V where
  tags := Function.update c.tags p k
  lines := Function.update c.lines p v

@[simp] theorem put_tags_self (p : S) (k : K) (v : V) : (c.put p k v).tags p = k := by
  simp [put]

@[simp] theorem put_lines_self (p : S) (k : K) (v : V) : (c.put p k v).lines p = v := by
  simp [put]

theorem put_of_ne {p p' : S} (h : p' ≠ p) (k : K) (v : V) :
    (c.put p k v).tags p' = c.tags p' ∧ (c.put p k v).lines p' = c.lines p' := by
  simp [put, h]

variable {c}

/-- Whatever becomes of the store at `k`, a cache that has just got `k` is
coherent if and only if it got what is now in the store. -/
theorem Coherent.put_iff (hc : c.Coherent place valid store) {store' : K → V} {k : K} {v : V}
    (hk : valid k) (hstore : ∀ k', k' ≠ k → valid k' → store' k' = store k') :
    (c.put (place k) k v).Coherent place valid store' ↔ v = store' k := by
  constructor
  · intro h
    have := h k hk (c.put_tags_self _ _ _)
    rwa [put_lines_self] at this
  · intro hv k' hk' htag
    by_cases hp : place k' = place k
    · rw [hp] at htag ⊢
      rw [put_tags_self] at htag
      rw [put_lines_self, hv, htag]
    have hne : k' ≠ k := fun h => hp (congrArg place h)
    rw [(c.put_of_ne hp k v).1] at htag
    rw [(c.put_of_ne hp k v).2, hstore k' hne hk']
    exact hc k' hk' htag

end Cache
end NexoOS
