import Mathlib

/-!
# Sequences of stores

A sequence of stores into cells, as another process can see it one by one.
`foldl_at` follows one cell through a loop in which every iteration acts on a
cell of its own.
-/

namespace NexoOS

universe u v w

section

variable {ι : Type u} {V : Type v} [DecidableEq ι]

def stored (m : ι → V) (l : List (ι × V)) : ι → V :=
  l.foldl (fun m s => Function.update m s.1 s.2) m

theorem stored_append (m : ι → V) (l l' : List (ι × V)) :
    stored m (l ++ l') = stored (stored m l) l' :=
  List.foldl_append

theorem stored_of_not_mem {m : ι → V} {c : ι} {l : List (ι × V)} (h : c ∉ l.map Prod.fst) :
    stored m l c = m c := by
  induction l generalizing m with
  | nil => rfl
  | cons s l ih =>
    rw [List.map_cons, List.mem_cons, not_or] at h
    exact (ih h.2).trans (Function.update_of_ne h.1 ..)

end

section

variable {σ : Type u} {P : Type v} {V : Type w} {step : σ → P → σ} {I : σ → Prop}

theorem foldl_inv (hI : ∀ s p, I s → I (step s p)) {s : σ} (hs : I s) (l : List P) :
    I (l.foldl step s) := by
  induction l generalizing s with
  | nil => exact hs
  | cons p l ih => exact ih (hI s p hs)

theorem foldl_rel {R : σ → σ → Prop} (hR : ∀ s t p, R s t → R (step s p) (step t p)) {s t : σ}
    (h : R s t) (l : List P) : R (l.foldl step s) (l.foldl step t) := by
  induction l generalizing s t with
  | nil => exact h
  | cons p l ih => exact ih (hR s t p h)

/-- A loop that does not act on what is looked at. -/
theorem foldl_off (view : σ → V) (hI : ∀ s p, I s → I (step s p)) {l : List P}
    (hother : ∀ s, ∀ p ∈ l, I s → view (step s p) = view s) {s : σ} (hs : I s) :
    view (l.foldl step s) = view s := by
  induction l generalizing s with
  | nil => rfl
  | cons p l ih =>
    have hrest : ∀ s, ∀ p ∈ l, I s → view (step s p) = view s :=
      fun s p' hp' => hother s p' (List.mem_cons_of_mem p hp')
    rw [List.foldl_cons, ih hrest (hI s p hs), hother s p List.mem_cons_self hs]

/-- A loop over different places, seen from one of them. -/
theorem foldl_at (view : σ → V) (act : V → V) {q : P} (hI : ∀ s p, I s → I (step s p))
    {l : List P} (hl : l.Nodup) (hq : q ∈ l) (hself : ∀ s, I s → view (step s q) = act (view s))
    (hother : ∀ s, ∀ p ∈ l, p ≠ q → I s → view (step s p) = view s) {s : σ} (hs : I s) :
    view (l.foldl step s) = act (view s) := by
  induction l generalizing s with
  | nil => cases hq
  | cons p l ih =>
    obtain ⟨hp, hl⟩ := List.nodup_cons.1 hl
    have hrest : ∀ s, ∀ p ∈ l, p ≠ q → I s → view (step s p) = view s :=
      fun s p' hp' => hother s p' (List.mem_cons_of_mem p hp')
    rw [List.foldl_cons]
    rcases List.mem_cons.1 hq with rfl | hq
    · rw [foldl_off view hI (fun s p hp' => hrest s p hp' (ne_of_mem_of_not_mem hp' hp)) (hI s _ hs),
        hself s hs]
    · have hpq : p ≠ q := fun h => hp (h ▸ hq)
      rw [ih hl hq hrest (hI s p hs), hother s p List.mem_cons_self hpq hs]

end

end NexoOS
