import NexoOS.Lib.Bytes

/-!
# Sums over lists that change, and runs of a step

`tally` adds up what the elements of a list weigh; one lemma for each way a list
changes in one place. `Along` says that every step of a run meets a condition;
what such steps keep holds in every state of the run.
-/

namespace NexoOS

section tally
variable {α : Type*} (f : α → Nat) {l : List α} {i : Nat} {x : α}

def tally (l : List α) : Nat := (l.map f).sum

@[simp] theorem tally_nil : tally f [] = 0 := rfl

@[simp] theorem tally_cons (x : α) (l : List α) : tally f (x :: l) = f x + tally f l := by
  simp [tally]

@[simp] theorem tally_append (l l' : List α) : tally f (l ++ l') = tally f l + tally f l' := by
  simp [tally]

variable {f}

theorem tally_eraseIdx (h : l[i]? = some x) : tally f (l.eraseIdx i) + f x = tally f l := by
  induction l generalizing i with
  | nil => simp at h
  | cons a l ih =>
    cases i with
    | zero =>
      obtain rfl : a = x := by simpa using h
      simp only [List.eraseIdx_cons_zero, tally_cons]
      omega
    | succ i =>
      have := ih (i := i) (by simpa using h)
      simp only [List.eraseIdx_cons_succ, tally_cons]
      omega

theorem tally_set (h : l[i]? = some x) (y : α) : tally f (l.set i y) + f x = tally f l + f y := by
  have hy : (l.set i y)[i]? = some y :=
    List.getElem?_set_self (List.getElem?_eq_some_iff.1 h).1
  have hset := tally_eraseIdx (f := f) hy
  rw [List.eraseIdx_set_eq] at hset
  have := tally_eraseIdx (f := f) h
  omega

theorem tally_eq_zero (h : ∀ x ∈ l, f x = 0) : tally f l = 0 := by
  induction l with
  | nil => rfl
  | cons a l ih =>
    rw [tally_cons, h a List.mem_cons_self, ih fun x hx => h x (List.mem_cons_of_mem a hx)]

theorem tally_mono {g : α → Nat} (h : ∀ x, f x ≤ g x) (l : List α) : tally f l ≤ tally g l := by
  induction l with
  | nil => exact Nat.le_refl _
  | cons a l ih =>
    simp only [tally_cons]
    exact Nat.add_le_add (h a) ih

end tally

section runs
variable {σ α : Type*} {step : σ → α → σ} {C : σ → α → Prop} {I : σ → Prop} {s : σ} {l : List α}

/-- Every step of the run is taken where the condition allows it. -/
def Along (step : σ → α → σ) (C : σ → α → Prop) : σ → List α → Prop
  | _, [] => True
  | s, a :: l => C s a ∧ Along step C (step s a) l

instance Along.decidable (step : σ → α → σ) (C : σ → α → Prop) [∀ s a, Decidable (C s a)] :
    ∀ s l, Decidable (Along step C s l)
  | _, [] => .isTrue trivial
  | s, a :: l =>
    have := Along.decidable step C (step s a) l
    inferInstanceAs (Decidable (C s a ∧ Along step C (step s a) l))

theorem Along.inv (hstep : ∀ s a, I s → C s a → I (step s a)) (hs : I s)
    (h : Along step C s l) : ∀ l', l' <+: l → I (l'.foldl step s) := by
  intro l' hl'
  induction l' generalizing s l with
  | nil => exact hs
  | cons a l' ih =>
    cases l with
    | nil => cases List.prefix_nil.1 hl'
    | cons b l =>
      obtain ⟨rfl, hrest⟩ := List.cons_prefix_cons.1 hl'
      exact ih (hstep s a hs h.1) h.2 hrest

/-- What the condition says of a step of the run, where it is taken. -/
theorem Along.at {a : α} {l' : List α} (h : Along step C s l) (hl : l' ++ [a] <+: l) :
    C (l'.foldl step s) a := by
  induction l' generalizing s l with
  | nil =>
    obtain ⟨l'', rfl⟩ := hl
    exact h.1
  | cons b l' ih =>
    obtain ⟨l'', rfl⟩ := hl
    exact ih h.2 (List.prefix_append _ _)

end runs

end NexoOS
