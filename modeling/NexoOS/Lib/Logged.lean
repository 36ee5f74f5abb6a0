import Mathlib

/-!
# Steps with a log

A step that turns a state into another and reports a list of entries. Running
it over a list of inputs collects the reports. `runLogged_inv` is the rule for
invariants: the entries may be assumed to meet a condition while the invariant
is carried along, and are shown to have a property. `runLogged_history` is the
rule for invariants of the state together with everything reported so far, and
`meets_iff_prefixes` the one for a condition that is exact at every step. A state
beside the run that the steps do not read is a ghost.
-/

namespace NexoOS

universe u v w

variable {σ : Type u} {α : Type v} {β : Type w}

/-- Runs the step over the inputs; the entries in order. -/
def runLogged (f : σ → α → σ × List β) (s : σ) : List α → σ × List β
  | [] => (s, [])
  | a :: l =>
    let r := f s a
    let t := runLogged f r.1 l
    (t.1, r.2 ++ t.2)

variable {f : σ → α → σ × List β} {I : σ → Prop} {s : σ} {C : σ → α → Prop}

theorem runLogged_inv {C P : β → Prop}
    (hstep : ∀ s a, I s → (∀ b ∈ (f s a).2, C b) → I (f s a).1 ∧ ∀ b ∈ (f s a).2, P b) (h : I s)
    (l : List α) (hC : ∀ b ∈ (runLogged f s l).2, C b) :
    I (runLogged f s l).1 ∧ ∀ b ∈ (runLogged f s l).2, P b := by
  induction l generalizing s with
  | nil => exact ⟨h, nofun⟩
  | cons a l ih =>
    obtain ⟨hI, hP⟩ := hstep s a h fun b hb => hC b (List.mem_append_left _ hb)
    obtain ⟨hI', hP'⟩ := ih hI fun b hb => hC b (List.mem_append_right _ hb)
    refine ⟨hI', fun b hb => ?_⟩
    rcases List.mem_append.1 hb with hb | hb
    · exact hP b hb
    · exact hP' b hb

/-- Every input is taken in a state where the condition allows it. -/
def Meets (f : σ → α → σ × List β) (C : σ → α → Prop) : σ → List α → Prop
  | _, [] => True
  | s, a :: l => C s a ∧ Meets f C (f s a).1 l

instance Meets.decidable (f : σ → α → σ × List β) (C : σ → α → Prop) [∀ s a, Decidable (C s a)] :
    ∀ s l, Decidable (Meets f C s l)
  | _, [] => .isTrue trivial
  | s, a :: l =>
    have := Meets.decidable f C (f s a).1 l
    inferInstanceAs (Decidable (C s a ∧ Meets f C (f s a).1 l))

theorem Meets.of_prefix {l l' : List α} (h : Meets f C s l) (hl : l' <+: l) : Meets f C s l' := by
  induction l' generalizing s l with
  | nil => trivial
  | cons a l' ih =>
    cases l with
    | nil => cases List.prefix_nil.1 hl
    | cons b l =>
      obtain ⟨rfl, hrest⟩ := List.cons_prefix_cons.1 hl
      exact ⟨h.1, ih h.2 hrest⟩

theorem Meets.inv (hstep : ∀ s a, I s → C s a → I (f s a).1) (hs : I s) {l : List α}
    (h : Meets f C s l) : I (runLogged f s l).1 := by
  induction l generalizing s with
  | nil => exact hs
  | cons a l ih => exact ih (hstep s a hs h.1) h.2

theorem runLogged_history {I : σ → List β → Prop}
    (hstep : ∀ s log a, I s log → C s a → I (f s a).1 (log ++ (f s a).2)) {log : List β}
    (h : I s log) (l : List α) (hC : Meets f C s l) :
    I (runLogged f s l).1 (log ++ (runLogged f s l).2) := by
  induction l generalizing s log with
  | nil => simpa [runLogged] using h
  | cons a l ih =>
    have := ih (hstep s log a h hC.1) hC.2
    simpa [runLogged, List.append_assoc] using this

theorem meets_true (f : σ → α → σ × List β) (s : σ) (l : List α) :
    Meets f (fun _ _ => True) s l := by
  induction l generalizing s with
  | nil => trivial
  | cons a l ih => exact ⟨trivial, ih _⟩

/-- If a step keeps `P` exactly when the condition allows its input, then the
condition is met in a run exactly when `P` holds all along it. -/
theorem meets_iff_prefixes {P : σ → Prop} (hI : ∀ s a, I s → I (f s a).1)
    (hstep : ∀ s a, I s → P s → (C s a ↔ P (f s a).1)) (h : I s) (hP : P s) (l : List α) :
    Meets f C s l ↔ ∀ l', l' <+: l → P (runLogged f s l').1 := by
  induction l generalizing s with
  | nil =>
    refine ⟨fun _ l' hl' => ?_, fun _ => trivial⟩
    rw [List.prefix_nil.1 hl']
    exact hP
  | cons a l ih =>
    constructor
    · intro hmeets l' hl'
      cases l' with
      | nil => exact hP
      | cons b l' =>
        obtain ⟨rfl, hrest⟩ := List.cons_prefix_cons.1 hl'
        have hnext := (hstep s b h hP).1 hmeets.1
        exact (ih (hI s b h) hnext).1 hmeets.2 l' hrest
    · intro hall
      have hnext : P (f s a).1 := hall [a] (List.cons_prefix_cons.2 ⟨rfl, List.nil_prefix⟩)
      refine ⟨(hstep s a h hP).2 hnext, (ih (hI s a h) hnext).2 fun l' hl' => ?_⟩
      exact hall (a :: l') (List.cons_prefix_cons.2 ⟨rfl, hl'⟩)

/-! ## Ghost state -/

section

universe x

variable {γ : Type x}

/-- The step with a state beside it that only looks on. -/
def withGhost (f : σ → α → σ × List β) (g : σ → γ → α → γ) (s : σ × γ) (a : α) : (σ × γ) × List β :=
  (((f s.1 a).1, g s.1 s.2 a), (f s.1 a).2)

variable (f : σ → α → σ × List β) (g : σ → γ → α → γ) (s : σ × γ) (l : List α)

theorem runLogged_withGhost_state :
    (runLogged (withGhost f g) s l).1.1 = (runLogged f s.1 l).1 := by
  induction l generalizing s with
  | nil => rfl
  | cons a l ih => exact ih _

theorem runLogged_withGhost_log : (runLogged (withGhost f g) s l).2 = (runLogged f s.1 l).2 := by
  induction l generalizing s with
  | nil => rfl
  | cons a l ih => exact congrArg ((f s.1 a).2 ++ ·) (ih _)

theorem meets_withGhost {C : σ → α → Prop} :
    Meets (withGhost f g) (fun s a => C s.1 a) s l ↔ Meets f C s.1 l := by
  induction l generalizing s with
  | nil => exact Iff.rfl
  | cons a l ih => exact and_congr Iff.rfl (ih _)

end

end NexoOS
