import Mathlib

/-! # Programs confined to some parts of a state

A state is looked at through a `view` that splits it into parts. A program is
confined to a set of parts when it leaves every other part alone and when
what it returns, and what it does to its own parts, does not depend on them.
The rules below build such programs up: a program is confined when its pieces
are. -/

namespace NexoOS.Confine

variable {ε σ α β ι : Type} {γ : ι → Type}

/-- What a program returns from a state. -/
def result (x : EStateM ε σ α) (w : σ) : Except ε α :=
  match x w with
  | .ok a _ => .ok a
  | .error e _ => .error e

/-- The state a program leaves. -/
def final (x : EStateM ε σ α) (w : σ) : σ :=
  match x w with
  | .ok _ w' => w'
  | .error _ w' => w'

variable {x : EStateM ε σ α}

theorem result_of_ok {w w' : σ} {a : α} (h : x w = .ok a w') : result x w = .ok a := by
  rw [result, h]

theorem final_of_ok {w w' : σ} {a : α} (h : x w = .ok a w') : final x w = w' := by
  rw [final, h]

/-- The two states have the same parts `S`. -/
def SameOn (view : σ → (i : ι) → γ i) (S : Set ι) (w w' : σ) : Prop :=
  ∀ i ∈ S, view w i = view w' i

/-- The program reads and writes the parts `S` and no others. -/
structure Confined (view : σ → (i : ι) → γ i) (S : Set ι) (x : EStateM ε σ α) : Prop where
  keeps : ∀ w, ∀ i ∉ S, view (final x w) i = view w i
  result_eq : ∀ w w', SameOn view S w w' → result x w = result x w'
  final_same : ∀ w w', SameOn view S w w' → SameOn view S (final x w) (final x w')

namespace Confined

variable {view : σ → (i : ι) → γ i} {S : Set ι}

protected theorem pure (a : α) : Confined view S (pure a : EStateM ε σ α) where
  keeps _ _ _ := rfl
  result_eq _ _ _ := rfl
  final_same _ _ h := h

protected theorem throw (e : ε) : Confined view S (throw e : EStateM ε σ α) where
  keeps _ _ _ := rfl
  result_eq _ _ _ := rfl
  final_same _ _ h := h

/-- One step on the part `m`: `g` says what it returns and what becomes of the part. -/
protected theorem onPart {m : ι} (hm : m ∈ S) {f : σ → α × σ} (g : γ m → α × γ m)
    (hresult : ∀ w, (f w).1 = (g (view w m)).1) (hself : ∀ w, view (f w).2 m = (g (view w m)).2)
    (hother : ∀ w, ∀ i ≠ m, view (f w).2 i = view w i) :
    Confined view S (modifyGet f : EStateM ε σ α) where
  keeps w i hi := hother w i fun h => hi (h ▸ hm)
  result_eq w w' h := by
    show Except.ok (f w).1 = Except.ok (f w').1
    rw [hresult, hresult, h m hm]
  final_same w w' h i hi := by
    show view (f w).2 i = view (f w').2 i
    by_cases him : i = m
    · subst him
      rw [hself, hself, h i hi]
    · rw [hother w i him, hother w' i him, h i hi]

theorem final_bind (x : EStateM ε σ α) (f : α → EStateM ε σ β) (w : σ) :
    final (x >>= f) w = match result x w with
      | .ok a => final (f a) (final x w)
      | .error _ => final x w := by
  simp only [bind, EStateM.bind, final, result]
  cases x w <;> rfl

theorem result_bind (x : EStateM ε σ α) (f : α → EStateM ε σ β) (w : σ) :
    result (x >>= f) w = match result x w with
      | .ok a => result (f a) (final x w)
      | .error e => .error e := by
  simp only [bind, EStateM.bind, final, result]
  cases x w <;> rfl

theorem ok_of_bind {f : α → EStateM ε σ β} {w : σ} {b : β} (h : result (x >>= f) w = .ok b) :
    ∃ a, result x w = .ok a ∧ result (f a) (final x w) = .ok b ∧
      final (x >>= f) w = final (f a) (final x w) := by
  rw [result_bind] at h
  rw [final_bind]
  split at h
  · rename_i a hx
    rw [hx]
    exact ⟨a, rfl, h, rfl⟩
  · cases h

protected theorem bind {f : α → EStateM ε σ β} (hx : Confined view S x)
    (hf : ∀ a, Confined view S (f a)) : Confined view S (x >>= f) where
  keeps w i hi := by
    rw [final_bind]
    cases result x w with
    | error e => exact hx.keeps w i hi
    | ok a => exact ((hf a).keeps _ i hi).trans (hx.keeps w i hi)
  result_eq w w' h := by
    rw [result_bind, result_bind, hx.result_eq w w' h]
    cases result x w' with
    | error e => rfl
    | ok a => exact (hf a).result_eq _ _ (hx.final_same w w' h)
  final_same w w' h := by
    rw [final_bind, final_bind, hx.result_eq w w' h]
    cases result x w' with
    | error e => exact hx.final_same w w' h
    | ok a => exact (hf a).final_same _ _ (hx.final_same w w' h)

end Confined

/-! ## Programs that move a state along a relation -/

/-- Whatever a program returns, the state it leaves is one that `R` allows. -/
def Moves (R : σ → σ → Prop) (x : EStateM ε σ α) : Prop := ∀ w, R w (final x w)

namespace Moves

variable {R : σ → σ → Prop}

protected theorem pure (hrefl : ∀ w, R w w) (a : α) : Moves R (pure a : EStateM ε σ α) :=
  hrefl

protected theorem throw (hrefl : ∀ w, R w w) (e : ε) : Moves R (throw e : EStateM ε σ α) :=
  hrefl

protected theorem modifyGet {f : σ → α × σ} (h : ∀ w, R w (f w).2) :
    Moves R (modifyGet f : EStateM ε σ α) :=
  h

/-- The second program may make use of the state that the first one has left,
and of what it has returned. -/
theorem bind_result (htrans : ∀ w w' w'', R w w' → R w' w'' → R w w'') {f : α → EStateM ε σ β}
    (hx : Moves R x) (hf : ∀ w a, result x w = .ok a → R (final x w) (final (f a) (final x w))) :
    Moves R (x >>= f) := by
  intro w
  rw [Confined.final_bind]
  cases hr : result x w with
  | error e => exact hx w
  | ok a => exact htrans _ _ _ (hx w) (hf w a hr)

protected theorem bind (htrans : ∀ w w' w'', R w w' → R w' w'' → R w w'') {f : α → EStateM ε σ β}
    (hx : Moves R x) (hf : ∀ a, Moves R (f a)) : Moves R (x >>= f) :=
  bind_result htrans hx fun _ a _ => hf a _

end Moves

end NexoOS.Confine
