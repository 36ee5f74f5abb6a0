import Mathlib.Computability.Language

/-!
# The matcher of grep

`casa` of `examples/c/grep.c`. A C string is the list of its characters before the
terminator, so the pattern that is left is empty where the source finds 0.
-/

namespace NexoOS.Tools.Grep

open List

/-- What one character of the pattern stands for. -/
def fits (c t : Char) : Bool := c == '.' || c == t

/-- `casa_estrela`, with the rest of the pattern as `aqui`. -/
def casaEstrela (aqui : List Char → Bool) (c : Char) : List Char → Bool
  | [] => aqui []
  | t :: texto => aqui (t :: texto) || (fits c t && casaEstrela aqui c texto)

def casaAqui : List Char → List Char → Bool
  | [], _ => true
  | c :: '*' :: re, texto => casaEstrela (casaAqui re) c texto
  | ['$'], texto => texto.isEmpty
  | _ :: _, [] => false
  | c :: re, t :: texto => fits c t && casaAqui re texto

/-- The loop of `casa`. -/
def busca (re : List Char) : List Char → Bool
  | [] => casaAqui re []
  | t :: texto => casaAqui re (t :: texto) || busca re texto

def casa (re texto : List Char) : Bool :=
  if re.head? = some '^' then casaAqui re.tail texto else busca re texto

/-! ## The language of a pattern -/

/-- The pattern after its mark of the beginning. -/
def corpo (re : List Char) : List Char := if re.head? = some '^' then re.tail else re

/-- The items of a pattern, and whether it ends with the mark of the end. -/
def items : List Char → List (Char × Bool) × Bool
  | [] => ([], false)
  | c :: '*' :: re => ((c, true) :: (items re).1, (items re).2)
  | ['$'] => ([], true)
  | c :: re => ((c, false) :: (items re).1, (items re).2)

/-- The words of an item: one character, or any number of them. -/
def itemLanguage : Char × Bool → Language Char
  | (c, true) => {w | ∀ t ∈ w, fits c t}
  | (c, false) => {w | ∃ t, w = [t] ∧ fits c t}

def language (l : List (Char × Bool)) : Language Char := (l.map itemLanguage).prod

variable {aqui : List Char → Bool} {c : Char} {re texto : List Char}

theorem casaEstrela_iff : casaEstrela aqui c texto ↔
    ∃ w v, texto = w ++ v ∧ (∀ t ∈ w, fits c t) ∧ aqui v := by
  induction texto with
  | nil => simp [casaEstrela]
  | cons t texto ih =>
    rw [casaEstrela, Bool.or_eq_true, Bool.and_eq_true, ih]
    constructor
    · rintro (h | ⟨ht, w, v, rfl, hw, hv⟩)
      · exact ⟨[], t :: texto, rfl, by simp, h⟩
      · exact ⟨t :: w, v, rfl, by simpa [ht] using hw, hv⟩
    · rintro ⟨_ | ⟨t', w⟩, v, heq, hw, hv⟩
      · exact .inl (heq ▸ hv)
      · obtain ⟨rfl, rfl⟩ := cons.inj heq
        exact .inr ⟨hw t mem_cons_self, w, v, rfl, fun t h => hw t (mem_cons_of_mem _ h), hv⟩

theorem mem_language_cons {i : Char × Bool} {l : List (Char × Bool)} {w : List Char} :
    w ∈ language (i :: l) ↔ ∃ a ∈ itemLanguage i, ∃ b ∈ language l, a ++ b = w :=
  Language.mem_mul

/-- Some prefix of the text is a word of the pattern. -/
theorem casaAqui_iff : casaAqui re texto ↔ ∃ w v, texto = w ++ v ∧
    w ∈ language (items re).1 ∧ ((items re).2 → v = []) := by
  fun_induction items re generalizing texto with
  | case1 => simp [casaAqui, language]
  | case2 c re ih =>
    simp only [casaAqui, casaEstrela_iff, ih, mem_language_cons]
    constructor
    · rintro ⟨w, _, rfl, hw, w', v, rfl, hw', hv⟩
      exact ⟨w ++ w', v, (append_assoc ..).symm, ⟨w, hw, w', hw', rfl⟩, hv⟩
    · rintro ⟨_, v, rfl, ⟨w, hw, w', hw', rfl⟩, hv⟩
      exact ⟨w, w' ++ v, append_assoc .., hw, w', v, rfl, hw', hv⟩
  | case3 => simp [casaAqui, language, List.isEmpty_iff]
  | case4 c re _ _ ih =>
    cases texto with
    | nil =>
      refine iff_of_false (by simp [casaAqui]) ?_
      rintro ⟨_, v, heq, hw, -⟩
      obtain ⟨_, ⟨t, rfl, -⟩, w, -, rfl⟩ := mem_language_cons.1 hw
      cases heq
    | cons t texto =>
      simp only [casaAqui, Bool.and_eq_true, ih, mem_language_cons]
      constructor
      · rintro ⟨ht, w, v, rfl, hw, hv⟩
        exact ⟨t :: w, v, rfl, ⟨[t], ⟨t, rfl, ht⟩, w, hw, rfl⟩, hv⟩
      · rintro ⟨_, v, heq, ⟨_, ⟨t', rfl, ht⟩, w, hw, rfl⟩, hv⟩
        obtain ⟨rfl, rfl⟩ := cons.inj heq
        exact ⟨ht, w, v, rfl, hw, hv⟩

/-- The loop over the positions is the one of `.*`. -/
theorem busca_eq : busca re texto = casaEstrela (casaAqui re) '.' texto := by
  induction texto with
  | nil => rfl
  | cons t texto ih =>
    rw [busca, casaEstrela, ih, fits, beq_self_eq_true, Bool.true_or, Bool.true_and]

/-- `casa` finds a word of the pattern in the text: at its beginning if the pattern
starts with `^`, at its end if `$` is last. -/
theorem casa_iff_language (re texto : List Char) : casa re texto ↔ ∃ u w v,
    texto = u ++ (w ++ v) ∧ w ∈ language (items (corpo re)).1 ∧
      (re.head? = some '^' → u = []) ∧ ((items (corpo re)).2 → v = []) := by
  unfold casa corpo
  split
  · simp only [casaAqui_iff, forall_const, *]
    constructor
    · rintro ⟨w, v, rfl, hw, hv⟩
      exact ⟨[], w, v, rfl, hw, rfl, hv⟩
    · rintro ⟨_, w, v, rfl, hw, rfl, hv⟩
      exact ⟨w, v, rfl, hw, hv⟩
  · simp only [busca_eq, casaEstrela_iff, casaAqui_iff]
    constructor
    · rintro ⟨u, _, rfl, -, w, v, rfl, hw, hv⟩
      exact ⟨u, w, v, rfl, hw, fun h => absurd h ‹_›, hv⟩
    · rintro ⟨u, w, v, rfl, hw, -, hv⟩
      exact ⟨u, w ++ v, rfl, fun _ _ => rfl, w, v, rfl, hw, hv⟩

end NexoOS.Tools.Grep
