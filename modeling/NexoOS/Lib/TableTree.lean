import Mathlib

/-!
# Trees of tables in a flat memory

Tables of entries at addresses; an entry may lead to another table. Following
a path of indices from a root gives a table (`tableAt`), and following it as
far as it goes gives the entry where it stops (`descend`). When no two paths
of a set lead to the same table, a write into the table of one path is seen
by exactly the paths that go through it.
-/

namespace NexoOS.TableTree

open List

variable {A I E : Type} (child : E → Option A) (m : A → I → E)

/-- The table a path of indices leads to. -/
def tableAt (root : A) : List I → Option A
  | [] => some root
  | i :: p => (child (m root i)).bind fun t => tableAt t p

/-- The entry where the path from index `i` on stops, with the indices that
were left: at the end of the path or at an entry that leads nowhere. -/
def descend (t : A) (i : I) : List I → List I × E
  | [] => ([], m t i)
  | j :: p =>
    match child (m t i) with
    | none => (j :: p, m t i)
    | some t' => descend t' j p

section
variable {child : E → Option A} {m : A → I → E}

theorem tableAt_append (root : A) (p q : List I) : tableAt child m root (p ++ q) =
      (tableAt child m root p).bind fun t => tableAt child m t q := by
  induction p generalizing root with
  | nil => rfl
  | cons i p ih =>
    simp only [cons_append, tableAt, Option.bind_assoc]
    congr 1
    funext t
    exact ih t

theorem tableAt_snoc (root : A) (p : List I) (i : I) : tableAt child m root (p ++ [i]) =
      (tableAt child m root p).bind fun t => child (m t i) := by
  rw [tableAt_append]
  congr 1
  funext t
  simp [tableAt]

theorem descend_spec (child : E → Option A) (m : A → I → E) (t : A) (i : I) (p : List I) :
    ∃ q j a, i :: p = q ++ j :: (descend child m t i p).1 ∧ tableAt child m t q = some a ∧
      (descend child m t i p).2 = m a j ∧
      ((descend child m t i p).1 = [] ∨ child (m a j) = none) := by
  induction p generalizing t i with
  | nil => exact ⟨[], i, t, rfl, rfl, rfl, .inl rfl⟩
  | cons k p ih =>
    rw [descend]
    split
    · rename_i hc
      exact ⟨[], i, t, rfl, rfl, rfl, .inr hc⟩
    rename_i t' hc
    obtain ⟨q, j, a, hp, hq, he, hs⟩ := ih t' k
    refine ⟨i :: q, j, a, ?_, ?_, he, hs⟩
    · rw [cons_append, ← hp]
    · simp [tableAt, hc, hq]

/-- A place where a descent must stop is where it does. -/
theorem descend_eq {t a : A} {i j : I} {p q r : List I} (hp : i :: p = q ++ j :: r)
    (hq : tableAt child m t q = some a) (hs : r = [] ∨ child (m a j) = none) :
    descend child m t i p = (r, m a j) := by
  induction q generalizing t i p with
  | nil =>
    cases hq
    obtain ⟨rfl, rfl⟩ := List.cons.inj hp
    cases p with
    | nil => rfl
    | cons k p =>
      rw [descend, hs.resolve_left (cons_ne_nil k p)]
  | cons k q ih =>
    rw [cons_append] at hp
    obtain ⟨rfl, hrest⟩ := List.cons.inj hp
    obtain ⟨t', hc, hq⟩ := Option.bind_eq_some_iff.mp hq
    cases p with
    | nil => exact absurd hrest.symm (by simp)
    | cons l p =>
      rw [descend, hc]
      exact ih hrest hq

end

/-! ## Writing -/

section
variable [DecidableEq A] [DecidableEq I] {child : E → Option A} {m : A → I → E}

def write (m : A → I → E) (t : A) (i : I) (e : E) : A → I → E :=
  fun a j => if a = t ∧ j = i then e else m a j

/-- All entries of one table. -/
def fill (m : A → I → E) (t : A) (e : E) : A → I → E := fun a j => if a = t then e else m a j

omit [DecidableEq A] [DecidableEq I] in
theorem tableAt_congr {m' : A → I → E} {root : A} {p : List I}
    (h : ∀ q j t, q ++ [j] <+: p → tableAt child m root q = some t → m' t j = m t j) :
    tableAt child m' root p = tableAt child m root p := by
  induction p using List.reverseRecOn with
  | nil => rfl
  | append_singleton p j ih =>
    have hp : tableAt child m' root p = tableAt child m root p :=
      ih fun q k t hq => h q k t (hq.trans (prefix_append _ _))
    rw [tableAt_snoc, tableAt_snoc, hp]
    cases ht : tableAt child m root p with
    | none => rfl
    | some t => exact congrArg child (h p j t prefix_rfl ht)

omit [DecidableEq A] [DecidableEq I] in
theorem descend_congr {m' : A → I → E} {root : A} {i : I} {p : List I}
    (h : ∀ q j t, q ++ [j] <+: i :: p → tableAt child m root q = some t → m' t j = m t j) :
    descend child m' root i p = descend child m root i p := by
  obtain ⟨q, j, a, hp, hq, he, hs⟩ := descend_spec child m root i p
  have hpre : q ++ [j] <+: i :: p := by
    rw [hp]
    exact ⟨(descend child m root i p).1, by simp⟩
  have hread : m' a j = m a j := h q j a hpre hq
  have hq' : tableAt child m' root q = some a := by
    rw [tableAt_congr fun q' k t hk => h q' k t (hk.trans ((prefix_append _ _).trans hpre))]
    exact hq
  rw [descend_eq hp hq' (by rwa [hread]), hread, ← he]

variable (S : List I → Prop)

/-- No two paths of the set lead to the same table. -/
def Separated (child : E → Option A) (m : A → I → E) (root : A) : Prop :=
  ∀ p q t, S p → S q → tableAt child m root p = some t → tableAt child m root q = some t → p = q

variable {S} {root t : A} {p : List I} {i : I} {q : List I} {j k : I}

omit [DecidableEq A] [DecidableEq I] in
private theorem closed_of_isPre (hS : ∀ p i, S (p ++ [i]) → S p) {p : List I} (hq : S q)
    (h : p <+: q) : S p := by
  obtain ⟨r, rfl⟩ := h
  induction r using List.reverseRecOn with
  | nil => simpa using hq
  | append_singleton r i ih =>
    rw [← append_assoc] at hq
    exact ih (hS _ _ hq)

omit [DecidableEq I] in
private theorem prefix_dropLast {l : List I} (h : q ++ [j] <+: l) : q <+: l.dropLast := by
  obtain ⟨r, rfl⟩ := h
  refine ⟨(j :: r).dropLast, ?_⟩
  rw [append_assoc, singleton_append, dropLast_append_of_ne_nil (by simp)]

theorem read_write_of_not_prefix (hsep : Separated S child m root) (hp : S p)
    (ht : tableAt child m root p = some t) (e : E) {a : A} (hq : S q)
    (ha : tableAt child m root q = some a) (hne : p ++ [i] ≠ q ++ [j]) :
    write m t i e a j = m a j := by
  rw [write, if_neg]
  rintro ⟨rfl, rfl⟩
  exact hne (by rw [hsep p q a hp hq ht ha])

section
variable (hS : ∀ p i, S (p ++ [i]) → S p)
include hS

section
variable (hsep : Separated S child m root)
include hsep

section
variable (hp : S p) (ht : tableAt child m root p = some t)
include hp ht

/-- A path that does not go through the written entry leads where it did. -/
theorem tableAt_write (e : E) (hq : S q) (hne : ¬ p ++ [i] <+: q) :
    tableAt child (write m t i e) root q = tableAt child m root q := by
  apply tableAt_congr
  intro q' j a hpre ha
  have hq' : S q' := closed_of_isPre hS hq ((prefix_append _ _).trans hpre)
  apply read_write_of_not_prefix hsep hp ht e hq' ha
  intro heq
  exact hne (heq ▸ hpre)

/-- The written table itself stays where it is. -/
theorem tableAt_write_here (e : E) : tableAt child (write m t i e) root p = some t := by
  rw [tableAt_write (i := i) hS hsep hp ht e hp, ht]
  intro hpre
  have hlen := hpre.length_le
  rw [length_append] at hlen
  exact Nat.not_succ_le_self _ hlen

/-- Paths that do not go through the written entry stop where they did. -/
theorem descend_write (e : E) (hq : S (k :: q).dropLast) (hne : ¬ p ++ [i] <+: k :: q) :
    descend child (write m t i e) root k q = descend child m root k q := by
  apply descend_congr
  intro q' j a hpre ha
  have hq' : S q' := closed_of_isPre hS hq (prefix_dropLast hpre)
  apply read_write_of_not_prefix hsep hp ht e hq' ha
  intro heq
  exact hne (heq ▸ hpre)

/-- An entry that leads nowhere, before and after, or below which no path of
the set goes: the tables stay where they are. -/
theorem tableAt_write_leaf {e : E}
    (hleaf : S (p ++ [i]) → child (m t i) = none ∧ child e = none) (hq : S q) :
    tableAt child (write m t i e) root q = tableAt child m root q := by
  by_cases hpre : p ++ [i] <+: q
  · obtain ⟨hold, hnew⟩ := hleaf (closed_of_isPre hS hq hpre)
    obtain ⟨r, rfl⟩ := hpre
    have ht' := tableAt_write_here (i := i) hS hsep hp ht e
    have hread : write m t i e t i = e := if_pos ⟨rfl, rfl⟩
    simp [tableAt_append, tableAt, ht, ht', hread, hold, hnew]
  · exact tableAt_write hS hsep hp ht e hq hpre

theorem separated_write_leaf {e : E}
    (hleaf : S (p ++ [i]) → child (m t i) = none ∧ child e = none) :
    Separated S child (write m t i e) root := by
  intro q q' a hq hq' ha ha'
  rw [tableAt_write_leaf hS hsep hp ht hleaf hq] at ha
  rw [tableAt_write_leaf hS hsep hp ht hleaf hq'] at ha'
  exact hsep q q' a hq hq' ha ha'

end

end

end

/-! ## A new table -/

variable {f : A} {z : E}

/-- No path of the set leads to the table. -/
def Fresh (S : List I → Prop) (child : E → Option A) (m : A → I → E) (root f : A) : Prop :=
  ∀ p, S p → tableAt child m root p ≠ some f

/-- The memories differ in one table at most. -/
def AgreeOff (f : A) (m m' : A → I → E) : Prop := ∀ a, a ≠ f → ∀ j, m' a j = m a j

omit [DecidableEq I] in
theorem fill_agreeOff (m : A → I → E) (f : A) (z : E) : AgreeOff f m (fill m f z) :=
  fun _ ha _ => if_neg ha

section
variable {m' : A → I → E}

omit [DecidableEq A] [DecidableEq I]

theorem AgreeOff.read (h : AgreeOff f m m') (hf : Fresh S child m root f) {q : List I} {j : I}
    {a : A} (hq : S q) (ha : tableAt child m root q = some a) : m' a j = m a j := by
  apply h
  rintro rfl
  exact hf q hq ha

section
variable (h : AgreeOff f m m') (hS : ∀ p i, S (p ++ [i]) → S p)
include h hS

/-- A table that no path leads to does not matter. -/
theorem AgreeOff.tableAt
    (hf : Fresh S child m root f) {q : List I} (hq : S q) :
    tableAt child m' root q = tableAt child m root q := by
  apply tableAt_congr
  intro q' j a hpre ha
  exact h.read hf (closed_of_isPre hS hq ((prefix_append _ _).trans hpre)) ha

theorem AgreeOff.separated
    (hsep : Separated S child m root) (hf : Fresh S child m root f) :
    Separated S child m' root := by
  intro q q' a hq hq' ha ha'
  rw [h.tableAt hS hf hq] at ha
  rw [h.tableAt hS hf hq'] at ha'
  exact hsep q q' a hq hq' ha ha'

theorem AgreeOff.descend
    (hf : Fresh S child m root f) {k : I} {q : List I} (hq : S (k :: q).dropLast) :
    descend child m' root k q = descend child m root k q := by
  apply descend_congr
  intro q' j a hpre ha
  exact h.read hf (closed_of_isPre hS hq (prefix_dropLast hpre)) ha

end

end

/-- A cleared table `f` hung under entry `i` of table `t`. -/
def link (m : A → I → E) (t : A) (i : I) (f : A) (z e : E) : A → I → E :=
  write (fill m f z) t i e

variable {e : E}

section
variable (hS : ∀ p i, S (p ++ [i]) → S p)
include hS

section
variable (hsep : Separated S child m root) (hp : S p) (ht : tableAt child m root p = some t)
include hsep hp ht

section
variable (hf : Fresh S child m root f) (hold : child (m t i) = none) (hz : child z = none)
include hf hold hz

/-- The tables after a new one is linked: those there were, and it. -/
theorem tableAt_link (he : child e = some f) (hq : S q) :
    tableAt child (link m t i f z e) root q =
      if q = p ++ [i] then some f else tableAt child m root q := by
  have hsep' := (fill_agreeOff m f z).separated hS hsep hf
  have ht' : tableAt child (fill m f z) root p = some t := by rw [(fill_agreeOff m f z).tableAt hS hf hp, ht]
  have htf : t ≠ f := by
    rintro rfl
    exact hf p hp ht
  by_cases hpre : p ++ [i] <+: q
  · obtain ⟨r, rfl⟩ := hpre
    have htl : tableAt child (link m t i f z e) root p = some t :=
      tableAt_write_here hS hsep' hp ht' e
    have hread : link m t i f z e t i = e := if_pos ⟨rfl, rfl⟩
    cases r with
    | nil => simp [tableAt_append, tableAt, htl, hread, he]
    | cons j r =>
      -- the new table is empty
      have hfj : link m t i f z e f j = z := by simp [link, write, fill, Ne.symm htf]
      simp [tableAt_append, tableAt, htl, ht, hread, he, hfj, hz, hold]
  · rw [link, tableAt_write hS hsep' hp ht' e hq hpre, (fill_agreeOff m f z).tableAt hS hf hq, if_neg]
    rintro rfl
    exact hpre prefix_rfl

theorem separated_link (he : child e = some f) : Separated S child (link m t i f z e) root := by
  intro q q' a hq hq' ha ha'
  rw [tableAt_link hS hsep hp ht hf hold hz he hq] at ha
  rw [tableAt_link hS hsep hp ht hf hold hz he hq'] at ha'
  split at ha
  · split at ha'
    · rename_i h h'
      rw [h, h']
    · cases ha
      exact absurd ha' (hf q' hq')
  · split at ha'
    · cases ha'
      exact absurd ha (hf q hq)
    · exact hsep q q' a hq hq' ha ha'

theorem descend_link_self (he : child e = some f)
    (hpi : S (p ++ [i])) {r : List I} (hq : k :: q = p ++ i :: j :: r) :
    descend child (link m t i f z e) root k q = (r, z) := by
  have htf : t ≠ f := by
    rintro rfl
    exact hf p hp ht
  have htl : tableAt child (link m t i f z e) root (p ++ [i]) = some f := by
    rw [tableAt_link hS hsep hp ht hf hold hz he hpi, if_pos rfl]
  have hfj : link m t i f z e f j = z := by simp [link, write, fill, Ne.symm htf]
  have hq' : k :: q = (p ++ [i]) ++ j :: r := by simpa using hq
  rw [descend_eq hq' htl (.inr (by rwa [hfj])), hfj]

end

theorem descend_link (hf : Fresh S child m root f)
    (hq : S (k :: q).dropLast) (hne : ¬ p ++ [i] <+: k :: q) :
    descend child (link m t i f z e) root k q = descend child m root k q := by
  have hfill := fill_agreeOff m f z
  have ht' : tableAt child (fill m f z) root p = some t := by rw [hfill.tableAt hS hf hp, ht]
  rw [link, descend_write hS (hfill.separated hS hsep hf) hp ht' e hq hne, hfill.descend hS hf hq]

end

end

end
end NexoOS.TableTree
