import NexoOS.Lib.Reach

/-!
# Marking with a work list

What a marking collector does, over any type of nodes: a node that is met for
the first time is marked and put on a work list, and every turn takes the last
node of the list and meets the nodes its edges lead to. `Traces` says what holds
between the turns. Once the list is empty the marked nodes are the reachable
ones (`Traces.exact`), and inside a finite set of nodes every turn makes `left`
smaller.
-/

namespace NexoOS

variable {α : Type} [DecidableEq α]

structure Marks (α : Type) where
  marked : List α
  work : List α

namespace Marks

variable {m : Marks α} {x : α} {xs : List α}

/-- A node is met. -/
def visit (m : Marks α) (x : α) : Marks α :=
  if x ∈ m.marked then m else { marked := m.marked ++ [x], work := m.work ++ [x] }

def visitAll (m : Marks α) (xs : List α) : Marks α := xs.foldl visit m

/-- The last node of the work list, of which the rest is `work`, is taken. -/
def turn (m : Marks α) (work next : List α) : Marks α := visitAll { m with work } next

theorem visit_of_mem (h : x ∈ m.marked) : m.visit x = m := if_pos h

theorem visit_of_not_mem (h : x ∉ m.marked) :
    m.visit x = { marked := m.marked ++ [x], work := m.work ++ [x] } := if_neg h

variable {y : α} {nodes : List α}

theorem mem_marked_visit : y ∈ (m.visit x).marked ↔ y ∈ m.marked ∨ y = x := by
  by_cases h : x ∈ m.marked
  · rw [visit_of_mem h]
    refine ⟨.inl, ?_⟩
    rintro (hy | rfl)
    · exact hy
    · exact h
  · simp [visit_of_not_mem h]

theorem mem_marked_visitAll : y ∈ (m.visitAll xs).marked ↔ y ∈ m.marked ∨ y ∈ xs := by
  induction xs generalizing m with
  | nil => simp [visitAll]
  | cons x xs ih =>
    show y ∈ ((m.visit x).visitAll xs).marked ↔ _
    rw [ih, mem_marked_visit, List.mem_cons, or_assoc]

theorem mem_work_visit : y ∈ (m.visit x).work ↔ y ∈ m.work ∨ (y = x ∧ x ∉ m.marked) := by
  by_cases h : x ∈ m.marked
  · simp [visit_of_mem h, h]
  · simp [visit_of_not_mem h, h]

theorem mem_work_visitAll : y ∈ (m.visitAll xs).work ↔ y ∈ m.work ∨ (y ∈ xs ∧ y ∉ m.marked) := by
  induction xs generalizing m with
  | nil => simp [visitAll]
  | cons x xs ih =>
    show y ∈ ((m.visit x).visitAll xs).work ↔ _
    rw [ih, mem_work_visit, mem_marked_visit, List.mem_cons]
    by_cases hy : y = x
    · subst hy
      tauto
    · tauto

/-! ## Termination -/

/-- The nodes of `nodes` still to be met, and those on the work list. -/
def left (nodes : List α) (m : Marks α) : Nat :=
  (nodes.filter (· ∉ m.marked)).length + m.work.length

theorem left_visit_le (hx : x ∈ nodes) : left nodes (m.visit x) ≤ left nodes m := by
  by_cases h : x ∈ m.marked
  · exact Nat.le_of_eq (by rw [visit_of_mem h])
  rw [visit_of_not_mem h, left, left]
  -- the node leaves the filtered list
  have hlt : (nodes.filter (· ∉ m.marked ++ [x])).length <
      (nodes.filter (· ∉ m.marked)).length := by
    have hsub : (nodes.filter (· ∉ m.marked ++ [x])) =
        (nodes.filter (· ∉ m.marked)).filter (· ≠ x) := by
      rw [List.filter_filter]
      refine List.filter_congr fun y _ => ?_
      by_cases hy : y = x <;> simp [hy]
    rw [hsub]
    refine List.length_filter_lt_length_iff_exists.mpr ⟨x, ?_, by simp⟩
    simp [hx, h]
  simp only [List.length_append, List.length_singleton]
  omega

theorem left_visitAll_le (hxs : ∀ x ∈ xs, x ∈ nodes) :
    left nodes (m.visitAll xs) ≤ left nodes m := by
  induction xs generalizing m with
  | nil => exact Nat.le_refl _
  | cons x xs ih =>
    have hx : x ∈ nodes := hxs x (List.mem_cons_self ..)
    have hrest : ∀ y ∈ xs, y ∈ nodes := fun y hy => hxs y (List.mem_cons_of_mem _ hy)
    exact Nat.le_trans (ih hrest) (left_visit_le hx)

theorem left_turn_lt {work next : List α} (hwork : work.length < m.work.length)
    (hnext : ∀ y ∈ next, y ∈ nodes) : left nodes (m.turn work next) < left nodes m := by
  have hle : left nodes (m.turn work next) ≤ left nodes { m with work } :=
    left_visitAll_le hnext
  have hlt : left nodes { m with work } < left nodes m := Nat.add_lt_add_left hwork _
  exact Nat.lt_of_le_of_lt hle hlt

/-! ## Exactness -/

/-- Between two turns: the roots are marked, what is marked is reachable, and
the edges of every marked node have been followed unless it is on the work
list. -/
structure Traces (root : α → Prop) (next : α → α → Prop) (m : Marks α) : Prop where
  roots : ∀ x, root x → x ∈ m.marked
  sound : ∀ x ∈ m.marked, Reach root next x
  work : ∀ x ∈ m.work, x ∈ m.marked
  followed : ∀ x ∈ m.marked, x ∉ m.work → ∀ y, next x y → y ∈ m.marked

variable {root : α → Prop} {next : α → α → Prop}

/-- The roots are met first. -/
theorem traces_roots (h : ∀ x, x ∈ xs ↔ root x) :
    Traces root next (visitAll { marked := [], work := [] } xs) := by
  have hmarked : ∀ x, x ∈ (visitAll { marked := [], work := [] } xs).marked ↔ x ∈ xs := by
    intro x
    simp [mem_marked_visitAll]
  have hwork : ∀ x, x ∈ (visitAll { marked := [], work := [] } xs).work ↔ x ∈ xs := by
    intro x
    simp [mem_work_visitAll]
  constructor
  case roots =>
    intro x hx
    exact (hmarked x).mpr ((h x).mpr hx)
  case sound =>
    intro x hx
    exact .root ((h x).mp ((hmarked x).mp hx))
  case work =>
    intro x hx
    exact (hmarked x).mpr ((hwork x).mp hx)
  case followed =>
    intro x hx hnot
    exact absurd ((hwork x).mpr ((hmarked x).mp hx)) hnot

theorem Traces.turn {last : α} {work ys : List α} (h : Traces root next m)
    (hwork : m.work = work ++ [last]) (hys : ∀ y, y ∈ ys ↔ next last y) :
    Traces root next (m.turn work ys) := by
  have hlast : last ∈ m.marked := by
    apply h.work
    simp [hwork]
  constructor
  case roots =>
    intro x hx
    exact mem_marked_visitAll.mpr (.inl (h.roots x hx))
  case sound =>
    intro x hx
    rcases mem_marked_visitAll.mp hx with hx | hx
    · exact h.sound x hx
    · exact .step (h.sound last hlast) ((hys x).mp hx)
  case work =>
    intro x hx
    apply mem_marked_visitAll.mpr
    rcases mem_work_visitAll.mp hx with hx | ⟨hx, -⟩
    · left
      apply h.work
      simp only [hwork, List.mem_append]
      exact .inl hx
    · exact .inr hx
  case followed =>
    intro x hx hnot y hy
    apply mem_marked_visitAll.mpr
    -- the node just taken, a node followed before, or one just met
    by_cases hxl : x = last
    · subst hxl
      exact .inr ((hys y).mpr hy)
    by_cases hold : x ∈ m.marked
    · left
      refine h.followed x hold (fun hw => hnot ?_) y hy
      rw [hwork] at hw
      rcases List.mem_append.mp hw with hw | hw
      · exact mem_work_visitAll.mpr (.inl hw)
      · exact absurd (List.mem_singleton.mp hw) hxl
    · rcases mem_marked_visitAll.mp hx with hx | hx
      · exact absurd hx hold
      · refine absurd ?_ hnot
        exact mem_work_visitAll.mpr (.inr ⟨hx, hold⟩)

omit [DecidableEq α] in
theorem Traces.exact (h : Traces root next m) (hwork : m.work = []) :
    x ∈ m.marked ↔ Reach root next x := by
  refine ⟨h.sound x, fun hx => ?_⟩
  refine Reach.mem_of_closed h.roots (fun a b ha hab => ?_) hx
  refine h.followed a ha ?_ b hab
  rw [hwork]
  exact List.not_mem_nil

end Marks
end NexoOS
