import Mathlib

/-!
# Insertion sort from the right

Elements are taken one by one, each sinking below those with a greater key. The
list under construction is kept with the last element first, so that sinking is
a recursion on it. The sort is stable, which we state as the fact that sorting
commutes with any filter.
-/

namespace NexoOS

open List

universe u v

variable {α : Type u} {κ : Type v} [LinearOrder κ] (key : α → κ)

/-- `a` passes the elements with a greater key. -/
def sink (a : α) : List α → List α
  | [] => [a]
  | b :: l => if key a < key b then b :: sink a l else a :: b :: l

/-- The sorted list, last element first. -/
def sortedRev (l : List α) : List α := l.foldl (fun acc a => sink key a acc) []

def stableSort (l : List α) : List α := (sortedRev key l).reverse

def Falling (l : List α) : Prop := l.Pairwise fun a b => key b ≤ key a

variable {key} {a : α} {l : List α}

theorem mem_sink {b : α} (h : b ∈ sink key a l) : b = a ∨ b ∈ l := by
  induction l with
  | nil => exact .inl (mem_singleton.1 h)
  | cons c l ih =>
    unfold sink at h
    split at h
    · rcases mem_cons.1 h with rfl | h
      · exact .inr mem_cons_self
      · exact (ih h).imp_right (mem_cons_of_mem c)
    · exact mem_cons.1 h

theorem Falling.sink (h : Falling key l) : Falling key (sink key a l) := by
  induction l with
  | nil => exact pairwise_singleton _ _
  | cons b l ih =>
    obtain ⟨hb, hl⟩ := pairwise_cons.1 h
    unfold NexoOS.sink
    split
    · rename_i hlt
      refine pairwise_cons.2 ⟨fun c hc => ?_, ih hl⟩
      rcases mem_sink hc with rfl | hc
      · exact le_of_lt hlt
      · exact hb c hc
    · rename_i hge
      have hba : key b ≤ key a := le_of_not_gt hge
      refine pairwise_cons.2 ⟨fun c hc => ?_, h⟩
      rcases mem_cons.1 hc with rfl | hc
      · exact hba
      · exact le_trans (hb c hc) hba

theorem sink_cons_of_lt {b : α} (h : key a < key b) : sink key a (b :: l) = b :: sink key a l :=
  if_pos h

theorem sink_of_le (h : ∀ b ∈ l, key b ≤ key a) : sink key a l = a :: l := by
  cases l with
  | nil => rfl
  | cons b l => exact if_neg (not_lt_of_ge (h b mem_cons_self))

theorem filter_sink (h : Falling key l) (p : α → Bool) :
    (sink key a l).filter p = if p a then sink key a (l.filter p) else l.filter p := by
  induction l with
  | nil => simp [NexoOS.sink, filter_cons]
  | cons b l ih =>
    obtain ⟨hb, hl⟩ := pairwise_cons.1 h
    by_cases hlt : key a < key b
    · rw [sink_cons_of_lt hlt]
      by_cases hpb : p b
      · rw [filter_cons_of_pos hpb, filter_cons_of_pos hpb, ih hl, sink_cons_of_lt hlt]
        split <;> rfl
      · rw [filter_cons_of_neg hpb, filter_cons_of_neg hpb, ih hl]
    · have hba : key b ≤ key a := le_of_not_gt hlt
      have hle : ∀ c ∈ b :: l, key c ≤ key a := by
        intro c hc
        rcases mem_cons.1 hc with rfl | hc
        · exact hba
        · exact le_trans (hb c hc) hba
      rw [sink_of_le hle, sink_of_le fun c hc => hle c (mem_filter.1 hc).1, filter_cons]

theorem filter_stableSort (l : List α) (p : α → Bool) :
    (stableSort key l).filter p = stableSort key (l.filter p) := by
  have hfold : ∀ acc, Falling key acc → (l.foldl (fun acc a => sink key a acc) acc).filter p =
        (l.filter p).foldl (fun acc a => sink key a acc) (acc.filter p) := by
    induction l with
    | nil => exact fun acc _ => rfl
    | cons a l ih =>
      intro acc h
      rw [foldl_cons, ih _ h.sink, filter_sink h, filter_cons]
      split <;> rfl
  unfold stableSort
  rw [filter_reverse, sortedRev, hfold [] List.Pairwise.nil]
  rfl

end NexoOS
