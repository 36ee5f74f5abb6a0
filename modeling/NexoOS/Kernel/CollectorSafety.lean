import NexoOS.Kernel.Collector
import NexoOS.Lib.Slots

/-!
# What the collector may close

The collector of channel ends is validated by a generation counter and a
counter of open windows. Marking is complete when no window was open, or half
open, at the moment the generation was read, and what it found unreachable
stays so when nothing is taken out of an unreachable queue or table later.
-/

namespace NexoOS.Kernel.Collector

open List Function

/-- The end this collector closes with its next step. -/
def Pc.aboutToClose : Pc → Option End
  | .closing r (e :: _) => if e ∈ r.marked then none else some e
  | .closingEnd _ e _ => some e
  | _ => none

namespace State

variable {s s' : State} {e : End}

/-- No collector is about to close a reachable end. -/
def Safe (s : State) : Prop := ∀ pc ∈ s.cols, ∀ e, pc.aboutToClose = some e → ¬ s.Reachable e

/-- No thread has a window, open or half open. -/
def Quiet (s : State) : Prop := ∀ th ∈ s.threads, th.window = .none

/-- What a step has to meet: a message is taken from a reachable queue,
handles are taken from the table of a live process, and a collector reads the
generation while no window is open or half open, and again before 2^64
windows were opened. -/
def Careful (s : State) : Action → Prop
  | .take _ p _ => ∀ pr, s.procs[p]? = some pr → pr.live = true
  | .pop t => ∀ th, s.threads[t]? = some th → ∀ e, th.user = some e → s.Reachable e
  | .collect i =>
    (∀ n, s.cols[i]? = some (.sawZero n) → s.Quiet) ∧
      ∀ r, s.cols[i]? = some (.checkGen r) → s.gen < r.gen0 + 2 ^ 64
  | _ => True

def CarefulRun : State → List Action → Prop
  | _, [] => True
  | s, a :: as => s.Careful a ∧ CarefulRun (s.step a) as

/-- A test for `Careful` that accepts a `pop` only from an end held in the
table of a live process. -/
def carefulTest (s : State) : Action → Bool
  | .take _ p _ => s.procs[p]?.all (·.live)
  | .pop t => s.threads[t]?.all fun th => th.user.all fun e =>
      (List.range s.procs.length).any fun p => s.procs[p]?.any fun pr => pr.live && e ∈ pr.handles
  | .collect i =>
    match s.cols[i]? with
    | some (.sawZero _) => s.threads.all (·.window = .none)
    | some (.checkGen r) => s.gen < r.gen0 + 2 ^ 64
    | _ => true
  | _ => true

def carefulRunTest : State → List Action → Bool
  | _, [] => true
  | s, a :: as => s.carefulTest a && carefulRunTest (s.step a) as

variable {p t : Nat} {x : End} {th : Thread}

theorem inTable_of_any (h : (s.procs[p]?.any fun pr => pr.live && e ∈ pr.handles) = true) :
    s.InTable p e := by
  cases hpr : s.procs[p]? with
  | none => simp [hpr] at h
  | some pr =>
    rw [hpr, Option.any_some, Bool.and_eq_true_iff] at h
    exact ⟨pr, hpr, h.1, of_decide_eq_true h.2⟩

theorem careful_of_test {a : Action} (h : s.carefulTest a = true) : s.Careful a := by
  cases a with
  | take t p es =>
    intro pr hpr
    simpa [carefulTest, hpr] using h
  | pop t =>
    intro th ht e he
    simp only [carefulTest, ht, he, Option.all_some, any_eq_true] at h
    obtain ⟨p, _, h⟩ := h
    exact .root (.table (inTable_of_any h))
  | collect i =>
    refine ⟨fun n hn th ht => ?_, fun r hr => ?_⟩
    · simp only [carefulTest, hn, all_eq_true] at h
      exact of_decide_eq_true (h th ht)
    · simp only [carefulTest, hr] at h
      exact of_decide_eq_true h
  | _ => trivial

theorem carefulRun_of_test {as : List Action} (h : carefulRunTest s as = true) :
    CarefulRun s as := by
  induction as generalizing s with
  | nil => trivial
  | cons a as ih =>
    obtain ⟨ha, has⟩ := Bool.and_eq_true_iff.1 h
    exact ⟨careful_of_test ha, ih has⟩

/-! ## What a step can do -/

/-- Everything the argument needs to know about a step: what is reachable
after it was so before or is new, and while the generation does not move and
no window is open, roots and queues only lose ends. -/
structure Later (s s' : State) : Prop where
  gen_le : s.gen ≤ s'.gen
  made_le : s.made ≤ s'.made
  reach : ∀ e, s'.Reachable e → s.Reachable e ∨ (s.made ≤ e.1 ∧ e.1 < s'.made)
  pinned : ∀ e, e.1 < s.made → s'.pinned e = true → s.pinned e = true
  quiet : s'.gen = s.gen → s.Quiet → s'.Quiet
  table : s'.gen = s.gen → s.Quiet → ∀ p e, s'.InTable p e → s.InTable p e ∨ s.pinned e = true
  queued : s'.gen = s.gen → s.Quiet → ∀ x y, s'.Queued x y → s.Queued x y
  fresh : ∀ x y, s.made ≤ x.1 → x.1 < s'.made → ¬ s'.Queued x y

theorem Later.refl (s : State) : Later s s where
  gen_le := le_refl _
  made_le := le_refl _
  reach := fun _ h => .inl h
  pinned := fun _ _ h => h
  quiet := fun _ h => h
  table := fun _ _ _ _ h => .inl h
  queued := fun _ _ _ _ h => h
  fresh := fun _ _ h₁ h₂ _ => absurd h₁ (not_le.2 h₂)

/-- A step that creates nothing and is not about windows: tables are filled
from the same table or from pins, and queues only lose messages. -/
theorem Later.of_shrink (hgen : s'.gen = s.gen) (hmade : s'.made = s.made)
    (hthreads : ∀ th' ∈ s'.threads, ∃ th ∈ s.threads, th'.window = th.window ∧
      th'.carried = th.carried) (hpin : ∀ e, s'.pinned e = true → s.pinned e = true)
    (htab : ∀ p e, s'.InTable p e → s.InTable p e ∨ s.pinned e = true)
    (hqueue : ∀ x y, s'.Queued x y → s.Queued x y) : Later s s' where
  gen_le := le_of_eq hgen.symm
  made_le := le_of_eq hmade.symm
  reach := by
    intro e he
    refine .inl (Reach.mono (fun x hx => ?_) (fun x y _ hq => hqueue x y hq) he)
    cases hx with
    | table ht =>
      rcases htab _ _ ht with ht | hp
      · exact .root (.table ht)
      · exact .root (.pinned hp)
    | pinned hp => exact .root (.pinned (hpin _ hp))
    | carried ht hw hc =>
      obtain ⟨th, hth, hwin, hcar⟩ := hthreads _ ht
      exact .root (.carried hth (hwin ▸ hw) (hcar ▸ hc))
  pinned := fun e _ h => hpin e h
  quiet := by
    intro _ hq th' ht'
    obtain ⟨th, hth, hwin, _⟩ := hthreads th' ht'
    rw [hwin, hq th hth]
  table := fun _ _ => htab
  queued := fun _ _ => hqueue
  fresh := fun _ _ h₁ h₂ _ => absurd (hmade ▸ h₂) (not_lt.2 h₁)

/-- A step inside an open window: it cannot happen while all is quiet, and
what it makes reachable was so before. -/
theorem Later.of_window (hgen : s.gen ≤ s'.gen) (hmade : s'.made = s.made)
    (hpin : ∀ e, s'.pinned e = true → s.pinned e = true) (hroot : ∀ x, s'.Root x → s.Reachable x)
    (hqueue : ∀ x y, s.Reachable x → s'.Queued x y → s.Reachable y)
    (hbusy : s'.gen = s.gen → ¬ s.Quiet) : Later s s' where
  gen_le := hgen
  made_le := le_of_eq hmade.symm
  reach := fun _ he => .inl (Reach.mem_of_closed hroot hqueue he)
  pinned := fun e _ h => hpin e h
  quiet := fun hg hq => absurd hq (hbusy hg)
  table := fun hg hq => absurd hq (hbusy hg)
  queued := fun hg hq => absurd hq (hbusy hg)
  fresh := fun _ _ h₁ h₂ _ => absurd (hmade ▸ h₂) (not_lt.2 h₁)

/-! ## Every step of a thread -/

theorem inTable_set {q : Nat} {pr : Proc} {procs : List Proc} {e : End}
    (hprocs : s'.procs = procs.set p pr) (h : s'.InTable q e) :
    (q = p ∧ pr.live = true ∧ e ∈ pr.handles) ∨
      ∃ pr', procs[q]? = some pr' ∧ pr'.live = true ∧ e ∈ pr'.handles := by
  obtain ⟨pr', hq, hl, he⟩ := h
  rw [hprocs] at hq
  rcases getElem?_set_cases hq with ⟨rfl, rfl⟩ | hq
  · exact .inl ⟨rfl, hl, he⟩
  · exact .inr ⟨pr', hq, hl, he⟩

theorem later_onProc {f : Proc → Proc} (hlive : ∀ pr, (f pr).live = true → pr.live = true)
    (hmem : ∀ pr e, e ∈ (f pr).handles → e ∈ pr.handles) : Later s (s.onProc p f) := by
  unfold onProc
  split
  · rename_i pr hpr
    refine .of_shrink rfl rfl (fun th ht => ⟨th, ht, rfl, rfl⟩) (fun _ h => h) ?_
      (fun _ _ h => h)
    intro q e h
    rcases inTable_set rfl h with ⟨rfl, hl, he⟩ | h
    · exact .inl ⟨pr, hpr, hlive pr hl, hmem pr e he⟩
    · exact .inl h
  · exact .refl s

theorem pinned_of_update {f : End → Bool} {e : End} (h : update f e false x = true) :
    f x = true := by
  by_cases hx : x = e
  · simp [hx] at h
  · rwa [update_of_ne hx] at h

theorem queued_update {q : List (List End)} {y : End}
    (hqueue : s'.queue = update s.queue e q) (h : s'.Queued x y) :
    (x = e ∧ ∃ m ∈ q, y ∈ m) ∨ s.Queued x y := by
  obtain ⟨m, hm, hy⟩ := h
  rw [hqueue] at hm
  by_cases hx : x = e
  · rw [hx, update_self] at hm
    exact .inl ⟨hx, m, hm, hy⟩
  · rw [update_of_ne hx] at hm
    exact .inr ⟨m, hm, hy⟩

theorem queued_of_close {y : End} (hqueue : s'.queue = update s.queue e [])
    (h : s'.Queued x y) : s.Queued x y := by
  rcases queued_update hqueue h with ⟨_, m, hm, _⟩ | h
  · cases hm
  · exact h

theorem later_insertNew (s : State) (p : Nat) (e : End) : Later s (s.insertNew p e) := by
  unfold insertNew
  split
  · rename_i pr hpr
    split
    · rename_i hpin
      refine .of_shrink rfl rfl (fun th ht => ⟨th, ht, rfl, rfl⟩) (fun _ => pinned_of_update)
        ?_ (fun _ _ h => h)
      intro q x h
      rcases inTable_set rfl h with ⟨rfl, hl, hx⟩ | h
      · rcases mem_append.1 hx with hx | hx
        · exact .inl ⟨pr, hpr, hl, hx⟩
        · rw [mem_singleton] at hx
          exact .inr (hx ▸ hpin)
      · exact .inl h
    · exact .refl s
  · exact .refl s

theorem later_insertFail (s : State) (e : End) : Later s (s.insertFail e) :=
  Later.of_shrink rfl rfl (fun th ht => ⟨th, ht, rfl, rfl⟩) (fun _ => pinned_of_update)
    (fun _ _ h => .inl h) (fun _ _ h => h)

/-- A thread is replaced by one with the same window and the same handles. -/
theorem later_setThread {th' : Thread} (ht : s.threads[t]? = some th)
    (hw : th'.window = th.window) (hc : th'.carried = th.carried) :
    Later s (s.setThread t th') := by
  refine .of_shrink rfl rfl ?_ (fun _ h => h) (fun _ _ h => .inl h) (fun _ _ h => h)
  intro th₁ hth₁
  rcases mem_or_eq_of_mem_set hth₁ with h | rfl
  · exact ⟨th₁, h, rfl, rfl⟩
  · exact ⟨th, mem_of_getElem? ht, hw, hc⟩

theorem later_get (s : State) (t p : Nat) (e : End) : Later s (s.get t p e) := by
  unfold get
  split
  · rename_i th pr ht hp
    split
    · exact later_setThread ht rfl rfl
    · exact .refl s
  · exact .refl s

theorem later_release (s : State) (t : Nat) : Later s (s.release t) := by
  unfold release
  split
  · rename_i th ht
    split
    · exact later_setThread ht rfl rfl
    · exact .refl s
  · exact .refl s

theorem later_drop (s : State) (e : End) : Later s (s.drop e) := by
  unfold drop
  split
  · exact .refl s
  · exact .of_shrink rfl rfl (fun th ht => ⟨th, ht, rfl, rfl⟩) (fun _ h => h)
      (fun _ _ h => .inl h) (fun _ _ h => queued_of_close rfl h)

theorem later_create (s : State) : Later s s.create where
  gen_le := le_refl _
  made_le := Nat.le_succ _
  reach := by
    -- the two new ends are roots and nothing is queued at them
    intro e he
    refine Reach.mem_of_closed (P := fun e => s.Reachable e ∨ (s.made ≤ e.1 ∧ e.1 < s.made + 1))
      (fun x hx => ?_) (fun x y hx hq => ?_) he
    · cases hx with
      | table ht => exact .inl (.root (.table ht))
      | pinned hp =>
        by_cases hx : x.1 = s.made
        · exact .inr (by omega)
        · simp only [create, hx, if_false] at hp
          exact .inl (.root (.pinned hp))
      | carried ht hw hc => exact .inl (.root (.carried ht hw hc))
    · obtain ⟨m, hm, hy⟩ := hq
      by_cases hxm : x.1 = s.made
      · simp [create, hxm] at hm
      simp only [create, hxm, if_false] at hm
      rcases hx with hx | hx
      · exact .inl (.step hx ⟨m, hm, hy⟩)
      · omega
  pinned := by
    intro e he hp
    simpa only [create, if_neg (ne_of_lt he)] using hp
  quiet := fun _ h => h
  table := fun _ _ _ _ h => .inl h
  queued := by
    rintro _ _ x y ⟨m, hm, hy⟩
    by_cases hx : x.1 = s.made
    · simp [create, hx] at hm
    · simp only [create, hx, if_false] at hm
      exact ⟨m, hm, hy⟩
  fresh := by
    rintro x y h₁ h₂ ⟨m, hm, _⟩
    have hx : x.1 = s.made := by
      have : x.1 < s.made + 1 := h₂
      omega
    simp [create, hx] at hm

theorem not_quiet (ht : s.threads[t]? = some th) (hw : th.window ≠ .none) : ¬ s.Quiet :=
  fun h => hw (h th (mem_of_getElem? ht))

theorem root_set (hthreads : s'.threads = s.threads.set t th)
    (hpin : ∀ e, s'.pinned e = true → s.pinned e = true)
    (htab : ∀ p e, s'.InTable p e → s.Reachable e)
    (hnew : th.window = .opened → ∀ e ∈ th.carried, s.Reachable e) (hx : s'.Root x) :
    s.Reachable x := by
  cases hx with
  | table ht => exact htab _ _ ht
  | pinned hp => exact .root (.pinned (hpin x hp))
  | carried hm hw hc =>
    rw [hthreads] at hm
    rcases mem_or_eq_of_mem_set hm with hm | rfl
    · exact .root (.carried hm hw hc)
    · exact hnew hw x hc

theorem reachable_inTable (h : s.InTable p e) : s.Reachable e := .root (.table h)

theorem reachable_table (hprocs : s'.procs = s.procs) (p : Nat) (e : End) (h : s'.InTable p e) :
    s.Reachable e := by
  rw [InTable, hprocs] at h
  exact reachable_inTable h

theorem reachable_carried (ht : s.threads[t]? = some th) (hw : th.window = .opened)
    (hx : x ∈ th.carried) : s.Reachable x :=
  .root (.carried (mem_of_getElem? ht) hw hx)

theorem later_openGen (s : State) (t : Nat) : Later s (s.openGen t) := by
  unfold openGen
  split
  · rename_i th ht
    split
    · exact .of_window (Nat.le_succ _) rfl (fun _ h => h)
        (fun x => root_set rfl (fun _ h => h) (reachable_table rfl) nofun)
        (fun x y hx hq => .step hx hq) (fun hg => absurd hg (Nat.succ_ne_self _))
    · exact .refl s
  · exact .refl s

theorem later_openCount (s : State) (t : Nat) : Later s (s.openCount t) := by
  unfold openCount
  split
  · rename_i th ht
    split
    · rename_i hw
      exact .of_window (le_refl _) rfl (fun _ h => h)
        (fun x => root_set rfl (fun _ h => h) (reachable_table rfl) (fun _ => nofun))
        (fun x y hx hq => .step hx hq) (fun _ => not_quiet ht (by simp [hw]))
    · exact .refl s
  · exact .refl s

theorem later_closeWindow (s : State) (t : Nat) : Later s (s.closeWindow t) := by
  unfold closeWindow
  split
  · rename_i th ht
    split
    · rename_i hw
      exact .of_window (le_refl _) rfl (fun _ h => h)
        (fun x => root_set rfl (fun _ h => h) (reachable_table rfl) nofun)
        (fun x y hx hq => .step hx hq) (fun _ => not_quiet ht (by simp [hw]))
    · exact .refl s
  · exact .refl s

theorem later_take {es : List End} (hlive : ∀ pr, s.procs[p]? = some pr → pr.live = true) :
    Later s (s.take t p es) := by
  unfold take
  split
  · rename_i th pr ht hp
    split
    · rename_i hcond
      obtain ⟨hw, hes, _⟩ := hcond
      refine .of_window (le_refl _) rfl (fun _ h => h)
        (fun x => root_set rfl (fun _ h => h) ?_ ?_)
        (fun x y hx hq => .step hx hq) (fun _ => not_quiet ht (by simp [hw]))
      · intro q e h
        rcases inTable_set rfl h with ⟨rfl, hl, he⟩ | h
        · exact reachable_inTable ⟨pr, hp, hl, diff_subset _ _ he⟩
        · exact reachable_inTable h
      · intro _ e he
        rcases mem_append.1 he with he | he
        · exact reachable_carried ht hw he
        have hmem : e ∈ pr.handles :=
          count_pos_iff.1 (lt_of_lt_of_le (count_pos_iff.2 he) (hes e he))
        exact reachable_inTable ⟨pr, hp, hlive pr hp, hmem⟩
    · exact .refl s
  · exact .refl s

theorem later_push (s : State) (t : Nat) : Later s (s.push t) := by
  unfold push
  split
  · rename_i th ht
    split
    · rename_i e he
      split
      · rename_i hw
        have hroot : ∀ {s' : State} {x : End},
            s'.threads = s.threads.set t { th with carried := [] } → s'.procs = s.procs →
            s'.pinned = s.pinned → s'.Root x → s.Reachable x := by
          intro s' x h₁ h₂ h₃
          exact root_set h₁ (fun e h => h₃ ▸ h) (reachable_table h₂) (fun _ => nofun)
        dsimp only
        split
        · exact .of_window (le_refl _) rfl (fun _ h => h)
            (fun x => hroot rfl rfl rfl) (fun x y hx hq => .step hx hq)
            (fun _ => not_quiet ht (by simp [hw]))
        refine .of_window (le_refl _) rfl (fun _ h => h)
          (fun x => hroot rfl rfl rfl) ?_ (fun _ => not_quiet ht (by simp [hw]))
        -- the new message holds what the open window carried
        intro x y hx h
        rcases queued_update (s := s) rfl h with ⟨rfl, m, hm, hy⟩ | h
        · rcases mem_append.1 hm with hm | hm
          · exact .step hx ⟨m, hm, hy⟩
          · rw [mem_singleton.1 hm] at hy
            exact reachable_carried ht hw hy
        · exact .step hx h
      · exact .refl s
    · exact .refl s
  · exact .refl s

theorem later_pop (hcare : ∀ th, s.threads[t]? = some th → ∀ e, th.user = some e → s.Reachable e) :
    Later s (s.pop t) := by
  unfold pop
  split
  · rename_i th ht
    split
    · rename_i e he
      split
      · rename_i m rest hq
        split
        · refine .of_window (Nat.le_succ _) rfl (fun _ h => h)
            (fun x => root_set rfl (fun _ h => h) (reachable_table rfl) ?_) ?_
            (fun hg => absurd hg (Nat.succ_ne_self _))
          · intro _ y hy
            exact .step (hcare th ht e he) ⟨m, hq ▸ mem_cons_self, hy⟩
          · intro x y hx h
            rcases queued_update (s := s) rfl h with ⟨rfl, m', hm', hy⟩ | h
            · exact .step hx ⟨m', hq ▸ mem_cons_of_mem _ hm', hy⟩
            · exact .step hx h
        · exact .refl s
      · exact .refl s
    · exact .refl s
  · exact .refl s

theorem later_insert (s : State) (t p n : Nat) : Later s (s.insert t p n) := by
  unfold insert
  split
  · rename_i th pr ht hp
    split
    · rename_i hw
      have hpin : ∀ e, (s.pinned e && !(e ∈ th.carried.take n : Bool)) = true →
          s.pinned e = true := fun e h => (Bool.and_eq_true _ _ ▸ h).1
      refine .of_window (le_refl _) rfl hpin (fun x => root_set rfl hpin ?_ ?_)
        (fun x y hx hq => .step hx hq) (fun _ => not_quiet ht (by simp [hw]))
      · intro q e h
        rcases inTable_set rfl h with ⟨rfl, hl, he⟩ | h
        · rcases mem_append.1 he with he | he
          · exact reachable_inTable ⟨pr, hp, hl, he⟩
          · exact reachable_carried ht hw (mem_of_mem_take he)
        · exact reachable_inTable h
      · intro _ e he
        exact reachable_carried ht hw (mem_of_mem_drop he)
    · exact .refl s
  · exact .refl s

theorem later_spawn (s : State) (t : Nat) : Later s (s.spawn t) := by
  unfold spawn
  split
  · rename_i th ht
    split
    · rename_i hw
      have hpin : ∀ e, (s.pinned e && !(e ∈ th.carried : Bool)) = true →
          s.pinned e = true := fun e h => (Bool.and_eq_true _ _ ▸ h).1
      refine .of_window (le_refl _) rfl hpin (fun x => root_set rfl hpin ?_ (fun _ => nofun))
        (fun x y hx hq => .step hx hq) (fun _ => not_quiet ht (by simp [hw]))
      rintro q e ⟨pr, hq, hl, he⟩
      rcases getElem?_concat_cases hq with hq | ⟨-, rfl⟩
      · exact reachable_inTable ⟨pr, hq, hl, he⟩
      · exact reachable_carried ht hw he
    · exact .refl s
  · exact .refl s

end State
end NexoOS.Kernel.Collector
