import NexoOS.Kernel.CollectorSafety

/-!
# Runs of the collector

The invariant of each program counter of a collector, kept by every careful
step of any processor, and from it: in a careful run no collector closes a
reachable end. Without care one does, and a run shows it.
-/

namespace NexoOS.Kernel.Collector

open List

/-! ## Marking -/

section
variable {r : Round} {es : List End} {x : End}

@[simp] theorem Round.root_ends (r : Round) (e : End) : (r.root e).ends = r.ends := by
  unfold Round.root
  split <;> rfl

@[simp] theorem Round.root_gen0 (r : Round) (e : End) : (r.root e).gen0 = r.gen0 := by
  unfold Round.root
  split <;> rfl

theorem Round.mem_marked_root {e : End} : x ∈ (r.root e).marked ↔ x ∈ r.marked ∨ x = e := by
  unfold Round.root
  split
  · rename_i he
    exact ⟨.inl, fun h => h.elim id (fun h => h ▸ he)⟩
  · simp

theorem Round.mem_work_root {e : End} :
    x ∈ (r.root e).work ↔ x ∈ r.work ∨ (x = e ∧ e ∉ r.marked) := by
  unfold Round.root
  split
  · rename_i he
    simp [he]
  · rename_i he
    simp [he]

@[simp] theorem Round.rootAll_ends (r : Round) (es : List End) : (r.rootAll es).ends = r.ends := by
  induction es generalizing r with
  | nil => rfl
  | cons e es ih => exact (ih (r.root e)).trans (Round.root_ends r e)

@[simp] theorem Round.rootAll_gen0 (r : Round) (es : List End) : (r.rootAll es).gen0 = r.gen0 := by
  induction es generalizing r with
  | nil => rfl
  | cons e es ih => exact (ih (r.root e)).trans (Round.root_gen0 r e)

theorem Round.mem_marked_rootAll : x ∈ (r.rootAll es).marked ↔ x ∈ r.marked ∨ x ∈ es := by
  induction es generalizing r with
  | nil => simp [Round.rootAll]
  | cons e es ih =>
    change x ∈ ((r.root e).rootAll es).marked ↔ _
    rw [ih, Round.mem_marked_root, mem_cons, or_assoc]

theorem Round.mem_work_rootAll :
    x ∈ (r.rootAll es).work ↔ x ∈ r.work ∨ (x ∈ es ∧ x ∉ r.marked) := by
  induction es generalizing r with
  | nil => simp [Round.rootAll]
  | cons e es ih =>
    change x ∈ ((r.root e).rootAll es).work ↔ _
    rw [ih, Round.mem_work_root, Round.mem_marked_root, mem_cons]
    by_cases hx : x = e
    · subst hx
      simp only [true_and, or_true, not_true, and_false, or_false, true_or]
    · simp [hx]

end

namespace State

open Round (mem_marked_rootAll rootAll_ends mem_work_rootAll)

variable {s s' : State} {e : End} {r : Round}

/-- What a collector knows in the middle of a round that no window has
disturbed: pins outside `rest` and the tables of `scanned` are marked, and
marked ends outside the work list were followed. -/
structure Marking (s : State) (r : Round) (rest : List End) (scanned : Nat → Prop) : Prop where
  quiet : s.Quiet
  pinned : ∀ e ∈ r.ends, s.pinned e = true → e ∈ r.marked ∨ e ∈ rest
  table : ∀ p, scanned p → ∀ e ∈ r.ends, s.InTable p e → e ∈ r.marked
  order : ∀ p, scanned p → rest = []
  work : ∀ e ∈ r.work, e ∈ r.marked
  queue : ∀ x ∈ r.marked, x ∉ r.work → ∀ y, s.Queued x y → y ∈ r.marked
  outside : ∀ x, s.Reachable x → x ∉ r.ends → ∀ y, ¬ s.Queued x y

/-- Facts about a round that hold whether or not it was disturbed. -/
structure Known (s : State) (r : Round) : Prop where
  gen_le : r.gen0 ≤ s.gen
  ends_lt : ∀ e ∈ r.ends, e.1 < s.made

/-- Invariant of a collector's program counter. -/
def PcInv (s : State) : Pc → Prop
  | .snapshot _ gen0 => gen0 ≤ s.gen ∧ (s.gen = gen0 → s.Quiet)
  | .pins r rest => s.Known r ∧ (s.gen = r.gen0 → s.Marking r rest fun _ => False)
  | .tables r pids => s.Known r ∧ (s.gen = r.gen0 → s.Marking r [] (· ∉ pids))
  | .trace r => s.Known r ∧ (s.gen = r.gen0 → s.Marking r [] fun _ => True)
  | .checkGen r => s.Known r ∧ r.work = [] ∧ (s.gen = r.gen0 → s.Marking r [] fun _ => True)
  | .closing r rest => ∀ e ∈ rest, e ∉ r.marked → e.1 < s.made ∧ ¬ s.Reachable e
  | .closingEnd r e rest =>
    (e.1 < s.made ∧ ¬ s.Reachable e) ∧
      ∀ e ∈ rest, e ∉ r.marked → e.1 < s.made ∧ ¬ s.Reachable e
  | _ => True

structure Inv (s : State) : Prop where
  registered : ∀ e, s.Reachable e → e.1 < s.made
  cols : ∀ pc ∈ s.cols, s.PcInv pc

/-! ## Steps of others -/

theorem Later.known (h : Later s s') (hk : s.Known r) : s'.Known r where
  gen_le := Nat.le_trans hk.gen_le h.gen_le
  ends_lt := fun e he => Nat.lt_of_lt_of_le (hk.ends_lt e he) h.made_le

theorem Later.unreachable (h : Later s s') (he : e.1 < s.made ∧ ¬ s.Reachable e) :
    e.1 < s'.made ∧ ¬ s'.Reachable e := by
  refine ⟨Nat.lt_of_lt_of_le he.1 h.made_le, fun hr => ?_⟩
  rcases h.reach e hr with hr | ⟨hle, _⟩
  · exact he.2 hr
  · omega

variable {rest : List End} {scanned : Nat → Prop} {pc : Pc} {a : Action}

theorem Later.marking (h : Later s s') (hgen : s'.gen = s.gen) (hk : s.Known r)
    (hm : s.Marking r rest scanned) : s'.Marking r rest scanned where
  __ := hm
  quiet := h.quiet hgen hm.quiet
  pinned := fun e he hp => hm.pinned e he (h.pinned e (hk.ends_lt e he) hp)
  table := by
    intro p hp e he ht
    rcases h.table hgen hm.quiet p e ht with ht | hpin
    · exact hm.table p hp e he ht
    -- an end that left its pin for a table was marked with the pins
    rcases hm.pinned e he hpin with hm' | hrest
    · exact hm'
    · rw [hm.order p hp] at hrest
      cases hrest
  queue := fun x hx hw y hq => hm.queue x hx hw y (h.queued hgen hm.quiet x y hq)
  outside := by
    intro x hx hend y hq
    rcases h.reach x hx with hx | ⟨hle, hlt⟩
    · exact hm.outside x hx hend y (h.queued hgen hm.quiet x y hq)
    · exact h.fresh x y hle hlt hq

/-- A generation that still is what it was then never moved. -/
theorem Later.gen_eq {gen0 : Nat} (h : Later s s') (hle : gen0 ≤ s.gen) (hg : s'.gen = gen0) :
    s'.gen = s.gen ∧ s.gen = gen0 := by
  have := h.gen_le
  omega

theorem Later.round (h : Later s s')
    (hr : s.Known r ∧ (s.gen = r.gen0 → s.Marking r rest scanned)) :
    s'.Known r ∧ (s'.gen = r.gen0 → s'.Marking r rest scanned) := by
  refine ⟨h.known hr.1, fun hg => ?_⟩
  obtain ⟨hg', hg⟩ := h.gen_eq hr.1.gen_le hg
  exact h.marking hg' hr.1 (hr.2 hg)

theorem Later.pcInv (h : Later s s') (hpc : s.PcInv pc) : s'.PcInv pc := by
  cases pc with
  | idle | waiting | sawZero => trivial
  | snapshot _ gen0 =>
    refine ⟨Nat.le_trans hpc.1 h.gen_le, fun hg => ?_⟩
    obtain ⟨hg', hg⟩ := h.gen_eq hpc.1 hg
    exact h.quiet hg' (hpc.2 hg)
  | pins r rest | tables r pids | trace r => exact h.round hpc
  | checkGen r =>
    obtain ⟨hk, hm⟩ := h.round ⟨hpc.1, hpc.2.2⟩
    exact ⟨hk, hpc.2.1, hm⟩
  | closing r rest => exact fun e he hm => h.unreachable (hpc e he hm)
  | closingEnd r e rest =>
    exact ⟨h.unreachable hpc.1, fun e he hm => h.unreachable (hpc.2 e he hm)⟩

/-! ## Steps of the collector itself -/

theorem mem_registered : e ∈ s.registered ↔ e.1 < s.made := by
  obtain ⟨c, b⟩ := e
  cases b <;> simp [registered]

/-- Everything reachable is registered and referenced, so the copy of the
registry has it. -/
theorem Inv.referenced (hi : s.Inv) (he : s.Reachable e) : s.Referenced e := by
  cases he with
  | root hr =>
    cases hr with
    | table ht =>
      obtain ⟨pr, hp, _, he⟩ := ht
      exact .inl ⟨pr, mem_of_getElem? hp, he⟩
    | pinned hp => exact .inr (.inl hp)
    | carried ht _ he => exact .inr (.inr (.inl ⟨_, ht, .inl he⟩))
  | step hx hq =>
    obtain ⟨m, hm, he⟩ := hq
    exact .inr (.inr (.inr (.inl ⟨_, mem_registered.2 (hi.registered _ hx), m, hm, he⟩)))

theorem Known.rootAll (hk : s.Known r) (es : List End) : s.Known (r.rootAll es) where
  gen_le := by simpa using hk.gen_le
  ends_lt := by simpa using hk.ends_lt

/-- Marking more ends keeps what was known; each enters the work list. -/
theorem Marking.rootAll (hm : s.Marking r rest scanned) (es : List End) :
    s.Marking (r.rootAll es) rest scanned where
  __ := hm
  pinned := by
    intro e he hp
    rw [rootAll_ends] at he
    rcases hm.pinned e he hp with h | h
    · exact .inl (mem_marked_rootAll.2 (.inl h))
    · exact .inr h
  table := by
    intro p hp e he ht
    rw [rootAll_ends] at he
    exact mem_marked_rootAll.2 (.inl (hm.table p hp e he ht))
  work := by
    intro e he
    rcases mem_work_rootAll.1 he with he | he
    · exact mem_marked_rootAll.2 (.inl (hm.work e he))
    · exact mem_marked_rootAll.2 (.inr he.1)
  queue := by
    intro x hx hw y hq
    rw [mem_work_rootAll, not_or] at hw
    rcases mem_marked_rootAll.1 hx with hx | hx
    · exact mem_marked_rootAll.2 (.inl (hm.queue x hx hw.1 y hq))
    by_cases hmark : x ∈ r.marked
    · exact mem_marked_rootAll.2 (.inl (hm.queue x hmark hw.1 y hq))
    · exact absurd ⟨hx, hmark⟩ hw.2
  outside := by
    intro x hx hend
    rw [rootAll_ends] at hend
    exact hm.outside x hx hend

theorem pcInv_snapshot (hi : s.Inv) {tries gen0 : Nat} (h : s.PcInv (.snapshot tries gen0)) :
    s.PcInv (s.next (.snapshot tries gen0)) := by
  have hmem : ∀ e, e ∈ s.registered.filter (fun e => s.Referenced e) ↔
      e.1 < s.made ∧ s.Referenced e := by
    intro e
    rw [mem_filter, mem_registered, decide_eq_true_iff]
  simp only [next]
  split
  · trivial
  rename_i e es heq
  rw [heq] at hmem
  refine ⟨⟨h.1, fun x hx => ((hmem x).1 hx).1⟩, fun hg => ?_⟩
  exact { quiet := h.2 hg
          pinned := fun x hx _ => .inr hx
          table := nofun
          order := nofun
          work := nofun
          queue := nofun
          outside := fun x hx hend _ _ =>
            hend ((hmem x).2 ⟨hi.registered x hx, hi.referenced hx⟩) }

theorem pcInv_pins {e : End} (h : s.PcInv (.pins r (e :: rest))) :
    s.PcInv (s.next (.pins r (e :: rest))) := by
  simp only [next]
  split
  · refine ⟨h.1.rootAll [e], fun hg => ?_⟩
    have hm := (h.2 (by simpa using hg)).rootAll [e]
    refine { hm with pinned := fun x hx hp => ?_, order := nofun }
    rcases hm.pinned x hx hp with h | h
    · exact .inl h
    rcases mem_cons.1 h with rfl | h
    · exact .inl (Round.mem_marked_root.2 (.inr rfl))
    · exact .inr h
  · rename_i hpin
    refine ⟨h.1, fun hg => ?_⟩
    have hm := h.2 hg
    refine { hm with pinned := fun x hx hp => ?_, order := nofun }
    rcases hm.pinned x hx hp with h | h
    · exact .inl h
    rcases mem_cons.1 h with rfl | h
    · exact absurd hp hpin
    · exact .inr h

theorem pcInv_pins_nil (h : s.PcInv (.pins r [])) : s.PcInv (s.next (.pins r [])) := by
  refine ⟨h.1, fun hg => ?_⟩
  have hm := h.2 hg
  refine { hm with table := ?_, order := fun _ _ => rfl }
  rintro p hp e _ ⟨pr, hpr, hl, _⟩
  refine absurd ?_ hp
  rw [mem_filter, mem_range]
  exact ⟨(List.getElem?_eq_some_iff.1 hpr).1, by simp [hpr, hl]⟩

theorem pcInv_tables {p : Nat} {pids : List Nat} (h : s.PcInv (.tables r (p :: pids))) :
    s.PcInv (s.next (.tables r (p :: pids))) := by
  refine ⟨h.1.rootAll _, fun hg => ?_⟩
  have hm := h.2 (by simpa using hg)
  refine { hm.rootAll _ with table := ?_, order := fun _ _ => rfl }
  intro q hq e he ht
  rw [rootAll_ends] at he
  rw [mem_marked_rootAll]
  by_cases hqp : q = p
  · obtain ⟨pr, hpr, _, hmem⟩ := ht
    subst hqp
    exact .inr (by simpa [hpr] using hmem)
  · exact .inl (hm.table q (by simp [hqp, hq]) e he ht)

theorem pcInv_trace (h : s.PcInv (.trace r)) : s.PcInv (s.next (.trace r)) := by
  simp only [next]
  split
  · rename_i e he
    have hwork : r.work.dropLast ++ [e] = r.work := dropLast_append_getLast? e he
    have hk : s.Known { r with work := r.work.dropLast } := ⟨h.1.gen_le, h.1.ends_lt⟩
    refine ⟨hk.rootAll _, fun hg => ?_⟩
    have hm := h.2 (by simpa using hg)
    have hmem : ∀ y, s.Queued e y ↔ y ∈ (s.queue e).flatten := by
      intro y
      rw [Queued, mem_flatten]
    constructor
    · exact hm.quiet
    · intro x hx hp
      rw [rootAll_ends] at hx
      rw [mem_marked_rootAll]
      exact (hm.pinned x hx hp).imp_left .inl
    · intro p hp x hx ht
      rw [rootAll_ends] at hx
      exact mem_marked_rootAll.2 (.inl (hm.table p hp x hx ht))
    · exact fun _ _ => rfl
    · intro x hx
      rcases mem_work_rootAll.1 hx with hx | hx
      · exact mem_marked_rootAll.2
          (.inl (hm.work x (hwork ▸ mem_append_left _ hx)))
      · exact mem_marked_rootAll.2 (.inr hx.1)
    · intro x hx hw y hq
      rw [mem_work_rootAll, not_or] at hw
      rw [mem_marked_rootAll] at hx ⊢
      have hmark : x ∈ r.marked := by
        by_contra hn
        exact hn (hx.elim id fun hx => absurd ⟨hx, hn⟩ hw.2)
      by_cases hxe : x = e
      · exact .inr ((hmem y).1 (hxe ▸ hq))
      refine .inl (hm.queue x hmark ?_ y hq)
      rw [← hwork, mem_append, mem_singleton, not_or]
      exact ⟨hw.1, hxe⟩
    · intro x hx hend
      rw [rootAll_ends] at hend
      exact hm.outside x hx hend
  · rename_i hnone
    split
    · exact ⟨h.1, List.getLast?_eq_none_iff.1 hnone, h.2⟩
    · unfold retry
      split <;> trivial

/-- When the work list is empty in an undisturbed round, every reachable end
of the copy is marked. -/
theorem Marking.complete (hm : s.Marking r [] fun _ => True) (hwork : r.work = []) (hr : s.Reachable e) :
    e ∈ r.ends → e ∈ r.marked := by
  have hclosed : (e ∈ r.ends → e ∈ r.marked) ∧ s.Reachable e := by
    refine Reach.mem_of_closed (P := fun e => (e ∈ r.ends → e ∈ r.marked) ∧ s.Reachable e)
      (fun x hx => ⟨fun hend => ?_, .root hx⟩) (fun x y hx hq => ⟨fun _ => ?_, .step hx.2 hq⟩) hr
    · cases hx with
      | table ht => exact hm.table _ trivial x hend ht
      | pinned hp => exact (hm.pinned x hend hp).elim id nofun
      | carried ht hw _ => cases hw ▸ hm.quiet _ ht
    · by_cases hend : x ∈ r.ends
      · exact hm.queue x (hx.1 hend) (by simp [hwork]) y hq
      · exact absurd hq (hm.outside x hx.2 hend y)
  exact hclosed.1

theorem pcInv_checkGen (h : s.PcInv (.checkGen r)) (hgen : s.gen < r.gen0 + 2 ^ 64) :
    s.PcInv (s.next (.checkGen r)) := by
  simp only [next]
  split
  · rename_i hmod
    have hle := h.1.gen_le
    have hg : s.gen = r.gen0 := by omega
    intro e he hmark
    exact ⟨h.1.ends_lt e he, fun hr => hmark ((h.2.2 hg).complete h.2.1 hr he)⟩
  · unfold retry
    split <;> trivial

theorem pcInv_next (hi : s.Inv) {i : Nat} (hpc : s.cols[i]? = some pc)
    (hcare : s.Careful (.collect i)) : s.PcInv (s.next pc) := by
  have h : s.PcInv pc := hi.cols pc (mem_of_getElem? hpc)
  cases pc with
  | idle => trivial
  | waiting tries spins =>
    simp only [next]
    split
    · trivial
    · split <;> trivial
  | sawZero tries => exact ⟨Nat.le_refl _, fun _ => hcare.1 tries hpc⟩
  | snapshot tries gen0 => exact pcInv_snapshot hi h
  | pins r rest =>
    cases rest with
    | nil => exact pcInv_pins_nil h
    | cons e rest => exact pcInv_pins h
  | tables r pids =>
    cases pids with
    | nil =>
      refine ⟨h.1, fun hg => ?_⟩
      have hm := h.2 hg
      exact { hm with table := fun p _ => hm.table p (by simp), order := fun _ _ => rfl }
    | cons p pids => exact pcInv_tables h
  | trace r => exact pcInv_trace h
  | checkGen r => exact pcInv_checkGen h (hcare.2 r hpc)
  | closing r rest =>
    rcases rest with _ | ⟨e, rest⟩
    · trivial
    have htail : ∀ x ∈ rest, x ∉ r.marked → x.1 < s.made ∧ ¬ s.Reachable x :=
      fun x hx => h x (mem_cons_of_mem _ hx)
    simp only [next]
    split
    · exact htail
    · rename_i hne
      exact ⟨h e mem_cons_self (fun hm => hne (.inl hm)), htail⟩
  | closingEnd r e rest => exact h.2

theorem later_collect (s : State) (i : Nat) : Later s (s.collect i) := by
  unfold collect
  split
  · rename_i pc hpc
    unfold write
    split
    · split <;>
        exact Later.of_shrink rfl rfl (fun th ht => ⟨th, ht, rfl, rfl⟩) (fun _ h => h)
          (fun _ _ h => .inl h) (fun _ _ h => h)
    · exact Later.of_shrink rfl rfl (fun th ht => ⟨th, ht, rfl, rfl⟩) (fun _ h => h)
        (fun _ _ h => .inl h) (fun _ _ h => queued_of_close rfl h)
    · exact Later.of_shrink rfl rfl (fun th ht => ⟨th, ht, rfl, rfl⟩) (fun _ h => h)
        (fun _ _ h => .inl h) (fun _ _ h => h)
  · exact Later.refl s

theorem later_step (hcare : s.Careful a) : Later s (s.step a) := by
  cases a with
  | create => exact later_create s
  | insertNew p e => exact later_insertNew s p e
  | insertFail e => exact later_insertFail s e
  | duplicate p e =>
    refine later_onProc (fun pr h => ?_) (fun pr x hx => ?_)
    · split at h <;> exact h
    split at hx
    · rename_i he
      rcases mem_append.1 hx with hx | hx
      · exact hx
      · exact mem_singleton.1 hx ▸ he
    · exact hx
  | closeHandle p e => exact later_onProc (fun _ h => h) (fun _ _ h => mem_of_mem_erase h)
  | exitTake p => exact later_onProc (fun _ h => h) (fun _ _ => nofun)
  | exitLeave p => exact later_onProc (fun _ => nofun) (fun _ _ h => h)
  | get t p e => exact later_get s t p e
  | release t => exact later_release s t
  | openGen t => exact later_openGen s t
  | openCount t => exact later_openCount s t
  | take t p es => exact later_take hcare
  | push t => exact later_push s t
  | pop t => exact later_pop hcare
  | insert t p n => exact later_insert s t p n
  | spawn t => exact later_spawn s t
  | closeWindow t => exact later_closeWindow s t
  | drop e => exact later_drop s e
  | collect i => exact later_collect s i

theorem cols_step (h : pc ∈ (s.step a).cols) :
    pc ∈ s.cols ∨ ∃ i pc₀, a = .collect i ∧ s.cols[i]? = some pc₀ ∧ pc = s.next pc₀ := by
  cases a with
  | collect i =>
    simp only [step, collect] at h
    split at h
    · rename_i pc₀ hpc₀
      rcases mem_or_eq_of_mem_set h with h | h
      · exact .inl h
      · exact .inr ⟨i, pc₀, rfl, hpc₀, h⟩
    · exact .inl h
  | create | insertFail => exact .inl h
  | _ =>
    refine .inl ?_
    simp only [step, onProc, insertNew, get, release, openGen, openCount, take, push, pop,
      insert, spawn, closeWindow, drop, close, setThread, setProc] at h
    repeat' split at h
    all_goals exact h

theorem Inv.step (hi : s.Inv) (hcare : s.Careful a) : (s.step a).Inv where
  registered := by
    intro e he
    rcases (later_step hcare).reach e he with he | he
    · exact Nat.lt_of_lt_of_le (hi.registered e he) (later_step hcare).made_le
    · exact he.2
  cols := by
    intro pc hpc
    refine (later_step hcare).pcInv ?_
    rcases cols_step hpc with hpc | ⟨i, pc₀, rfl, hpc₀, rfl⟩
    · exact hi.cols pc hpc
    · exact pcInv_next hi hpc₀ hcare

theorem Inv.run {as : List Action} (hi : s.Inv) (hcare : CarefulRun s as) : (s.run as).Inv := by
  induction as generalizing s with
  | nil => exact hi
  | cons a as ih => exact ih (hi.step hcare.1) hcare.2

theorem Inv.safe (hi : s.Inv) : s.Safe := by
  intro pc hpc e he
  have h := hi.cols pc hpc
  cases pc with
  | closing r rest =>
    rcases rest with _ | ⟨x, rest⟩
    · cases he
    rw [Pc.aboutToClose] at he
    split at he
    · cases he
    rename_i hm
    cases he
    exact (h _ mem_cons_self hm).2
  | closingEnd r x rest =>
    cases he
    exact h.1.2
  | _ => cases he

theorem inv_start (procs threads cols : Nat) : (start procs threads cols).Inv where
  registered := by
    intro e he
    refine (Reach.mem_of_closed (P := fun _ => False) (fun x hx => ?_) (fun _ _ h _ => h) he).elim
    cases hx with
    | table ht =>
      obtain ⟨pr, hp, _, hx⟩ := ht
      rw [eq_of_mem_replicate (mem_of_getElem? hp)] at hx
      cases hx
    | pinned hp => cases hp
    | carried ht _ hx =>
      rw [eq_of_mem_replicate ht] at hx
      cases hx
  cols := by
    intro pc hpc
    rw [eq_of_mem_replicate hpc]
    trivial

/-- In a careful run of any number of processes, threads and collectors, no
collector is ever about to close an end that is reachable. -/
theorem careful_run_safe (procs threads cols : Nat) (as : List Action)
    (hcare : CarefulRun (start procs threads cols) as) : ((start procs threads cols).run as).Safe :=
  ((inv_start procs threads cols).run hcare).safe

/-- Thread `t` sends the handle of `e` over the end `user`, both in the table
of process `0`. -/
def sendActions (t : Nat) (user e : End) : List Action :=
  [.get t 0 user, .openGen t, .openCount t, .take t 0 [e], .push t, .closeWindow t]

/-- Two channels in the table of process `0`. -/
def setupActions : List Action :=
  [.create, .create, .insertNew 0 (0, false), .insertNew 0 (0, true), .insertNew 0 (1, false),
    .insertNew 0 (1, true)]

/-- Two ends are sent into each other's queues, one end is received back and
sent again, and a collector runs until it is about to close the first end of
the cycle. -/
def cycleActions : List Action :=
  setupActions ++ sendActions 0 (0, false) (1, true) ++
    [.get 0 0 (0, true), .pop 0, .insert 0 0 1, .closeWindow 0] ++
    sendActions 0 (0, false) (1, true) ++ sendActions 0 (1, false) (0, true) ++
    List.replicate 16 (.collect 0)

theorem cycleActions_safe : CarefulRun (start 1 1 1) cycleActions ∧
      ((start 1 1 1).run cycleActions).cols.map Pc.aboutToClose = [some (0, true)] ∧
      ((start 1 1 1).run cycleActions).Safe :=
  have hcare : CarefulRun (start 1 1 1) cycleActions := carefulRun_of_test (by decide +kernel)
  ⟨hcare, by decide +kernel, careful_run_safe 1 1 1 cycleActions hcare⟩

/-- A collector reads both counters between the two increments of a sender's
window, misses the handle in the sender's hands, and finds both counters
unchanged once the message is queued. -/
def raceActions : List Action :=
  setupActions ++
    [.get 0 0 (0, false), .collect 0, .openGen 0, .collect 0, .collect 0, .openCount 0,
      .take 0 0 [(1, false)]] ++ List.replicate 10 (.collect 0) ++
    [.push 0, .closeWindow 0] ++ List.replicate 5 (.collect 0)

/-- The collector then closes an end that waits in the queue of an end held
in the table of a live process. -/
theorem half_open_window_closes_reachable : ¬ ((start 1 1 1).run raceActions).Safe ∧
      ((start 1 1 1).run (raceActions ++ [.collect 0, .collect 0])).closed (1, false) = true ∧
      ((start 1 1 1).run (raceActions ++ [.collect 0, .collect 0])).Reachable (1, false) := by
  have hreach : ∀ {s : State},
      (s.procs[0]?.any fun pr => pr.live && ((0, true) : End) ∈ pr.handles) = true →
      s.queue (0, true) = [[(1, false)]] → s.Reachable (1, false) := by
    intro s htable hqueue
    exact .step (.root (.table (inTable_of_any htable)))
      ⟨_, hqueue ▸ mem_cons_self, mem_cons_self⟩
  refine ⟨fun hsafe => ?_, by decide +kernel, hreach (by decide +kernel) (by decide +kernel)⟩
  have hcols : ((start 1 1 1).run raceActions).cols.map Pc.aboutToClose = [some (1, false)] := by
    decide +kernel
  obtain ⟨pc, hpc, he⟩ := mem_map.1 (hcols ▸ mem_cons_self)
  exact hsafe pc hpc _ he (hreach (by decide +kernel) (by decide +kernel))

end State
end NexoOS.Kernel.Collector
