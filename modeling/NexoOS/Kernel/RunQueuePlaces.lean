import NexoOS.Kernel.RunQueue
import NexoOS.Lib.Slots

/-!
# Every thread is in one place

The invariant of the scheduler: the lists hold no thread twice, a thread is
where its state says, and the thread of a CPU is no other CPU's. It holds
between the sections under the lock and also in the middle of a switch.
-/

namespace NexoOS.Kernel.RunQueue

open Function List Option Sched
namespace Sched

/-! ## The invariant -/

structure Inv (s : Sched) : Prop where
  queueNodup : s.runQueue.Nodup
  sleepNodup : s.sleepers.Nodup
  queued : ∀ t ∈ s.runQueue, (s.threads t).state = .ready ∧ (s.threads t).isIdle = false
  asleep : ∀ t ∈ s.sleepers, (s.threads t).state = .sleeping
  runs : ∀ {ci t}, s.running ci = some t → (s.threads t).state = .running
  runInj : ∀ {ci cj t}, s.running ci = some t → s.running cj = some t → ci = cj
  idleSlot : ∀ {ci t}, s.idle ci = some t → (s.threads t).isIdle = true
  idleInj : ∀ {ci cj t}, s.idle ci = some t → s.idle cj = some t → ci = cj
  idleHome : ∀ {ci t}, s.running ci = some t → (s.threads t).isIdle = true → s.idle ci = some t
  hasIdle : ∀ {ci t}, s.running ci = some t → ∃ i, s.idle ci = some i
  idleState : ∀ t, (s.threads t).isIdle = true →
    (s.threads t).state = .ready ∨ (s.threads t).state = .running
  located : ∀ t ∈ s.all, (s.threads t).isIdle = false →
    ((s.threads t).state = .ready → t ∈ s.runQueue) ∧
    ((s.threads t).state = .sleeping → t ∈ s.sleepers) ∧
    ((s.threads t).state = .running → ∃ ci, s.running ci = some t)
  deadState : ∀ t ∈ s.dead, (s.threads t).state = .dead
  bounds : (∀ t ∈ s.runQueue, t < s.nextId) ∧ (∀ t ∈ s.all, t < s.nextId) ∧
    ∀ ci t, s.idle ci = some t → t < s.nextId
  unborn : ∀ t, s.nextId ≤ t → (s.threads t).state = .ready

variable {s s' : Sched} {t idle next : Tid} {ci : Cpu}

theorem Inv.lt_nextId (h : s.Inv) (ht : (s.threads t).state ≠ .ready) : t < s.nextId := by
  by_contra hc
  exact ht (h.unborn t (Nat.le_of_not_lt hc))

/-- What the invariant says of one thread. -/
structure Sound (s : Sched) (t : Tid) : Prop where
  queued : t ∈ s.runQueue → (s.threads t).state = .ready ∧ (s.threads t).isIdle = false
  asleep : t ∈ s.sleepers → (s.threads t).state = .sleeping
  runs : ∀ {ci}, s.running ci = some t → (s.threads t).state = .running
  runInj : ∀ {ci cj}, s.running ci = some t → s.running cj = some t → ci = cj
  idleSlot : ∀ {ci}, s.idle ci = some t → (s.threads t).isIdle = true
  idleInj : ∀ {ci cj}, s.idle ci = some t → s.idle cj = some t → ci = cj
  idleHome : ∀ {ci}, s.running ci = some t → (s.threads t).isIdle = true → s.idle ci = some t
  idleState : (s.threads t).isIdle = true →
    (s.threads t).state = .ready ∨ (s.threads t).state = .running
  located : t ∈ s.all → (s.threads t).isIdle = false →
    ((s.threads t).state = .ready → t ∈ s.runQueue) ∧
    ((s.threads t).state = .sleeping → t ∈ s.sleepers) ∧
    ((s.threads t).state = .running → ∃ ci, s.running ci = some t)
  deadState : t ∈ s.dead → (s.threads t).state = .dead
  bounds : (t ∈ s.runQueue ∨ t ∈ s.all ∨ ∃ ci, s.idle ci = some t) → t < s.nextId
  unborn : s.nextId ≤ t → (s.threads t).state = .ready

theorem Inv.sound (h : s.Inv) (t : Tid) : s.Sound t := by
  refine ⟨h.queued t, h.asleep t, h.runs, h.runInj, h.idleSlot, h.idleInj, h.idleHome,
    h.idleState t, h.located t, h.deadState t, ?_, h.unborn t⟩
  rintro (hq | ha | ⟨ci, hi⟩)
  · exact h.bounds.1 t hq
  · exact h.bounds.2.1 t ha
  · exact h.bounds.2.2 ci t hi

/-- The two states do not differ in what the invariant says of the thread. -/
structure Agree (s s' : Sched) (t : Tid) : Prop where
  state : (s'.threads t).state = (s.threads t).state
  isIdle : (s'.threads t).isIdle = (s.threads t).isIdle
  queue : t ∈ s'.runQueue ↔ t ∈ s.runQueue
  sleepers : t ∈ s'.sleepers ↔ t ∈ s.sleepers
  running : ∀ ci, s'.running ci = some t ↔ s.running ci = some t
  idle : ∀ ci, s'.idle ci = some t ↔ s.idle ci = some t
  dead : t ∈ s'.dead → t ∈ s.dead
  all : t ∈ s'.all → t ∈ s.all
  nextId : s.nextId ≤ s'.nextId

theorem Sound.agree (h : s.Sound t) (a : s.Agree s' t) : s'.Sound t := by
  constructor <;> simp only [a.state, a.isIdle, a.queue, a.sleepers, a.running, a.idle]
  case queued => exact h.queued
  case asleep => exact h.asleep
  case runs => exact h.runs
  case runInj => exact h.runInj
  case idleSlot => exact h.idleSlot
  case idleInj => exact h.idleInj
  case idleHome => exact h.idleHome
  case idleState => exact h.idleState
  case located => exact fun ht => h.located (a.all ht)
  case deadState => exact fun ht => h.deadState (a.dead ht)
  case bounds =>
    exact fun ht => lt_of_lt_of_le (h.bounds (ht.imp id (Or.imp a.all id))) a.nextId
  case unborn => exact fun ht => h.unborn (le_trans a.nextId ht)

/-- A step keeps the invariant if it keeps it for the threads it touches. -/
theorem Inv.change (h : s.Inv) (hq : s'.runQueue.Nodup) (hs : s'.sleepers.Nodup)
    (hi : ∀ {ci t}, s'.running ci = some t → ∃ i, s'.idle ci = some i)
    (hall : ∀ t, s.Agree s' t ∨ s'.Sound t) : s'.Inv := by
  have hs' := fun t => (hall t).elim (h.sound t).agree id
  exact ⟨hq, hs, fun t => (hs' t).queued, fun t => (hs' t).asleep, (hs' _).runs, (hs' _).runInj,
    (hs' _).idleSlot, (hs' _).idleInj, (hs' _).idleHome, hi, fun t => (hs' t).idleState,
    fun t => (hs' t).located, fun t => (hs' t).deadState,
    ⟨fun t ht => (hs' t).bounds (.inl ht), fun t ht => (hs' t).bounds (.inr (.inl ht)),
      fun ci t ht => (hs' t).bounds (.inr (.inr ⟨ci, ht⟩))⟩, fun t => (hs' t).unborn⟩

theorem Sound.running (hst : (s.threads t).state = .running) (hq : t ∉ s.runQueue)
    (hs : t ∉ s.sleepers) (hd : t ∉ s.dead) (hr : ∀ cj, s.running cj = some t ↔ cj = ci)
    (hi : ∀ {cj}, s.idle cj = some t → cj = ci ∧ (s.threads t).isIdle = true)
    (hhome : (s.threads t).isIdle = true → s.idle ci = some t) (hlt : t < s.nextId) :
    s.Sound t where
  queued h := absurd h hq
  asleep h := absurd h hs
  runs _ := hst
  runInj h₁ h₂ := ((hr _).1 h₁).trans ((hr _).1 h₂).symm
  idleSlot h := (hi h).2
  idleInj h₁ h₂ := (hi h₁).1.trans (hi h₂).1.symm
  idleHome h hid := (hr _).1 h ▸ hhome hid
  idleState _ := .inr hst
  located _ _ := by
    rw [hst]
    exact ⟨nofun, nofun, fun _ => ⟨ci, (hr ci).2 rfl⟩⟩
  deadState h := absurd h hd
  bounds _ := hlt
  unborn h := absurd h (not_le.2 hlt)

theorem Sound.waiting (hne : (s.threads t).state ≠ .running) (hr : ∀ ci, s.running ci ≠ some t)
    (hq : t ∈ s.runQueue ↔ (s.threads t).state = .ready ∧ (s.threads t).isIdle = false)
    (hs : t ∈ s.sleepers ↔ (s.threads t).state = .sleeping) (hd : t ∉ s.dead)
    (hi : ∀ {ci}, s.idle ci = some t → (s.threads t).isIdle = true)
    (hinj : ∀ {ci cj}, s.idle ci = some t → s.idle cj = some t → ci = cj)
    (hid : (s.threads t).isIdle = true → (s.threads t).state = .ready) (hlt : t < s.nextId) :
    s.Sound t where
  queued := hq.1
  asleep := hs.1
  runs h := absurd h (hr _)
  runInj h := absurd h (hr _)
  idleSlot := hi
  idleInj := hinj
  idleHome h := absurd h (hr _)
  idleState h := .inl (hid h)
  located _ hf := ⟨fun h => hq.2 ⟨h, hf⟩, hs.2, fun h => absurd h hne⟩
  deadState h := absurd h hd
  bounds _ := hlt
  unborn h := absurd h (not_le.2 hlt)

/-! A thread is in no list that its state does not go with. -/

variable {st : State} {f : Cpu → Option Tid} {u : Tid}

theorem Inv.notQueued (h : s.Inv) (hst : (s.threads t).state = st) (hne : st ≠ .ready) :
    t ∉ s.runQueue :=
  fun hc => hne (hst.symm.trans (h.queued t hc).1)

theorem Inv.notAsleep (h : s.Inv) (hst : (s.threads t).state = st) (hne : st ≠ .sleeping) :
    t ∉ s.sleepers :=
  fun hc => hne (hst.symm.trans (h.asleep t hc))

theorem Inv.notDead (h : s.Inv) (hst : (s.threads t).state = st) (hne : st ≠ .dead) : t ∉ s.dead :=
  fun hc => hne (hst.symm.trans (h.deadState t hc))

theorem Inv.notRunning (h : s.Inv) (hst : (s.threads t).state = st) (hne : st ≠ .running) (ci : Cpu) :
    s.running ci ≠ some t :=
  fun hc => hne (hst.symm.trans (h.runs hc))

theorem Inv.sameStates (h : s.Inv) (hst : ∀ t, (s'.threads t).state = (s.threads t).state)
    (hid : ∀ t, (s'.threads t).isIdle = (s.threads t).isIdle)
    (hq : s'.runQueue = s.runQueue) (hs : s'.sleepers = s.sleepers) (hd : s'.dead = s.dead)
    (ha : s'.all = s.all) (hr : s'.running = s.running) (hi : s'.idle = s.idle)
    (hn : s'.nextId = s.nextId) : s'.Inv := by
  refine h.change (hq ▸ h.queueNodup) (hs ▸ h.sleepNodup) ?_ fun t => .inl ?_
  · rw [hr, hi]
    exact h.hasIdle
  · exact ⟨hst t, hid t, by rw [hq], by rw [hs], by simp [hr], by simp [hi], by simp [hd],
      by simp [ha], le_of_eq hn.symm⟩

theorem setThread_same {α : Type} {f : Thread → Thread} (p : Thread → α)
    (h : p (f (s.threads t)) = p (s.threads t)) (u : Tid) :
    p ((s.setThread t f).threads u) = p (s.threads u) := by
  show p (update s.threads t _ u) = _
  by_cases hu : u = t
  · rw [hu, update_self, h]
  · rw [update_of_ne hu]

theorem Inv.setThread (h : s.Inv) (t : Tid) {f : Thread → Thread}
    (hst : (f (s.threads t)).state = (s.threads t).state)
    (hid : (f (s.threads t)).isIdle = (s.threads t).isIdle) : (s.setThread t f).Inv :=
  h.sameStates (setThread_same (·.state) hst) (setThread_same (·.isIdle) hid) rfl rfl rfl rfl rfl
    rfl rfl

/-! ## Switching -/

theorem update_iff_of_ne (hf : f ci ≠ some u) (hne : u ≠ t) (cj : Cpu) :
    update f ci (some t) cj = some u ↔ f cj = some u := by
  by_cases hc : cj = ci
  · rw [hc, update_self]
    exact ⟨fun he => absurd (some.inj he).symm hne, fun he => absurd he hf⟩
  · rw [update_of_ne hc]

theorem update_iff (ci : Cpu) (hf : ∀ cj, f cj ≠ some t) (cj : Cpu) :
    update f ci (some t) cj = some t ↔ cj = ci := by
  by_cases hc : cj = ci
  · rw [hc, update_self]
    exact iff_of_true rfl rfl
  · rw [update_of_ne hc]
    exact iff_of_false (hf cj) hc

theorem pickNext_lt {looks : PickLooks} {i : Nat} (h : s.pickNext looks ci = some i) :
    i < s.runQueue.length := by
  rcases or_eq_some_iff.1 h with h | ⟨-, h⟩ <;>
    exact (List.findIdx?_eq_some_iff_getElem.1 h).1

/-- The thread that gets the CPU was in the queue or is the idle thread; the
queue loses it and nothing else. -/
theorem takeNext_spec (h : s.Inv) {looks : PickLooks} (hidle : s.idle ci = some idle)
    {queue : List Tid} (he : s.takeNext looks ci idle = (next, queue)) :
    (next ∈ s.runQueue ∨ (next = idle ∧ queue = s.runQueue)) ∧ queue.Nodup ∧
      ∀ t, t ∈ queue ↔ t ∈ s.runQueue ∧ t ≠ next := by
  unfold takeNext at he
  split at he
  · rename_i i hi
    cases he
    have hlt := pickNext_lt hi
    have hget : s.runQueue.getD i idle = s.runQueue[i] := by
      rw [getD_eq_getElem?_getD, List.getElem?_eq_getElem hlt, getD_some]
    rw [hget, ← List.Nodup.erase_getElem h.queueNodup i hlt]
    refine ⟨.inl (getElem_mem hlt), h.queueNodup.erase _, fun t => ?_⟩
    rw [h.queueNodup.mem_erase_iff]
    exact And.comm
  · cases he
    refine ⟨.inr ⟨rfl, rfl⟩, h.queueNodup, fun t => ⟨fun ht => ⟨ht, ?_⟩, fun ht => ht.1⟩⟩
    rintro rfl
    have hfalse := (h.queued t ht).2
    rw [h.idleSlot hidle] at hfalse
    cases hfalse

theorem next_notRunning (h : s.Inv) {cur : Tid} (hcur : s.running ci = some cur)
    (hidle : s.idle ci = some idle) (hnext : next ∈ s.runQueue ∨ next = idle) (hne : next ≠ cur)
    (cj : Cpu) : s.running cj ≠ some next := by
  intro hrun
  rcases hnext with hmem | rfl
  · exact h.notRunning (h.queued next hmem).1 nofun cj hrun
  · obtain rfl := h.idleInj hidle (h.idleHome hrun (h.idleSlot hidle))
    exact hne (some.inj (hrun.symm.trans hcur))

theorem next_notListed (h : s.Inv) (hidle : s.idle ci = some idle)
    (hnext : next ∈ s.runQueue ∨ next = idle) : next ∉ s.sleepers ∧ next ∉ s.dead := by
  have hst : (s.threads next).state = .ready ∨ (s.threads next).state = .running := by
    rcases hnext with hq | rfl
    · exact .inl (h.queued next hq).1
    · exact h.idleState next (h.idleSlot hidle)
  rcases hst with hst | hst <;> exact ⟨h.notAsleep hst nofun, h.notDead hst nofun⟩

def switched (s : Sched) (ci : Cpu) (cur next : Tid) (queue : List Tid) (newState : State) :
    Sched :=
  { (s.setState cur newState).setThread next fun th =>
      { th with state := .running, quantumLeft := quantumTicks } with
    runQueue :=
      if newState = .ready ∧ (s.threads cur).isIdle = false then queue ++ [cur] else queue,
    sleepers := if newState = .sleeping then s.sleepers ++ [cur] else s.sleepers,
    running := update s.running ci (some next),
    prevForFinish := update s.prevForFinish ci (some cur),
    lock := some ci }

section Switched

variable {ci : Cpu} {cur next : Tid} {queue : List Tid} {newState : State}

theorem switched_state (t : Tid) : ((s.switched ci cur next queue newState).threads t).state =
      if t = next then .running else if t = cur then newState else (s.threads t).state := by
  show (update (update s.threads cur _) next _ t).state = _
  by_cases ht : t = next
  · rw [if_pos ht, ht, update_self]
  rw [if_neg ht, update_of_ne ht]
  by_cases hc : t = cur
  · rw [if_pos hc, hc, update_self]
  · rw [if_neg hc, update_of_ne hc]

theorem switched_isIdle (t : Tid) :
    ((s.switched ci cur next queue newState).threads t).isIdle = (s.threads t).isIdle := by
  unfold switched
  dsimp only
  exact (setThread_same (·.isIdle) (by rfl) t).trans (setThread_same (·.isIdle) (by rfl) t)

theorem mem_switched_runQueue (t : Tid) : t ∈ (s.switched ci cur next queue newState).runQueue ↔
      t ∈ queue ∨ (t = cur ∧ newState = .ready ∧ (s.threads cur).isIdle = false) := by
  show t ∈ (if _ then _ else _) ↔ _
  split
  · rename_i hc
    simp [hc]
  · rename_i hc
    simp [hc]

theorem mem_switched_sleepers (t : Tid) : t ∈ (s.switched ci cur next queue newState).sleepers ↔
      t ∈ s.sleepers ∨ (t = cur ∧ newState = .sleeping) := by
  show t ∈ (if _ then _ else _) ↔ _
  split
  · rename_i hc
    simp [hc]
  · rename_i hc
    simp [hc]

/-- `cur` gives the CPU to a thread of the queue or to the idle thread. -/
theorem Inv.switched (h : s.Inv) {idle : Tid}
    (hcur : s.running ci = some cur) (hidle : s.idle ci = some idle)
    (hnext : next ∈ s.runQueue ∨ next = idle) (hqueue : queue.Nodup)
    (hmem : ∀ t, t ∈ queue ↔ t ∈ s.runQueue ∧ t ≠ next) (hne : next ≠ cur)
    (hnew : newState ≠ .running) (hready : (s.threads cur).isIdle = true → newState = .ready) :
    (s.switched ci cur next queue newState).Inv := by
  have hcurState := h.runs hcur
  have hcurQueue : cur ∉ queue := fun hc => h.notQueued hcurState nofun ((hmem cur).1 hc).1
  have hcurSleep := h.notAsleep hcurState nofun
  obtain ⟨hnextSleep, hnextDead⟩ := next_notListed h hidle hnext
  have hrun := update_iff ci (next_notRunning h hcur hidle hnext hne)
  have happend : ∀ {l : List Tid}, l.Nodup → cur ∉ l → (l ++ [cur]).Nodup := fun hl hc =>
    nodup_append.2 ⟨hl, nodup_singleton _, fun a ha b hb he =>
      hc (mem_singleton.1 hb ▸ he ▸ ha)⟩
  refine h.change ?_ ?_ (fun {cj t} ht => ?_) fun t => ?_
  · show (if _ then _ else _ : List Tid).Nodup
    split
    · exact happend hqueue hcurQueue
    · exact hqueue
  · show (if _ then _ else _ : List Tid).Nodup
    split
    · exact happend h.sleepNodup hcurSleep
    · exact h.sleepNodup
  · rcases of_update_some ht with ⟨rfl, -⟩ | ⟨-, ht⟩
    · exact ⟨idle, hidle⟩
    · exact h.hasIdle ht
  have hst := @switched_state s ci cur next queue newState t
  have hid := @switched_isIdle s ci cur next queue newState t
  by_cases htne : t = next
  · subst htne
    rw [if_pos rfl] at hst
    refine .inr (Sound.running hst ?_ ?_ hnextDead hrun (fun {cj} hi => ?_) ?_ ?_)
    · rw [mem_switched_runQueue, hmem]
      tauto
    · rw [mem_switched_sleepers]
      tauto
    · rw [hid]
      refine ⟨?_, h.idleSlot hi⟩
      rcases hnext with hq | rfl
      · exact absurd ((h.queued t hq).2.symm.trans (h.idleSlot hi)) Bool.false_ne_true
      · exact h.idleInj hi hidle
    · intro hi
      rw [hid] at hi
      rcases hnext with hq | rfl
      · exact absurd ((h.queued t hq).2.symm.trans hi) Bool.false_ne_true
      · exact hidle
    · rcases hnext with hq | rfl
      · exact h.bounds.1 t hq
      · exact h.bounds.2.2 ci t hidle
  rw [if_neg htne] at hst
  by_cases htcur : t = cur
  · subst htcur
    rw [if_pos rfl] at hst
    refine .inr (Sound.waiting (by rwa [hst]) (fun cj hc => ?_) ?_ ?_ (h.notDead hcurState nofun)
      (fun hi => hid.trans (h.idleSlot hi)) h.idleInj ?_ (h.lt_nextId (hcurState ▸ nofun)))
    · rcases of_update_some hc with ⟨-, he⟩ | ⟨hcj, hc⟩
      · exact htne he
      · exact hcj (h.runInj hc hcur)
    · rw [mem_switched_runQueue, hst, hid]
      tauto
    · rw [mem_switched_sleepers, hst]
      tauto
    · rw [hst, hid]
      exact hready
  · rw [if_neg htcur] at hst
    refine .inl ⟨hst, hid, ?_, ?_, update_iff_of_ne ?_ htne, fun _ => Iff.rfl, id, id,
      le_refl _⟩
    · rw [mem_switched_runQueue, hmem]
      tauto
    · rw [mem_switched_sleepers]
      tauto
    · rw [hcur]
      exact fun he => htcur (some.inj he).symm

end Switched

/-- `schedule_locked` from any state the running thread may take on; only a
thread that is not idle takes on another than `Ready`. -/
theorem Inv.schedule (h : s.Inv) (looks : PickLooks) (ci : Cpu) {newState : State}
    (hnew : newState ≠ .running)
    (hready : ∀ cur, s.running ci = some cur → (s.threads cur).isIdle = true →
      newState = .ready) : (s.schedule looks ci newState).Inv := by
  unfold Sched.schedule
  split
  · rename_i cur idle hcur hidle
    rcases hnext : s.takeNext looks ci idle with ⟨next, queue⟩
    obtain ⟨hfrom, hnodup, hmem⟩ := takeNext_spec h hidle hnext
    dsimp only
    split
    · rename_i he
      subst he
      -- the queue does not hold the running thread, so it is the idle one
      have hqueue : queue = s.runQueue := by
        rcases hfrom with hq | ⟨-, hqueue⟩
        · have hst := (h.queued next hq).1
          rw [h.runs hcur] at hst
          cases hst
        · exact hqueue
      rw [hqueue]
      exact h.setThread next
        (f := fun th => { th with state := .running, quantumLeft := quantumTicks })
        (h.runs hcur).symm rfl
    · rename_i hne
      exact h.switched hcur hidle (hfrom.imp id And.left) hnodup hmem hne hnew (hready cur hcur)
  · exact h

/-! ## Threads that are in no list -/

/-- A thread that is blocked or dying is in no list and on no CPU. It goes to
the queue, or is dead and goes nowhere. -/
theorem Inv.unlisted (h : s.Inv) {f : Thread → Thread}
    (hfrom : (s.threads t).state = .blocked ∨ (s.threads t).state = .dying)
    (hid : (f (s.threads t)).isIdle = (s.threads t).isIdle) {added : List Tid}
    (hto : ((f (s.threads t)).state = .ready ∧ added = [t]) ∨
      ((f (s.threads t)).state = .dead ∧ added = [])) :
    Inv { s.setThread t f with runQueue := s.runQueue ++ added } := by
  have hat : (s.setThread t f).threads t = f (s.threads t) := update_self ..
  have hidle : (s.threads t).isIdle = false := by
    by_contra hc
    rw [Bool.not_eq_false] at hc
    rcases h.idleState t hc with he | he <;> rw [he] at hfrom <;> rcases hfrom with hf | hf <;>
      cases hf
  have hno : t ∉ s.runQueue ∧ t ∉ s.sleepers ∧ t ∉ s.dead ∧ (∀ ci, s.running ci ≠ some t) ∧
      t < s.nextId := by
    rcases hfrom with hf | hf <;>
      exact ⟨h.notQueued hf nofun, h.notAsleep hf nofun, h.notDead hf nofun,
        h.notRunning hf nofun, h.lt_nextId (hf ▸ nofun)⟩
  obtain ⟨hqueue, hsleep, hdead, hrun, hlt⟩ := hno
  have hadded : ∀ u, u ∈ added ↔ u = t ∧ (f (s.threads t)).state = .ready := by
    intro u
    rcases hto with ⟨hst, rfl⟩ | ⟨hst, rfl⟩ <;> simp [hst]
  refine h.change ?_ h.sleepNodup h.hasIdle fun u => ?_
  · refine nodup_append.2 ⟨h.queueNodup, ?_, fun a ha b hb he => ?_⟩
    · rcases hto with ⟨-, rfl⟩ | ⟨-, rfl⟩
      · exact nodup_singleton _
      · exact nodup_nil
    · exact hqueue (((hadded b).1 hb).1 ▸ he ▸ ha)
  by_cases hu : u = t
  · subst hu
    have hst := hto.imp And.left And.left
    refine .inr (Sound.waiting ?_ hrun ?_ ?_ hdead ?_ h.idleInj ?_ hlt) <;> dsimp only <;> rw [hat]
    · rcases hst with hst | hst <;> rw [hst] <;> nofun
    · rw [mem_append, hadded, hid, hidle]
      tauto
    · rcases hst with hst | hst <;> rw [hst] <;> exact iff_of_false hsleep nofun
    · exact fun hi => hid.trans (h.idleSlot hi)
    · rw [hid, hidle]
      nofun
  · have hother : (s.setThread t f).threads u = s.threads u := update_of_ne hu ..
    refine .inl ⟨congrArg _ hother, congrArg _ hother, ?_, Iff.rfl, fun _ => Iff.rfl,
      fun _ => Iff.rfl, id, id, le_refl _⟩
    rw [mem_append, hadded]
    tauto

theorem Inv.wake (h : s.Inv) (t : Tid) : (s.wake t).Inv := by
  unfold Sched.wake
  split
  · rename_i hblocked
    exact h.unlisted (.inl hblocked) rfl (.inl ⟨rfl, rfl⟩)
  · exact h

theorem Inv.wakeAll (h : s.Inv) (ts : List Tid) : (ts.foldl Sched.wake s).Inv := by
  induction ts generalizing s with
  | nil => exact h
  | cons t ts ih => exact ih (h.wake t)

theorem foldl_wake_state (hst : (s.threads t).state = st) (hne : st ≠ .blocked) (ts : List Tid) :
    ((ts.foldl wake s).threads t).state = st := by
  induction ts generalizing s with
  | nil => exact hst
  | cons u ts ih =>
    refine ih ?_
    unfold wake
    split
    · rename_i hblocked
      have htu : t ≠ u := by
        rintro rfl
        exact hne (hst.symm.trans hblocked)
      show (update s.threads u _ t).state = _
      rw [update_of_ne htu, hst]
    · exact hst

theorem Inv.addDead (h : s.Inv) (ht : (s.threads t).state = .dead) :
    Inv { s with dead := s.dead ++ [t] } := by
  refine ⟨h.queueNodup, h.sleepNodup, h.queued, h.asleep, h.runs, h.runInj, h.idleSlot, h.idleInj,
    h.idleHome, h.hasIdle, h.idleState, h.located, fun u hu => ?_, h.bounds, h.unborn⟩
  rcases mem_append.1 hu with hu | hu
  · exact h.deadState u hu
  · rw [mem_singleton.1 hu]
    exact ht

theorem Inv.finishSwitch (h : s.Inv) (ci : Cpu) : (s.finishSwitch ci).Inv := by
  have hlock : ∀ (p : Cpu → Option Tid) (l : Option Cpu),
      Inv { s with lock := l, prevForFinish := p } := by
    intro p l
    exact h.sameStates (fun _ => rfl) (fun _ => rfl) rfl rfl rfl rfl rfl rfl rfl
  unfold Sched.finishSwitch
  dsimp only
  split
  · exact hlock _ _
  rename_i prev hprev
  split
  · rename_i hdying
    have hdead := (hlock (update s.prevForFinish ci none) none).unlisted
      (f := fun th => { th with state := .dead, finished := true, waiters := [] })
      (.inr hdying) rfl (.inr ⟨rfl, rfl⟩)
    rw [append_nil] at hdead
    refine (hdead.wakeAll (s.threads prev).waiters).addDead
      (foldl_wake_state ?_ (show State.dead ≠ State.blocked by decide) _)
    show (update s.threads prev _ prev).state = _
    rw [update_self]
  · exact hlock _ _

/-! ## New threads and old ones -/

/-- The next number is that of no thread. -/
structure Fresh (s : Sched) (t : Tid) : Prop where
  queue : t ∉ s.runQueue
  sleepers : t ∉ s.sleepers
  running : ∀ ci, s.running ci ≠ some t
  idle : ∀ ci, s.idle ci ≠ some t
  dead : t ∉ s.dead

theorem Inv.fresh (h : s.Inv) : s.Fresh s.nextId := by
  have hst := h.unborn _ (le_refl _)
  exact ⟨fun hc => lt_irrefl _ (h.bounds.1 _ hc), h.notAsleep hst nofun,
    h.notRunning hst nofun, fun ci hc => lt_irrefl _ (h.bounds.2.2 ci _ hc),
    h.notDead hst nofun⟩

theorem mem_append_iff_of_ne {l : List Tid} (hu : u ≠ t) : u ∈ l ++ [t] ↔ u ∈ l := by
  simp [hu]

theorem Inv.spawn (h : s.Inv) (ci : Cpu) (mask : Nat) (process : Option Pid) :
    (s.spawn ci mask process).Inv := by
  have hfresh := h.fresh
  have hat : ((s.spawn ci mask process).threads s.nextId).state = .ready ∧
      ((s.spawn ci mask process).threads s.nextId).isIdle = false := by
    simp [Sched.spawn, RunQueue.newThread]
  refine h.change ?_ h.sleepNodup h.hasIdle fun u => ?_
  · refine nodup_append.2 ⟨h.queueNodup, nodup_singleton _, fun a ha b hb he => ?_⟩
    exact hfresh.queue (mem_singleton.1 hb ▸ he ▸ ha)
  by_cases hu : u = s.nextId
  · subst hu
    refine .inr (Sound.waiting ?_ hfresh.running ?_ ?_ hfresh.dead
      (fun hi => absurd hi (hfresh.idle _)) h.idleInj (fun _ => hat.1) (Nat.lt_succ_self _)) <;>
      rw [hat.1]
    · nofun
    · exact iff_of_true (mem_append_right _ (mem_singleton.2 rfl)) ⟨rfl, hat.2⟩
    · exact iff_of_false hfresh.sleepers nofun
  · have hother : (s.spawn ci mask process).threads u = s.threads u := update_of_ne hu ..
    exact .inl ⟨congrArg _ hother, congrArg _ hother, mem_append_iff_of_ne hu, Iff.rfl,
      fun _ => Iff.rfl, fun _ => Iff.rfl, id, (mem_append_iff_of_ne hu).1, Nat.le_succ _⟩

theorem Inv.apIdleLoop (h : s.Inv) (hrun : s.running ci = none) (hidle : s.idle ci = none) :
    (s.apIdleLoop ci).Inv := by
  have hfresh := h.fresh
  have hat : ((s.apIdleLoop ci).threads s.nextId).state = .running ∧
      ((s.apIdleLoop ci).threads s.nextId).isIdle = true := by
    simp [Sched.apIdleLoop, RunQueue.newThread]
  have hidleAt := update_iff ci hfresh.idle
  refine h.change h.queueNodup h.sleepNodup (fun {cj u} hu => ?_) fun u => ?_
  · rcases of_update_some hu with ⟨rfl, -⟩ | ⟨hcj, hu⟩
    · exact ⟨s.nextId, update_self ..⟩
    · obtain ⟨i, hi⟩ := h.hasIdle hu
      exact ⟨i, (update_of_ne hcj ..).trans hi⟩
  by_cases hu : u = s.nextId
  · subst hu
    exact .inr (Sound.running hat.1 hfresh.queue hfresh.sleepers hfresh.dead
      (update_iff ci hfresh.running) (fun hi => ⟨(hidleAt _).1 hi, hat.2⟩)
      (fun _ => (hidleAt ci).2 rfl) (Nat.lt_succ_self _))
  · have hother : (s.apIdleLoop ci).threads u = s.threads u := update_of_ne hu ..
    exact .inl ⟨congrArg _ hother, congrArg _ hother, Iff.rfl, Iff.rfl,
      update_iff_of_ne (hrun ▸ nofun) hu, update_iff_of_ne (hidle ▸ nofun) hu, id,
      (mem_append_iff_of_ne hu).1, Nat.le_succ _⟩

theorem Inv.reap (h : s.Inv) : s.reap.Inv := by
  refine ⟨h.queueNodup, h.sleepNodup, h.queued, h.asleep, h.runs, h.runInj, h.idleSlot, h.idleInj,
    h.idleHome, h.hasIdle, h.idleState, fun t ht => h.located t (mem_of_mem_filter ht), nofun,
    ⟨h.bounds.1, fun t ht => h.bounds.2.1 t (mem_of_mem_filter ht), h.bounds.2.2⟩, h.unborn⟩

theorem Inv.wakeSleepers (h : s.Inv) (now : Nat) : (s.wakeSleepers now).Inv := by
  have hst : ∀ u, ((s.wakeSleepers now).threads u).state =
      if u ∈ s.sleepers ∧ (s.threads u).wakeAt ≤ now then .ready else (s.threads u).state := by
    intro u
    by_cases hu : u ∈ s.sleepers ∧ (s.threads u).wakeAt ≤ now <;>
      simp [Sched.wakeSleepers, hu]
  have hid : ∀ u, ((s.wakeSleepers now).threads u).isIdle = (s.threads u).isIdle := by
    intro u
    by_cases hu : u ∈ s.sleepers ∧ (s.threads u).wakeAt ≤ now <;>
      simp [Sched.wakeSleepers, hu]
  have hmemq : ∀ u, u ∈ (s.wakeSleepers now).runQueue ↔
      u ∈ s.runQueue ∨ (u ∈ s.sleepers ∧ (s.threads u).wakeAt ≤ now) := by
    intro u
    simp [Sched.wakeSleepers]
  have hmems : ∀ u, u ∈ (s.wakeSleepers now).sleepers ↔
      u ∈ s.sleepers ∧ ¬ (s.threads u).wakeAt ≤ now := by
    intro u
    simp [Sched.wakeSleepers]
  refine h.change ?_ (h.sleepNodup.filter _) h.hasIdle fun u => ?_
  · refine nodup_append.2 ⟨h.queueNodup, h.sleepNodup.filter _, fun a ha b hb he => ?_⟩
    exact h.notQueued (h.asleep b (mem_of_mem_filter hb)) nofun (he ▸ ha)
  have hst := hst u
  split at hst
  · rename_i hu
    have hsleep := h.asleep u hu.1
    have hidle : (s.threads u).isIdle = false := by
      by_contra hc
      rcases h.idleState u (by simpa using hc) with he | he <;> rw [he] at hsleep <;> cases hsleep
    refine .inr (Sound.waiting (hst ▸ nofun) (h.notRunning hsleep nofun) ?_ ?_
      (h.notDead hsleep nofun) (fun hi => (hid u).trans (h.idleSlot hi)) h.idleInj (fun _ => hst)
      (h.lt_nextId (hsleep ▸ nofun)))
    · exact iff_of_true ((hmemq u).2 (.inr hu)) ⟨hst, (hid u).trans hidle⟩
    · rw [hmems, hst]
      exact iff_of_false (fun hc => hc.2 hu.2) nofun
  · refine .inl ⟨hst, hid u, ?_, ?_, fun _ => Iff.rfl, fun _ => Iff.rfl, id, id, le_refl _⟩
    · rw [hmemq]
      tauto
    · rw [hmems]
      tauto

/-! ## Runs -/

section
variable (h : s.Inv)
include h

theorem Inv.onTick (looks : TickLooks) (ci : Cpu) (now : Nat) (edge : Bool) :
    (s.onTick looks ci now edge).Inv := by
  have hw := h.wakeSleepers now
  unfold Sched.onTick
  generalize s.wakeSleepers now = s₁ at hw ⊢
  dsimp only
  split
  · exact hw
  rename_i cur hcur
  have hq : Inv (if edge = true then
      s₁.setThread cur fun th => { th with quantumLeft := th.quantumLeft - 1 } else s₁) := by
    split
    · exact hw.setThread cur rfl rfl
    · exact hw
  generalize (if edge = true then
    s₁.setThread cur fun th => { th with quantumLeft := th.quantumLeft - 1 } else s₁) = s₂ at hq ⊢
  split
  · exact hq.schedule looks.pick ci nofun fun _ _ _ => rfl
  split
  · exact hq.schedule looks.pick ci nofun fun _ _ _ => rfl
  · exact hq

theorem Inv.onReschedIpi (looks : IpiLooks) (ci : Cpu) : (s.onReschedIpi looks ci).Inv := by
  unfold Sched.onReschedIpi
  split
  · exact h
  split
  · exact h.schedule looks.pick ci nofun fun _ _ _ => rfl
  · exact h

variable (looks : PickLooks)

theorem Inv.giveUp {cur : Tid} {newState : State}
    (hcur : s.running ci = some cur) (hidle : ¬ (s.threads cur).isIdle = true)
    (hnew : newState ≠ .running) : (s.schedule looks ci newState).Inv := by
  refine h.schedule looks ci hnew fun t ht hid => ?_
  obtain rfl := some.inj (hcur.symm.trans ht)
  exact absurd hid hidle

theorem Inv.sleep (ci : Cpu) (wakeAt : Nat) : (s.sleep looks ci wakeAt).Inv := by
  unfold Sched.sleep
  split
  · rename_i cur hcur
    split
    · exact h
    rename_i hidle
    refine (h.setThread cur (f := fun th => { th with wakeAt }) rfl rfl).giveUp looks hcur ?_ nofun
    show ¬ (update s.threads cur _ cur).isIdle = true
    rw [update_self]
    exact hidle
  · exact h

theorem Inv.park (ci : Cpu) : (s.park looks ci).Inv := by
  unfold Sched.park
  split
  · rename_i cur hcur
    split
    · exact h
    · rename_i hidle
      exact h.giveUp looks hcur hidle nofun
  · exact h

theorem Inv.exit (ci : Cpu) : (s.exit looks ci).Inv := by
  unfold Sched.exit
  split
  · rename_i cur hcur
    split
    · exact h
    · rename_i hidle
      exact h.giveUp looks hcur hidle nofun
  · exact h

theorem Inv.join (ci : Cpu) (t : Tid) : (s.join looks ci t).Inv := by
  unfold Sched.join
  split
  · rename_i cur hcur
    split
    · exact h
    split
    · exact h
    rename_i hchecks
    rw [not_or] at hchecks
    refine (h.setThread t (f := fun th =>
      if cur ∈ th.waiters then th else { th with waiters := th.waiters ++ [cur] })
      ?_ ?_).giveUp looks hcur ?_ nofun
    · split <;> rfl
    · split <;> rfl
    · show ¬ (update s.threads t _ cur).isIdle = true
      rw [update_of_ne hchecks.2]
      exact hchecks.1
  · exact h

theorem Inv.act (a : Act) : (s.act a).Inv := by
  cases a with
  | spawn ci mask process => exact h.spawn ci mask process
  | apIdleLoop ci =>
    unfold Sched.act
    dsimp only
    split
    · rename_i hnone
      exact h.apIdleLoop hnone.1 hnone.2
    · exact h
  | yieldNow looks ci => exact h.schedule looks ci nofun fun _ _ _ => rfl
  | sleep looks ci wakeAt => exact h.sleep looks ci wakeAt
  | park looks ci => exact h.park looks ci
  | unpark t =>
    show (s.unpark t).Inv
    unfold unpark
    split
    · exact h.wake t
    · exact h
  | join looks ci t => exact h.join looks ci t
  | exit looks ci => exact h.exit looks ci
  | reap => exact h.reap
  | onTick looks ci now edge => exact h.onTick looks ci now edge
  | onReschedIpi looks ci => exact h.onReschedIpi looks ci
  | setAffinity t | setPriority t =>
    unfold Sched.act
    dsimp only
    split
    · exact h.setThread t rfl rfl
    · exact h

theorem Inv.step (st : Step) : (s.step st).Inv := by
  cases st with
  | act a =>
    unfold Sched.step
    dsimp only
    split
    · exact h.act a
    · exact h
  | finish =>
    unfold Sched.step
    dsimp only
    split
    · exact h.finishSwitch _
    · exact h

theorem Inv.run (steps : List Step) : (s.run steps).Inv := by
  induction steps generalizing s with
  | nil => exact h
  | cons st steps ih => exact ih (h.step st)

end

theorem inv_init : init.Inv := by
  have hrun : ∀ {ci t}, init.running ci = some t → ci = 0 ∧ t = 1 := by
    intro ci t h
    change (if ci = 0 then some 1 else none) = some t at h
    split at h
    · rename_i hci
      exact ⟨hci, (some.inj h).symm⟩
    · cases h
  have hidle : ∀ {ci t}, init.idle ci = some t → ci = 0 ∧ t = 2 := by
    intro ci t h
    change (if ci = 0 then some 2 else none) = some t at h
    split at h
    · rename_i hci
      exact ⟨hci, (some.inj h).symm⟩
    · cases h
  have hother : ∀ {t}, t ≠ 1 → init.threads t = newThread (t == 2) := fun ht => if_neg ht
  constructor
  case queueNodup => exact nodup_nil
  case sleepNodup => exact nodup_nil
  case queued => nofun
  case asleep => nofun
  case runs =>
    intro ci t h
    rw [(hrun h).2]
    rfl
  case runInj => exact fun h₁ h₂ => (hrun h₁).1.trans (hrun h₂).1.symm
  case idleSlot =>
    intro ci t h
    rw [(hidle h).2]
    rfl
  case idleInj => exact fun h₁ h₂ => (hidle h₁).1.trans (hidle h₂).1.symm
  case idleHome =>
    intro ci t h hid
    rw [(hrun h).2] at hid
    cases hid
  case hasIdle =>
    intro ci t h
    rw [(hrun h).1]
    exact ⟨2, rfl⟩
  case idleState =>
    intro t hid
    by_cases ht : t = 1
    · rw [ht] at hid
      cases hid
    · rw [hother ht]
      exact .inl rfl
  case located =>
    intro t ht hid
    rcases mem_cons.1 ht with rfl | ht
    · exact ⟨nofun, nofun, fun _ => ⟨0, rfl⟩⟩
    · rw [mem_singleton.1 ht] at hid
      cases hid
  case deadState => nofun
  case bounds =>
    refine ⟨nofun, fun t ht => ?_, fun ci t h => ?_⟩
    · rcases mem_cons.1 ht with rfl | ht
      · decide
      · rw [mem_singleton.1 ht]
        decide
    · rw [(hidle h).2]
      decide
  case unborn =>
    intro t ht
    have hlt : 3 ≤ t := ht
    rw [hother (ne_of_gt (lt_of_lt_of_le (by decide) hlt))]
    rfl

/-- Where a thread can be. -/
inductive Place where
  | running (ci : Cpu)
  | runQueue
  | sleepers
  | blocked
  | ended
  deriving DecidableEq

def At (s : Sched) (t : Tid) : Place → Prop
  | .running ci => s.running ci = some t
  | .runQueue => t ∈ s.runQueue
  | .sleepers => t ∈ s.sleepers
  | .blocked => (s.threads t).state = .blocked
  | .ended => (s.threads t).state = .dying ∨ (s.threads t).state = .dead

theorem Inv.state_of_at (h : s.Inv) {pl : Place} (hat : s.At t pl) : match pl with
    | .running _ => (s.threads t).state = .running
    | .runQueue => (s.threads t).state = .ready
    | .sleepers => (s.threads t).state = .sleeping
    | .blocked => (s.threads t).state = .blocked
    | .ended => (s.threads t).state = .dying ∨ (s.threads t).state = .dead := by
  cases pl with
  | running ci => exact h.runs hat
  | runQueue => exact (h.queued t hat).1
  | sleepers => exact h.asleep t hat
  | blocked | ended => exact hat

theorem Inv.place_unique (h : s.Inv) {p q : Place} (hp : s.At t p) (hq : s.At t q) : p = q := by
  have hsp := h.state_of_at hp
  have hsq := h.state_of_at hq
  cases p <;> cases q <;> simp_all
  case running.running ci cj => exact h.runInj hp hq

theorem Inv.place_exists (h : s.Inv) (ht : t ∈ s.all) (hidle : (s.threads t).isIdle = false) :
    ∃ pl, s.At t pl := by
  obtain ⟨hready, hsleep, hrun⟩ := h.located t ht hidle
  cases hst : (s.threads t).state with
  | ready => exact ⟨.runQueue, hready hst⟩
  | running =>
    obtain ⟨ci, hci⟩ := hrun hst
    exact ⟨.running ci, hci⟩
  | sleeping => exact ⟨.sleepers, hsleep hst⟩
  | blocked => exact ⟨.blocked, hst⟩
  | dying => exact ⟨.ended, .inl hst⟩
  | dead => exact ⟨.ended, .inr hst⟩

/-- In every state of every run, in the middle of a switch too, each live
thread that is not idle is in exactly one place, with the state that goes with
it and once where the place is a list; and no thread is on two CPUs or twice
in the queue. -/
theorem one_place (steps : List Step) :
    (∀ t ∈ (init.run steps).all, ((init.run steps).threads t).isIdle = false →
      (∃! pl, (init.run steps).At t pl) ∧ (∀ ci, (init.run steps).running ci = some t →
        ((init.run steps).threads t).state = .running) ∧
      (t ∈ (init.run steps).runQueue → ((init.run steps).threads t).state = .ready ∧
        (init.run steps).runQueue.count t = 1) ∧
      (t ∈ (init.run steps).sleepers → ((init.run steps).threads t).state = .sleeping ∧
        (init.run steps).sleepers.count t = 1)) ∧
    (∀ t ci cj, (init.run steps).running ci = some t → (init.run steps).running cj = some t →
      ci = cj) ∧ (init.run steps).runQueue.Nodup := by
  have h := inv_init.run steps
  refine ⟨fun t ht hidle => ⟨?_, fun ci hci => h.runs hci, fun hq => ?_, fun hs => ?_⟩,
    fun t ci cj => h.runInj, h.queueNodup⟩
  · obtain ⟨pl, hpl⟩ := h.place_exists ht hidle
    exact ⟨pl, hpl, fun q hq => h.place_unique hq hpl⟩
  · exact ⟨(h.queued t hq).1, count_eq_one_of_mem h.queueNodup hq⟩
  · exact ⟨h.asleep t hs, count_eq_one_of_mem h.sleepNodup hs⟩

/-- In every run each CPU at work has an idle thread, and an idle thread is nowhere but
on its own CPU. -/
theorem idle_threads_at_home (steps : List Step) : let s := init.run steps
    (∀ ci t, s.running ci = some t → ∃ i, s.idle ci = some i) ∧
    ∀ t pl, (s.threads t).isIdle = true → s.At t pl → ∃! ci, pl = .running ci ∧ s.idle ci = some t := by
  have h := inv_init.run steps
  refine ⟨fun _ _ => h.hasIdle, fun t pl ht hpl => ?_⟩
  have hst := h.state_of_at hpl
  cases pl with
  | running ci => exact ⟨ci, ⟨rfl, h.idleHome hpl ht⟩, fun _ hc => h.idleInj hc.2 (h.idleHome hpl ht)⟩
  | runQueue => cases ht.symm.trans (h.queued t hpl).2
  | sleepers | blocked | ended => rcases h.idleState t ht with hi | hi <;> simp [hi] at hst

/-- Nobody is out of budget. -/
def inBudget : PickLooks := { normal := fun _ => false, any := fun _ => false }

/-- A second CPU comes up and gets one of two new threads; the boot thread
joins that one, which ends in the middle of a switch of the second CPU. -/
def sampleSteps : List Step :=
  [.act (.apIdleLoop 1), .act (.spawn 0 0 none), .act (.spawn 0 0 none),
    .act (.onReschedIpi { work := fun _ => false, normal := fun _ => false, pick := inBudget } 1),
    .finish, .act (.join inBudget 0 4), .finish, .act (.exit inBudget 1)]

theorem one_place_sample :
    (∃! pl, (init.run sampleSteps).At 1 pl) ∧ (∃! pl, (init.run sampleSteps).At 4 pl) ∧
      (init.run sampleSteps).At 1 .blocked ∧ (init.run sampleSteps).At 4 .ended ∧
      (init.run sampleSteps).running 0 = some 5 :=
  ⟨((one_place sampleSteps).1 1 (by decide) (by decide)).1,
    ((one_place sampleSteps).1 4 (by decide) (by decide)).1,
    show ((init.run sampleSteps).threads 1).state = .blocked by decide, .inl (by decide), by decide⟩

end Sched
end NexoOS.Kernel.RunQueue
