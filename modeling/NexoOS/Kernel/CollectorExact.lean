import NexoOS.Kernel.Collector
import NexoOS.Lib.Marking

/-!
# What one undisturbed round of the collector closes

`collect_marked` from its call to its return, with no other step in between and
no window open: it returns, and the open ends it closed are those that cannot
be reached from a pinned end or the table of a live process.
-/

namespace NexoOS.Kernel.Collector

open List Function

namespace State

variable {s t u : State} {i : Nat} {pc : Pc} {e : End}

/-- Where the marking starts: a pinned end, or one held by a live process. -/
def Rooted (s : State) (e : End) : Prop := s.pinned e = true ∨ ∃ p, s.InTable p e

/-- Reachable from there through the queued messages. -/
def Live (s : State) : End → Prop := Reach s.Rooted s.Queued

/-- The end exists, that is, something refers to it, and was not closed. -/
def IsOpen (s : State) (e : End) : Prop :=
  e ∈ s.registered ∧ s.Referenced e ∧ s.closedByMe e = false

/-- Handles and pins are those of the channels that were created. -/
structure Population (s : State) : Prop where
  pinned : ∀ e, s.pinned e = true → e ∈ s.registered
  tables : ∀ p e, s.InTable p e → e ∈ s.registered
  queues : ∀ x y, x ∈ s.registered → s.Queued x y → y ∈ s.registered

/-! ## Steps of one collector -/

def atPc (s : State) (i : Nat) (pc : Pc) : State := { s with cols := s.cols.set i pc }

/-- Some number of steps of collector `i`, and no other step. -/
def Leads (i : Nat) (s t : State) : Prop := ∃ n, (fun s : State => s.collect i)^[n] s = t

theorem Leads.refl (i : Nat) (s : State) : Leads i s s := ⟨0, rfl⟩

theorem Leads.trans (h : Leads i s t) (h' : Leads i t u) : Leads i s u := by
  obtain ⟨n, rfl⟩ := h
  obtain ⟨m, rfl⟩ := h'
  exact ⟨m + n, iterate_add_apply ..⟩

theorem Leads.step (h : Leads i (s.collect i) t) : Leads i s t := by
  obtain ⟨n, rfl⟩ := h
  exact ⟨n + 1, rfl⟩

/-- The collector reads the list of collectors only in the registry. -/
theorem next_atPc (h : ∀ tries gen0, pc ≠ .snapshot tries gen0) (pc' : Pc) :
    (s.atPc i pc').next pc = s.next pc := by
  cases pc with
  | snapshot tries gen0 => exact absurd rfl (h tries gen0)
  | pins r rest | closing r rest => cases rest <;> rfl
  | tables r pids => cases pids <;> rfl
  | idle | waiting | sawZero | trace | checkGen | closingEnd => rfl

theorem write_atPc (pc pc' : Pc) : (s.atPc i pc').write pc = (s.write pc).atPc i pc' := by
  cases pc with
  | closing r rest =>
    cases rest with
    | nil => rfl
    | cons e rest =>
      show (if e ∈ r.marked then _ else _) = atPc (if e ∈ r.marked then _ else _) i pc'
      split <;> rfl
  | _ => rfl

theorem write_cols (pc : Pc) : (s.write pc).cols = s.cols := by
  cases pc with
  | closing r rest =>
    cases rest with
    | nil => rfl
    | cons e rest =>
      show State.cols (if e ∈ r.marked then _ else _) = _
      split <;> rfl
  | _ => rfl

theorem collect_atPc (hi : i < s.cols.length) (h : ∀ tries gen0, pc ≠ .snapshot tries gen0) :
    (s.atPc i pc).collect i = (s.write pc).atPc i (s.next pc) := by
  have hpc : (s.atPc i pc).cols[i]? = some pc := by
    show (s.cols.set i pc)[i]? = _
    rw [List.getElem?_set_self hi]
  rw [collect, hpc]
  dsimp only
  rw [write_atPc, next_atPc h]
  simp only [atPc, write_cols, set_set]

theorem leads_next (hi : i < s.cols.length) (h : ∀ tries gen0, pc ≠ .snapshot tries gen0)
    (ht : Leads i ((s.write pc).atPc i (s.next pc)) t) : Leads i (s.atPc i pc) t := by
  apply Leads.step
  rwa [collect_atPc hi h]

/-! ## Marking -/

end State

/-- The marks of a round. -/
def Round.marks (r : Round) : Marks End := { marked := r.marked, work := r.work }

theorem Round.root_eq (r : Round) (e : End) : r.root e =
      { r with marked := (r.marks.visit e).marked, work := (r.marks.visit e).work } := by
  by_cases he : e ∈ r.marked
  · rw [Round.root, if_pos he, Marks.visit_of_mem (m := r.marks) he]
    rfl
  · rw [Round.root, if_neg he, Marks.visit_of_not_mem (m := r.marks) he]
    rfl

theorem Round.marks_rootAll (r : Round) (es : List End) :
    (r.rootAll es).marks = r.marks.visitAll es ∧ (r.rootAll es).ends = r.ends ∧
      (r.rootAll es).gen0 = r.gen0 ∧ (r.rootAll es).tries = r.tries := by
  induction es generalizing r with
  | nil => exact ⟨rfl, rfl, rfl, rfl⟩
  | cons e es ih =>
    have h := ih (r.root e)
    rw [show (r.root e).marks = r.marks.visit e by rw [Round.root_eq]; rfl] at h
    refine ⟨h.1, h.2.1.trans ?_, h.2.2.1.trans ?_, h.2.2.2.trans ?_⟩ <;> rw [Round.root_eq]

namespace State

variable {s t u : State} {i : Nat} {pc : Pc} {e : End}

/-- The ends that the pins and the tables give, in the order of the scan. -/
def pinnedAmong (s : State) (es : List End) : List End := es.filter fun e => s.pinned e

def tableEnds (s : State) (pids : List Nat) : List End :=
  pids.flatMap fun p => (s.procs[p]?.map (·.handles)).getD []

theorem leads_pins (hi : i < s.cols.length) (r : Round) (rest : List End) :
    Leads i (s.atPc i (.pins r rest)) (s.atPc i (.pins (r.rootAll (s.pinnedAmong rest)) [])) := by
  induction rest generalizing r with
  | nil => exact .refl i _
  | cons e rest ih =>
    refine leads_next hi (fun _ _ => nofun) ?_
    show Leads i (s.atPc i (.pins (if s.pinned e then r.root e else r) rest)) _
    have hrest := ih (if s.pinned e then r.root e else r)
    cases hp : s.pinned e with
    | true =>
      rw [hp] at hrest
      rwa [pinnedAmong, filter_cons_of_pos hp]
    | false =>
      rw [hp] at hrest
      rwa [pinnedAmong, filter_cons_of_neg (by rw [hp]; exact Bool.false_ne_true)]

theorem leads_tables (hi : i < s.cols.length) (r : Round) (pids : List Nat) :
    Leads i (s.atPc i (.tables r pids)) (s.atPc i (.tables (r.rootAll (s.tableEnds pids)) [])) := by
  induction pids generalizing r with
  | nil => exact .refl i _
  | cons p pids ih =>
    refine leads_next hi (fun _ _ => nofun) ?_
    have hsplit : r.rootAll (s.tableEnds (p :: pids)) =
        (r.rootAll ((s.procs[p]?.map (·.handles)).getD [])).rootAll (s.tableEnds pids) := by
      rw [tableEnds, flatMap_cons, Round.rootAll, foldl_append]
      rfl
    rw [hsplit]
    exact ih _

theorem leads_trace (hi : i < s.cols.length) (hpop : s.Population) {r : Round}
    (hr : r.marks.Traces s.Rooted s.Queued) (hreg : ∀ e ∈ r.marked, e ∈ s.registered) :
    ∃ r' : Round, Leads i (s.atPc i (.trace r)) (s.atPc i (.trace r')) ∧ r'.work = [] ∧
      r'.marks.Traces s.Rooted s.Queued ∧ r'.ends = r.ends ∧ r'.gen0 = r.gen0 := by
  generalize hk : Marks.left s.registered r.marks = k
  induction k using Nat.strongRecOn generalizing r with
  | ind k ih =>
    rcases eq_nil_or_concat r.work with hwork | ⟨work, last, hwork⟩
    · exact ⟨r, .refl i _, hwork, hr, rfl, rfl⟩
    have hmarks : ({ r with work }.rootAll (s.queue last).flatten).marks =
        r.marks.turn work (s.queue last).flatten := (Round.marks_rootAll _ _).1
    have hlast : last ∈ s.registered := by
      apply hreg
      apply hr.work
      show last ∈ r.work
      simp [hwork]
    have hqueued : ∀ y, y ∈ (s.queue last).flatten ↔ s.Queued last y := by
      intro y
      exact mem_flatten
    have hsmaller : Marks.left s.registered
        ({ r with work }.rootAll (s.queue last).flatten).marks < k := by
      rw [hmarks, ← hk]
      refine Marks.left_turn_lt ?_ ?_
      · show work.length < r.work.length
        simp [hwork]
      · intro y hy
        exact hpop.queues last y hlast ((hqueued y).1 hy)
    have htraces : ({ r with work }.rootAll (s.queue last).flatten).marks.Traces
        s.Rooted s.Queued := by
      rw [hmarks]
      exact hr.turn (by rw [← concat_eq_append]; exact hwork) hqueued
    have hreg' : ∀ e ∈ ({ r with work }.rootAll (s.queue last).flatten).marked,
        e ∈ s.registered := by
      intro e he
      have he' : e ∈ (r.marks.turn work (s.queue last).flatten).marked := by
        rw [← hmarks]
        exact he
      rcases Marks.mem_marked_visitAll.1 he' with he' | he'
      · exact hreg e he'
      · exact hpop.queues last e hlast ((hqueued e).1 he')
    obtain ⟨r', hleads, hdone, htr, hends, hgen⟩ := ih _ hsmaller htraces hreg' rfl
    refine ⟨r', leads_next hi (fun _ _ => nofun) ?_, hdone, htr, ?_, ?_⟩
    · show Leads i (s.atPc i (s.next (.trace r))) _
      have hnext : s.next (.trace r) = .trace ({ r with work }.rootAll (s.queue last).flatten) := by
        rw [next, hwork]
        simp
      rwa [hnext]
    · exact hends.trans (Round.marks_rootAll _ _).2.1
    · exact hgen.trans (Round.marks_rootAll _ _).2.2.1

/-! ## Closing -/

variable (marked : List End)

/-- The collector closes one end that is not marked. -/
def closeOne (s : State) (e : End) : State :=
  if e ∈ marked then s
  else
    let s' := { s with closedByMe := update s.closedByMe e true }
    if s.closedByMe e then s' else s'.close e

theorem closeOne_cols (s : State) (e : End) : (closeOne marked s e).cols = s.cols := by
  unfold closeOne
  split
  · rfl
  · split <;> rfl

theorem leads_closing {r : Round} (hi : i < s.cols.length) (rest : List End) :
    Leads i (s.atPc i (.closing r rest)) ((rest.foldl (closeOne r.marked) s).atPc i .idle) := by
  induction rest generalizing s with
  | nil =>
    refine leads_next hi (fun _ _ => nofun) ?_
    exact .refl i _
  | cons e rest ih =>
    have hrest := ih (s := closeOne r.marked s e) (by rwa [closeOne_cols])
    refine leads_next hi (fun _ _ => nofun) ?_
    show Leads i (atPc (if e ∈ r.marked then s else _) i
      (if e ∈ r.marked ∨ s.closedByMe e = true then _ else _)) _
    rw [foldl_cons]
    by_cases hm : e ∈ r.marked
    · have hone : closeOne r.marked s e = s := if_pos hm
      rw [hone] at hrest ⊢
      rw [if_pos hm, if_pos (.inl hm)]
      exact hrest
    · rw [if_neg hm]
      by_cases hc : s.closedByMe e = true
      · have hone : closeOne r.marked s e =
            { s with closedByMe := update s.closedByMe e true } := by
          rw [closeOne, if_neg hm, if_pos hc]
        rw [hone] at hrest ⊢
        rw [if_pos (.inr hc)]
        exact hrest
      · have hone : closeOne r.marked s e =
            { s with closedByMe := update s.closedByMe e true }.close e := by
          rw [closeOne, if_neg hm, if_neg hc]
        rw [hone] at hrest ⊢
        rw [if_neg (not_or.2 ⟨hm, hc⟩)]
        exact leads_next hi (fun _ _ => nofun) hrest

/-- What the scan over `rest` did to the state. -/
structure Closed (marked rest : List End) (s t : State) : Prop where
  procs : t.procs = s.procs
  pinned : t.pinned = s.pinned
  made : t.made = s.made
  cols : t.cols = s.cols
  closedByMe : ∀ e, t.closedByMe e = true ↔ s.closedByMe e = true ∨ (e ∈ rest ∧ e ∉ marked)
  closed : ∀ e, t.closed e = true ↔
    s.closed e = true ∨ (e ∈ rest ∧ e ∉ marked ∧ s.closedByMe e = false)
  emptied : ∀ e, e ∈ rest → e ∉ marked → s.closedByMe e = false → t.queue e = []
  kept : ∀ e, e ∉ rest ∨ e ∈ marked ∨ s.closedByMe e = true → t.queue e = s.queue e

theorem Closed.refl (s : State) : Closed marked [] s s := by
  constructor <;> simp

theorem closed_closeOne (s : State) (e : End) : Closed marked [e] s (closeOne marked s e) := by
  unfold closeOne
  split
  · rename_i hm
    have hnot : ∀ x, x ∈ [e] → x ∉ marked → False := by
      intro x hx hxm
      rw [mem_singleton.1 hx] at hxm
      exact hxm hm
    constructor <;> first | rfl | (intro x; have := hnot x; tauto)
  · rename_i hm
    have hby : ∀ x, update s.closedByMe e true x = true ↔
        s.closedByMe x = true ∨ (x ∈ [e] ∧ x ∉ marked) := by
      intro x
      by_cases hx : x = e
      · simp [hx, hm]
      · simp [hx]
    split
    · rename_i hc
      have hnot : ∀ x, x ∈ [e] → s.closedByMe x = false → False := by
        intro x hx hxc
        rw [mem_singleton.1 hx, hc] at hxc
        cases hxc
      constructor
      case closedByMe => exact hby
      all_goals first | rfl | (intro x; have := hnot x; tauto)
    · rename_i hc
      rw [Bool.not_eq_true] at hc
      constructor
      case closedByMe => exact hby
      case closed =>
        intro x
        by_cases hx : x = e
        · simp [close, hx, hm, hc]
        · simp [close, hx]
      case emptied =>
        intro x hx _ _
        simp [close, mem_singleton.1 hx]
      case kept =>
        intro x hx
        by_cases hxe : x = e
        · subst hxe
          simp [hm, hc] at hx
        · simp [close, hxe]
      all_goals rfl

theorem Closed.trans {marked rest : List End} (h : Closed marked [e] s t)
    (h' : Closed marked rest t u) : Closed marked (e :: rest) s u := by
  have hby : ∀ x, t.closedByMe x = false ↔ s.closedByMe x = false ∧ ¬ (x ∈ [e] ∧ x ∉ marked) := by
    intro x
    rw [← Bool.not_eq_true, h.closedByMe, not_or, Bool.not_eq_true]
  constructor
  case procs => exact h'.procs.trans h.procs
  case pinned => exact h'.pinned.trans h.pinned
  case made => exact h'.made.trans h.made
  case cols => exact h'.cols.trans h.cols
  case closedByMe =>
    intro x
    rw [h'.closedByMe, h.closedByMe, mem_singleton, mem_cons]
    tauto
  case closed =>
    intro x
    rw [h'.closed, h.closed, hby, mem_singleton, mem_cons]
    tauto
  case emptied =>
    intro x hx hm hc
    by_cases hxe : x ∈ [e]
    · have ht : t.closedByMe x = true := (h.closedByMe x).2 (.inr ⟨hxe, hm⟩)
      rw [h'.kept x (.inr (.inr ht))]
      exact h.emptied x hxe hm hc
    have hxr : x ∈ rest := by
      rcases mem_cons.1 hx with rfl | hx
      · exact absurd (mem_singleton_self x) hxe
      · exact hx
    exact h'.emptied x hxr hm ((hby x).2 ⟨hc, fun hn => hxe hn.1⟩)
  case kept =>
    intro x hx
    have hs : x ∉ [e] ∨ x ∈ marked ∨ s.closedByMe x = true := by
      rw [mem_cons] at hx
      rw [mem_singleton]
      tauto
    rw [← h.kept x hs]
    apply h'.kept
    rw [h.closedByMe, mem_singleton]
    rw [mem_cons] at hx
    tauto

theorem closed_foldl (marked rest : List End) (s : State) :
    Closed marked rest s (rest.foldl (closeOne marked) s) := by
  induction rest generalizing s with
  | nil => exact .refl marked s
  | cons e rest ih => exact (closed_closeOne marked s e).trans (ih _)

/-! ## The whole round -/

theorem mem_tableEnds (s : State) (e : End) :
    e ∈ s.tableEnds ((List.range s.procs.length).filter fun p => s.procs[p]?.any (·.live)) ↔
      ∃ p, s.InTable p e := by
  simp only [tableEnds, mem_flatMap, mem_filter, mem_range, InTable]
  constructor
  · rintro ⟨p, ⟨hp, hlive⟩, he⟩
    rw [List.getElem?_eq_getElem hp] at hlive he
    exact ⟨p, _, List.getElem?_eq_getElem hp, hlive, he⟩
  rintro ⟨p, pr, hpr, hlive, he⟩
  obtain ⟨hp, -⟩ := List.getElem?_eq_some_iff.1 hpr
  refine ⟨p, ⟨hp, ?_⟩, ?_⟩
  · rw [hpr]
    exact hlive
  · rw [hpr]
    exact he

/-- The ends that the copy of the registry holds. -/
def registry (s : State) : List End := s.registered.filter fun e => s.Referenced e

theorem mem_registry : e ∈ s.registry ↔ e ∈ s.registered ∧ s.Referenced e := by
  rw [registry, mem_filter]
  exact and_congr_right fun _ => decide_eq_true_iff

theorem rooted_iff (hpop : s.Population) (e : End) : e ∈ s.pinnedAmong s.registry ++
        s.tableEnds ((List.range s.procs.length).filter fun p => s.procs[p]?.any (·.live)) ↔
      s.Rooted e := by
  rw [mem_append, mem_tableEnds, Rooted]
  refine or_congr_left ⟨fun he => (mem_filter.1 he).2, fun he => ?_⟩
  refine mem_filter.2 ⟨mem_registry.2 ⟨hpop.pinned e he, ?_⟩, he⟩
  exact .inr (.inl he)

theorem Population.live (hpop : s.Population) (h : s.Live e) : e ∈ s.registered := by
  refine Reach.mem_of_closed (P := fun e => e ∈ s.registered) ?_ hpop.queues h
  rintro x (hx | ⟨p, hx⟩)
  · exact hpop.pinned x hx
  · exact hpop.tables p x hx

theorem leads_round (hi : i < s.cols.length) (hpop : s.Population) (tries : Nat) {gen0 : Nat}
    (hgen : s.gen % 2 ^ 64 = gen0 % 2 ^ 64) (hquiet : s.inflight = 0) :
    ∃ marked, (∀ e, e ∈ marked ↔ s.Live e) ∧ Leads i
        (s.atPc i (.pins { tries, gen0, ends := s.registry, marked := [], work := [] } s.registry))
        ((s.registry.foldl (closeOne marked) s).atPc i .idle) := by
  let r₀ : Round := { tries, gen0, ends := s.registry, marked := [], work := [] }
  let r₁ := r₀.rootAll (s.pinnedAmong s.registry)
  let pids := (List.range s.procs.length).filter fun p => s.procs[p]?.any (·.live)
  let r₂ := r₁.rootAll (s.tableEnds pids)
  have hmarks : r₂.marks = Marks.visitAll { marked := [], work := [] }
      (s.pinnedAmong s.registry ++ s.tableEnds pids) := by
    rw [Marks.visitAll, foldl_append, (Round.marks_rootAll r₁ _).1,
      (Round.marks_rootAll r₀ _).1]
    rfl
  have hends : r₂.ends = s.registry :=
    (Round.marks_rootAll r₁ _).2.1.trans (Round.marks_rootAll r₀ _).2.1
  have hgen₂ : r₂.gen0 = gen0 :=
    (Round.marks_rootAll r₁ _).2.2.1.trans (Round.marks_rootAll r₀ _).2.2.1
  have htraces : r₂.marks.Traces s.Rooted s.Queued := by
    rw [hmarks]
    exact Marks.traces_roots (rooted_iff hpop)
  have hreg : ∀ e ∈ r₂.marked, e ∈ s.registered := fun e he => hpop.live (htraces.sound e he)
  obtain ⟨r₃, htrace, hwork, htr, hends₃, hgen₃⟩ := leads_trace hi hpop htraces hreg
  refine ⟨r₃.marked, fun e => htr.exact hwork, ?_⟩
  refine (leads_pins hi r₀ s.registry).trans (leads_next hi (fun _ _ h => by cases h) ?_)
  refine (leads_tables hi r₁ pids).trans (leads_next hi (fun _ _ h => by cases h) ?_)
  refine htrace.trans (leads_next hi (fun _ _ h => by cases h) ?_)
  -- nothing was in flight, so both checks pass
  have hcheck : s.next (.trace r₃) = .checkGen r₃ := by
    rw [next, hwork]
    exact if_pos hquiet
  have hclosing : s.next (.checkGen r₃) = .closing r₃ s.registry := by
    rw [next, hgen₃, hgen₂, if_pos hgen, hends₃, hends]
  show Leads i (s.atPc i (s.next (.trace r₃))) _
  rw [hcheck]
  refine leads_next hi (fun _ _ h => by cases h) ?_
  show Leads i (s.atPc i (s.next (.checkGen r₃))) _
  rw [hclosing]
  exact leads_closing hi s.registry

theorem run_replicate (s : State) (i n : Nat) :
    s.run (List.replicate n (.collect i)) = (fun s : State => s.collect i)^[n] s := by
  induction n generalizing s with
  | zero => rfl
  | succ n ih => exact ih (s.collect i)

/-- What is reachable stays referenced when only unreachable ends are closed. -/
theorem referenced_of_live (hpop : s.Population) (hprocs : t.procs = s.procs)
    (hpinned : t.pinned = s.pinned) (hmade : t.made = s.made)
    (hkept : ∀ x, s.Live x → t.queue x = s.queue x) (he : s.Live e) : t.Referenced e := by
  cases he with
  | root hr =>
    rcases hr with hp | ⟨p, pr, hpr, -, hin⟩
    · exact .inr (.inl (by rw [hpinned]; exact hp))
    · exact .inl ⟨pr, by rw [hprocs]; exact mem_of_getElem? hpr, hin⟩
  | @step x _ hx hq =>
    obtain ⟨m, hm, hin⟩ := hq
    refine .inr (.inr (.inr (.inl ⟨x, ?_, m, ?_, hin⟩)))
    · rw [registered, hmade]
      exact hpop.live hx
    · rw [hkept x hx]
      exact hm

/-- With no window open, `collect_marked` returns, and if no other step comes
between, it has closed the open ends that are not reachable from a pinned end
or the table of a live process, and no others. The ends that are reachable are
still referred to, so that no drop closes one of them afterwards. -/
theorem collect_marked_exact {tries gen0 : Nat} (hpop : s.Population)
    (hpc : s.cols[i]? = some (.snapshot tries gen0)) (hgen : s.gen % 2 ^ 64 = gen0 % 2 ^ 64)
    (hquiet : s.inflight = 0) : ∃ n, (s.run (List.replicate n (.collect i))).cols[i]? = some .idle ∧
      (∀ e, (s.run (List.replicate n (.collect i))).closed e = true ↔
        s.closed e = true ∨ (s.IsOpen e ∧ ¬ s.Live e)) ∧
      ∀ e, s.Live e → (s.run (List.replicate n (.collect i))).Referenced e := by
  obtain ⟨hi, -⟩ := List.getElem?_eq_some_iff.1 hpc
  have hfirst : s.collect i = s.atPc i (s.next (.snapshot tries gen0)) := by
    rw [collect, hpc]
    rfl
  obtain ⟨marked, hmarked, t, ⟨n, hn⟩, hclosed⟩ : ∃ marked, (∀ e, e ∈ marked ↔ s.Live e) ∧
      ∃ t, Leads i s (t.atPc i .idle) ∧ Closed marked s.registry s t := by
    cases hreg : s.registry with
    | nil =>
      have hnone : ∀ e, ¬ s.Live e := by
        intro e he
        have hmem : e ∈ s.registry := mem_registry.2
          ⟨hpop.live he, referenced_of_live hpop rfl rfl rfl (fun _ _ => rfl) he⟩
        rw [hreg] at hmem
        exact not_mem_nil hmem
      refine ⟨[], fun e => ?_, s, .step ?_, .refl [] s⟩
      · exact ⟨fun he => absurd he not_mem_nil, fun he => absurd he (hnone e)⟩
      have hnext : s.next (.snapshot tries gen0) = .idle := by
        rw [registry] at hreg
        rw [next, hreg]
      rw [hfirst, hnext]
      exact .refl i _
    | cons x xs =>
      obtain ⟨marked, hmarked, hleads⟩ := leads_round hi hpop tries hgen hquiet
      rw [← hreg]
      refine ⟨marked, hmarked, _, .step ?_, closed_foldl marked s.registry s⟩
      have hnext : s.next (.snapshot tries gen0) =
          .pins { tries, gen0, ends := s.registry, marked := [], work := [] } s.registry := by
        rw [hreg]
        rw [registry] at hreg
        rw [next, hreg]
      rw [hfirst, hnext]
      exact hleads
  have hkept : ∀ x, s.Live x → t.queue x = s.queue x :=
    fun x hx => hclosed.kept x (.inr (.inl ((hmarked x).2 hx)))
  have hrun : s.run (List.replicate n (.collect i)) = t.atPc i .idle := by
    rw [run_replicate]
    exact hn
  refine ⟨n, ?_, fun e => ?_, fun e he => ?_⟩
  · rw [hrun]
    show (t.cols.set i .idle)[i]? = some .idle
    rw [List.getElem?_set_self (by rwa [hclosed.cols])]
  · rw [hrun]
    show t.closed e = true ↔ _
    rw [hclosed.closed, mem_registry, hmarked, IsOpen]
    refine or_congr_right ⟨?_, ?_⟩
    · rintro ⟨⟨hreg, href⟩, hlive, hby⟩
      exact ⟨⟨hreg, href, hby⟩, hlive⟩
    · rintro ⟨⟨hreg, href, hby⟩, hlive⟩
      exact ⟨⟨hreg, href⟩, hlive, hby⟩
  · rw [hrun]
    exact referenced_of_live hpop hclosed.procs hclosed.pinned hclosed.made hkept he

/-- Two channels. Both ends of channel `0` are queued at one of them, and
nothing else refers to them; one end of channel `1` is in the table of a live
process and has the other one in its queue. -/
def cycle : State where
  procs := [{ live := true, handles := [(1, false)] }]
  pinned := fun _ => false
  queue := fun e =>
    if e = (0, true) then [[(0, true), (0, false)]]
    else if e = (1, false) then [[(1, true)]] else []
  closed := fun _ => false
  closedByMe := fun _ => false
  made := 2
  gen := 0
  inflight := 0
  threads := []
  cols := [.snapshot 0 0]

theorem cycle_queued {x y : End} (h : cycle.Queued x y) :
    (x = (0, true) ∧ y.1 = 0) ∨ (x = (1, false) ∧ y = (1, true)) := by
  obtain ⟨m, hm, hy⟩ := h
  simp only [cycle] at hm
  split at hm
  · rw [mem_singleton.1 hm] at hy
    left
    refine ⟨‹_›, ?_⟩
    simp only [mem_cons, not_mem_nil, or_false] at hy
    rcases hy with rfl | rfl <;> rfl
  · split at hm
    · rw [mem_singleton.1 hm] at hy
      exact .inr ⟨‹_›, mem_singleton.1 hy⟩
    · exact absurd hm not_mem_nil

theorem cycle_inTable {p : Nat} (h : cycle.InTable p e) : e = (1, false) := by
  obtain ⟨pr, hpr, -, he⟩ := h
  rw [mem_singleton.1 (mem_of_getElem? hpr)] at he
  exact mem_singleton.1 he

theorem cycle_population : cycle.Population where
  pinned := fun _ h => nomatch h
  tables := by
    intro p e h
    rw [cycle_inTable h]
    decide
  queues := by
    intro x y hx h
    rcases cycle_queued h with ⟨-, hy⟩ | ⟨-, rfl⟩
    · obtain ⟨c, side⟩ := y
      obtain rfl : c = 0 := hy
      cases side <;> decide
    · decide

theorem cycle_not_live : ¬ cycle.Live (0, true) := by
  intro h
  refine absurd rfl (Reach.mem_of_closed (P := fun e : End => e.1 ≠ 0) ?_ ?_ h)
  · rintro x (hx | ⟨p, hx⟩)
    · cases hx
    · rw [cycle_inTable hx]
      exact Nat.one_ne_zero
  · intro x y hx hxy
    rcases cycle_queued hxy with ⟨rfl, -⟩ | ⟨-, rfl⟩
    · exact absurd rfl hx
    · exact Nat.one_ne_zero

theorem cycle_live : cycle.Live (1, true) := by
  refine .step (.root (x := (1, false)) (.inr ⟨0, _, rfl, rfl, mem_singleton_self _⟩)) ?_
  exact ⟨[(1, true)], mem_singleton_self _, mem_singleton_self _⟩

theorem collect_marked_exact_cycle :
    ∃ n, (cycle.run (List.replicate n (.collect 0))).cols[0]? = some .idle ∧
      (cycle.run (List.replicate n (.collect 0))).closed (0, true) = true ∧
      ¬ (cycle.run (List.replicate n (.collect 0))).closed (1, true) = true := by
  obtain ⟨n, hidle, hclosed, -⟩ :=
    collect_marked_exact (s := cycle) (i := 0) cycle_population rfl rfl rfl
  refine ⟨n, hidle, (hclosed _).2 (.inr ⟨⟨?_, ?_, rfl⟩, cycle_not_live⟩), fun h => ?_⟩
  · decide
  · decide
  · rcases (hclosed _).1 h with h | ⟨-, h⟩
    · cases h
    · exact h cycle_live

end State
end NexoOS.Kernel.Collector
