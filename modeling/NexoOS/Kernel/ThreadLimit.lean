import NexoOS.Lib.Tally

/-!
# The threads of a process

`create_user_thread` counts the live threads in the list of the process, gives
the list back, maps a stack, starts the thread and enters it in the list.
`thread_exit_current` takes a thread out of the list, and the scheduler ends it
later. The frames of a stack belong to the address space and go with it.
-/

namespace NexoOS.Kernel.ThreadLimit

open List

def threadsMaxPerProcess : Nat := 64

/-- The pages of `USER_STACK_SIZE`. -/
def stackPages : Nat := 64

/-- A call of `create_user_thread` after the check: the pages mapped so far, or
the thread that runs and is not in the list yet. -/
inductive Creation
  | mapping (pages : Nat)
  | spawned (tid : Nat)
  deriving Repr, DecidableEq

/-- Whether the thread is still to be started. -/
def Creation.isMapping : Creation → Nat
  | .mapping _ => 1
  | .spawned _ => 0

/-- The frames a creation can still take. -/
def Creation.toTake : Creation → Nat
  | .mapping n => 4 * (stackPages - n)
  | .spawned _ => 0

/-- The process: its list of threads, and the scheduler's threads of it that are
not finished, of which some are `exiting`. `frames` are those its address space
owns, and `created` counts the checks passed. -/
structure Process where
  threads : List Nat
  unfinished : List Nat
  exiting : List Nat
  creations : List Creation
  nextTid : Nat
  frames : Nat
  created : Nat
  deriving Repr, DecidableEq

inductive Event
  | check
  /-- Creation `k` maps a page, taking a frame for it and up to three for tables;
  with `fails` there was no frame for one of them. -/
  | mapPage (k : Nat) (tables : Fin 4) (fails : Bool)
  | spawn (k : Nat)
  | enlist (k : Nat)
  | exit (tid : Nat)
  | finish (tid : Nat)
  deriving Repr, DecidableEq

namespace Process

open Creation (toTake isMapping)

variable (p : Process)

/-- The count of the check. -/
def vivas : Nat := (p.threads.filter (· ∈ p.unfinished)).length

def step : Event → Process
  | .check =>
    if p.vivas ≥ threadsMaxPerProcess then p
    else { p with creations := p.creations ++ [.mapping 0], created := p.created + 1 }
  | .mapPage k tables fails =>
    match p.creations[k]? with
    | some (.mapping n) =>
      if n ≥ stackPages then p
      else if fails then
        -- what was allocated stays recorded, here all but the frame that was missing
        { p with creations := p.creations.eraseIdx k, frames := p.frames + tables }
      else
        { p with
          creations := p.creations.set k (.mapping (n + 1)), frames := p.frames + 1 + tables }
    | _ => p
  | .spawn k =>
    match p.creations[k]? with
    | some (.mapping n) =>
      if n < stackPages then p
      else
        { p with
          creations := p.creations.set k (.spawned p.nextTid), nextTid := p.nextTid + 1
          unfinished := p.unfinished ++ [p.nextTid] }
    | _ => p
  | .enlist k =>
    match p.creations[k]? with
    | some (.spawned t) =>
      { p with creations := p.creations.eraseIdx k, threads := p.threads ++ [t] }
    | _ => p
  | .exit t =>
    if t ∈ p.unfinished ∧ t ∉ p.exiting then
      { p with threads := p.threads.filter (· ≠ t), exiting := p.exiting ++ [t] }
    else p
  | .finish t =>
    if t ∈ p.exiting then
      { p with
        unfinished := p.unfinished.filter (· ≠ t), exiting := p.exiting.filter (· ≠ t) }
    else p

/-- A process with its first thread. -/
def Started : Prop :=
  ∃ t, p.threads = [t] ∧ p.unfinished = [t] ∧ p.exiting = [] ∧ p.creations = [] ∧
    t < p.nextTid ∧ p.created = 0

/-- A thread is created while no other creation is under way and no thread is on
its way out. -/
def Alone : Event → Prop
  | .check => p.creations = [] ∧ p.exiting = []
  | _ => True

instance (p : Process) (e : Event) : Decidable (p.Alone e) := by
  cases e <;> unfold Alone <;> infer_instance

/-! ## What a step keeps -/

/-- Every unfinished thread is accounted for, and with the threads that are to
be started there are not more than the limit. The frames are those of the
creations. -/
structure Limited (start : Nat) (p : Process) : Prop where
  nodup : p.unfinished.Nodup
  fresh : ∀ t ∈ p.unfinished, t < p.nextTid
  known : ∀ t ∈ p.unfinished, t ∈ p.threads ∨ t ∈ p.exiting ∨ .spawned t ∈ p.creations
  limit : p.unfinished.length + tally isMapping p.creations ≤ threadsMaxPerProcess
  frames : p.frames + tally toTake p.creations ≤ start + 4 * stackPages * p.created

variable {p : Process} {start : Nat}

theorem Started.limited (h : p.Started) : p.Limited p.frames := by
  obtain ⟨t, hthreads, hunf, -, hcr, hlt, hcreated⟩ := h
  refine ⟨?_, ?_, ?_, ?_, ?_⟩ <;> simp [hthreads, hunf, hcr, hlt, hcreated, threadsMaxPerProcess]

/-- With nobody else under way the check sees every unfinished thread. -/
theorem Limited.length_le_vivas (h : p.Limited start) (hc : p.creations = []) (he : p.exiting = []) :
    p.unfinished.length ≤ p.vivas := by
  refine (List.Nodup.subperm h.nodup fun t ht => ?_).length_le
  have hknown := h.known t ht
  simp only [he, hc, not_mem_nil, or_false] at hknown
  exact mem_filter.2 ⟨hknown, by simpa using ht⟩

/-- A started thread stays when another creation is taken out or replaced. -/
theorem spawned_stays {l : List Creation} {k t : Nat} {a : Creation} (hx : .spawned t ∈ l)
    (hk : l[k]? = some a) (hne : a ≠ .spawned t) :
    .spawned t ∈ l.eraseIdx k ∧ ∀ b, .spawned t ∈ l.set k b := by
  obtain ⟨i, hi⟩ := mem_iff_getElem?.1 hx
  have hik : i ≠ k := by
    rintro rfl
    exact hne (Option.some.inj (hk.symm.trans hi))
  refine ⟨mem_eraseIdx_iff_getElem?.2 ⟨i, hik, hi⟩, fun b => ?_⟩
  exact mem_iff_getElem?.2 ⟨i, by rw [List.getElem?_set_ne hik.symm, hi]⟩

theorem Limited.step (h : p.Limited start) (e : Event) (he : p.Alone e) :
    (p.step e).Limited start := by
  have hlimit := h.limit
  have hframes := h.frames
  cases e with
  | check =>
    simp only [Process.step]
    split
    · exact h
    have hle := h.length_le_vivas he.1 he.2
    simp only [he.1, tally_nil] at hframes
    refine { h with known := fun t ht => ?_, limit := ?_, frames := ?_ }
    · exact (h.known t ht).imp_right (.imp_right (mem_append_left _))
    · simp only [he.1, nil_append, tally_cons, tally_nil, isMapping]
      omega
    · simp only [he.1, nil_append, tally_cons, tally_nil, toTake, Nat.mul_succ]
      omega
  | mapPage k tables fails =>
    simp only [Process.step]
    split
    · rename_i n hk
      split
      · exact h
      have hstays := fun t hmem => spawned_stays (t := t) hmem hk nofun
      split
      · have hsum := tally_eraseIdx (f := isMapping) hk
        have htake := tally_eraseIdx (f := toTake) hk
        simp only [isMapping, toTake] at hsum htake
        refine { h with known := fun t ht => ?_, limit := ?_, frames := ?_ }
        · exact (h.known t ht).imp_right (.imp_right fun hmem => (hstays t hmem).1)
        all_goals
          dsimp only
          omega
      · have hsum := tally_set (f := isMapping) hk (.mapping (n + 1))
        have htake := tally_set (f := toTake) hk (.mapping (n + 1))
        simp only [isMapping, toTake] at hsum htake
        refine { h with known := fun t ht => ?_, limit := ?_, frames := ?_ }
        · exact (h.known t ht).imp_right (.imp_right fun hmem => (hstays t hmem).2 _)
        all_goals
          dsimp only
          omega
    · exact h
  | spawn k =>
    simp only [Process.step]
    split
    · rename_i n hk
      split
      · exact h
      have hsum := tally_set (f := isMapping) hk (.spawned p.nextTid)
      have htake := tally_set (f := toTake) hk (.spawned p.nextTid)
      obtain ⟨hlt, -⟩ := List.getElem?_eq_some_iff.1 hk
      simp only [isMapping, toTake] at hsum htake
      constructor
      case nodup =>
        refine List.Nodup.append h.nodup (nodup_singleton _) fun t ht ht' => ?_
        rw [mem_singleton.1 ht'] at ht
        exact absurd (h.fresh _ ht) (Nat.lt_irrefl _)
      case fresh =>
        intro t ht
        rcases mem_append.1 ht with ht | ht
        · exact Nat.lt_succ_of_lt (h.fresh t ht)
        · exact mem_singleton.1 ht ▸ Nat.lt_succ_self _
      case known =>
        intro t ht
        rcases mem_append.1 ht with ht | ht
        · exact (h.known t ht).imp_right
            (.imp_right fun hmem => (spawned_stays hmem hk nofun).2 _)
        · exact .inr (.inr (mem_singleton.1 ht ▸ mem_set hlt _))
      case limit =>
        simp only [length_append, length_singleton]
        omega
      case frames =>
        dsimp only
        omega
    · exact h
  | enlist k =>
    simp only [Process.step]
    split
    · rename_i t hk
      have hsum := tally_eraseIdx (f := isMapping) hk
      have htake := tally_eraseIdx (f := toTake) hk
      refine { h with
        known := fun t' ht' => ?_, limit := by dsimp only; omega, frames := by dsimp only; omega }
      rcases h.known t' ht' with hmem | hmem | hmem
      · exact .inl (mem_append_left _ hmem)
      · exact .inr (.inl hmem)
      by_cases heq : t' = t
      · exact .inl (mem_append_right _ (heq ▸ mem_singleton_self _))
      refine .inr (.inr (spawned_stays hmem hk fun h => heq ?_).1)
      injection h with h
      exact h.symm
    · exact h
  | exit t =>
    simp only [Process.step]
    split
    · refine { h with known := fun t' ht' => ?_ }
      by_cases heq : t' = t
      · exact .inr (.inl (mem_append_right _ (heq ▸ mem_singleton_self _)))
      rcases h.known t' ht' with hmem | hmem | hmem
      · exact .inl (mem_filter.2 ⟨hmem, by simpa using heq⟩)
      · exact .inr (.inl (mem_append_left _ hmem))
      · exact .inr (.inr hmem)
    · exact h
  | finish t =>
    simp only [Process.step]
    split
    · have hlen := length_filter_le (· ≠ t) p.unfinished
      refine ⟨h.nodup.filter _, fun t' ht' => h.fresh t' (mem_filter.1 ht').1, ?_,
        by dsimp only; omega, hframes⟩
      intro t' ht'
      obtain ⟨hmem, hne⟩ := mem_filter.1 ht'
      exact (h.known t' hmem).imp_right (.imp_left fun hex => mem_filter.2 ⟨hex, hne⟩)
    · exact h

/-- In every run from the start of the process in which threads are created one
at a time and with none on its way out, the limit holds, and the process owns no
more frames than the threads created so far have taken. -/
theorem threads_and_frames_limited (p : Process) (hp : p.Started) (es : List Event)
    (hes : Along step Process.Alone p es) (es' : List Event) (hes' : es' <+: es) :
    (es'.foldl step p).unfinished.length ≤ threadsMaxPerProcess ∧
      (es'.foldl step p).frames ≤
        p.frames + 4 * stackPages * (es'.foldl step p).created := by
  have h := hes.inv (I := Limited p.frames) (fun _ e h he => h.step e he) hp.limited es' hes'
  exact ⟨Nat.le_of_add_right_le h.limit, Nat.le_of_add_right_le h.frames⟩

/-! ## Threads at once, and threads one after another -/

/-- The process after `n` threads were created and have ended. -/
def after (n : Nat) : Process :=
  { threads := [0], unfinished := [0], exiting := [], creations := [], nextTid := n + 1,
    frames := stackPages * n, created := n }

def mapStack (k : Nat) : List Event := List.replicate stackPages (.mapPage k 0 false)

def createOne : List Event := .check :: mapStack 0 ++ [.spawn 0, .enlist 0]

def createAndEnd (n : Nat) : List Event := createOne ++ [.exit (n + 1), .finish (n + 1)]

theorem foldl_mapPage (p : Process) (n m : Nat) (hp : p.creations = [.mapping n])
    (hm : n + m ≤ stackPages) : (List.replicate m (Event.mapPage 0 0 false)).foldl step p
      = { p with creations := [.mapping (n + m)], frames := p.frames + m } := by
  induction m generalizing p n with
  | zero => simp [← hp]
  | succ m ih =>
    have hlt : ¬ stackPages ≤ n := by omega
    rw [replicate_succ, foldl_cons,
      ih _ (n + 1) (by simp [step, hp, hlt]) (by omega)]
    simp [step, hp, hlt]
    omega

theorem foldl_createOne {p : Process} (hc : p.creations = [])
    (hv : p.vivas < threadsMaxPerProcess) : createOne.foldl step p = { p with
          threads := p.threads ++ [p.nextTid], unfinished := p.unfinished ++ [p.nextTid]
          nextTid := p.nextTid + 1, frames := p.frames + stackPages, created := p.created + 1 } := by
  have hcheck : p.step .check
      = { p with creations := [.mapping 0], created := p.created + 1 } := by
    simp [step, hc, Nat.not_le.2 hv]
  rw [createOne, cons_append, foldl_cons, hcheck, foldl_append, mapStack,
    foldl_mapPage _ 0 stackPages rfl (by simp)]
  simp [step, hc]

theorem foldl_createAndEnd (n : Nat) :
    (createAndEnd n).foldl step (after n) = after (n + 1) := by
  rw [createAndEnd, foldl_append,
    foldl_createOne rfl (by simp [vivas, after, threadsMaxPerProcess])]
  simp [step, after, Nat.mul_succ]

/-- The process with `n` threads besides the first. -/
def crowd (n : Nat) : Process :=
  { threads := List.range (n + 1), unfinished := List.range (n + 1), exiting := [],
    creations := [], nextTid := n + 1, frames := stackPages * n, created := n }

theorem foldl_crowd {n : Nat} (hn : n < threadsMaxPerProcess) :
    (List.replicate n createOne).flatten.foldl step (after 0) = crowd n := by
  induction n with
  | zero => rfl
  | succ n ih =>
    have hv : (crowd n).vivas < threadsMaxPerProcess :=
      Nat.lt_of_le_of_lt (length_filter_le _ _) (by simpa [crowd] using hn)
    rw [replicate_succ', flatten_append, foldl_append, ih (by omega),
      flatten_singleton, foldl_createOne rfl hv]
    simp [crowd, range_succ (n := n + 1), Nat.mul_succ]

/-- Two creations at once. -/
def race : List Event := [.check, .check] ++ mapStack 0 ++ mapStack 1 ++ [.spawn 0, .spawn 1]

/-- `n` times a thread is created and its end waited for. -/
def createAndJoin (n : Nat) : List Event := (List.range n).flatMap createAndEnd

theorem foldl_createAndJoin (n : Nat) : (createAndJoin n).foldl step (after 0) = after n := by
  induction n with
  | zero => rfl
  | succ n ih =>
    rw [createAndJoin, range_succ, flatMap_append, foldl_append, ← createAndJoin, ih,
      flatMap_singleton, foldl_createAndEnd]

/-- With 63 threads two creations at once lead to 65, and a process that creates
a thread and waits for its end over and over has its first thread alone and more
frames each time. -/
theorem limit_passed_and_frames_unbounded :
    (((List.replicate 62 createOne).flatten ++ race).foldl step
        (after 0)).unfinished.length = 65 ∧
      ∀ n, ((createAndJoin n).foldl step (after 0)).unfinished = [0] ∧
        ((createAndJoin n).foldl step (after 0)).frames = stackPages * n := by
  constructor
  · rw [foldl_append, foldl_crowd (by decide)]
    decide +kernel
  · intro n
    rw [foldl_createAndJoin]
    exact ⟨rfl, rfl⟩

/-- Two threads created one after the other. -/
theorem threads_and_frames_limited_two :
    ((createOne ++ createOne).foldl step (after 0)).unfinished.length
        ≤ threadsMaxPerProcess ∧
      ((createOne ++ createOne).foldl step (after 0)).frames ≤ (after 0).frames +
        4 * stackPages * ((createOne ++ createOne).foldl step (after 0)).created :=
  threads_and_frames_limited (after 0) ⟨0, by decide⟩ (createOne ++ createOne) (by decide +kernel)
    _ (prefix_refl _)

end Process
end NexoOS.Kernel.ThreadLimit
