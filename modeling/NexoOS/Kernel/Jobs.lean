import NexoOS.Lib.Tally

/-!
# Jobs and their members

`Job::{attach, kill, cpu_total_ns}` of `kernel/src/process.rs` and the job a new
process inherits. Membership is kept twice: as a list of weak references in every
job, and as the one job of the process. `attach` writes both, but takes the process
out of no other list, so that a process that was attached before stays a member
there. A process that is only attached where it already is has one job.
-/

namespace NexoOS.Kernel.Jobs

open Function

structure Process where
  /-- An `Arc` of it is left, so that a weak reference can be upgraded. -/
  alive : Bool
  exited : Bool
  killed : Bool
  cpuNs : Nat
  /-- The job it was last attached to. -/
  job : Option Nat

def Process.newborn (job : Option Nat) : Process where
  alive := true
  exited := false
  killed := false
  cpuNs := 0
  job := job

structure State where
  procs : Nat → Process
  nextPid : Nat
  members : Nat → List Nat

/-- The first process, which is in no job. -/
def State.start : State where
  procs := fun p =>
    { alive := p = 0, exited := false, killed := false, cpuNs := 0, job := none }
  nextPid := 1
  members := fun _ => []

inductive Event where
  | spawn (parent : Nat)
  | attach (j p : Nat)
  | kill (j : Nat)
  | exit (p : Nat)
  /-- The last `Arc` of an exited process goes. -/
  | drop (p : Nat)
  /-- The scheduler credits a slice. -/
  | credit (p ns : Nat)

namespace State

variable (s : State)

def setProc (p : Nat) (x : Process) : State := { s with procs := update s.procs p x }

def attach (j p : Nat) : State :=
  let kept := (s.members j).filter fun q => (s.procs q).alive
  { s with
    members := update s.members j (if p ∈ kept then kept else kept ++ [p])
    procs := update s.procs p { s.procs p with job := some j } }

/-- The members a weak reference still leads to. -/
def liveMembers (j : Nat) : List Nat := (s.members j).filter fun p => (s.procs p).alive

def kill (j : Nat) : State :=
  { s with
    procs := fun p =>
      if p ∈ s.liveMembers j ∧ (s.procs p).exited = false then { s.procs p with killed := true }
      else s.procs p }

def cpuTotalNs (j : Nat) : Nat := tally (fun p => (s.procs p).cpuNs) (s.liveMembers j)

/-- A new process starts in the job of the one that creates it. -/
def spawn (parent : Nat) : State :=
  let job := (s.procs parent).job
  let s' := { (s.setProc s.nextPid (.newborn job)) with nextPid := s.nextPid + 1 }
  match job with
  | none => s'
  | some j => s'.attach j s.nextPid

def step (s : State) : Event → State
  | .spawn parent =>
    if (s.procs parent).alive ∧ (s.procs parent).exited = false then s.spawn parent else s
  | .attach j p => if (s.procs p).alive then s.attach j p else s
  | .kill j => s.kill j
  | .exit p => if (s.procs p).alive then s.setProc p { s.procs p with exited := true } else s
  | .drop p => if (s.procs p).exited then s.setProc p { s.procs p with alive := false } else s
  | .credit p ns => s.setProc p { s.procs p with cpuNs := (s.procs p).cpuNs + ns }

/-- A process is only attached to the job it is in. -/
def Allows : Event → Prop
  | .attach j p => (s.procs p).job = none ∨ (s.procs p).job = some j
  | _ => True

instance (e : Event) : Decidable (s.Allows e) := by
  unfold Allows
  split <;> infer_instance

/-- Members are in the job they were last attached to, and are processes that were
created. -/
structure OneJob : Prop where
  member : ∀ j, ∀ p ∈ s.liveMembers j, (s.procs p).job = some j
  known : ∀ j, ∀ p ∈ s.members j, p < s.nextPid
  fresh : ∀ p, (s.procs p).alive = true → p < s.nextPid

end State

variable {s : State} {j p : Nat}

namespace State

theorem mem_liveMembers : p ∈ s.liveMembers j ↔ p ∈ s.members j ∧ (s.procs p).alive = true := by
  simp [liveMembers]

theorem attach_alive (q : Nat) : ((s.attach j p).procs q).alive = (s.procs q).alive := by
  by_cases hq : q = p
  · subst hq
    simp [attach]
  · simp [attach, hq]

theorem of_mem_attach {j' q : Nat} (h : q ∈ (s.attach j p).members j') :
    q ∈ s.members j' ∨ (q = p ∧ j' = j) := by
  by_cases hj : j' = j
  · subst hj
    simp only [attach, update_self] at h
    split at h
    · exact .inl (List.mem_filter.1 h).1
    rcases List.mem_append.1 h with h | h
    · exact .inl (List.mem_filter.1 h).1
    · exact .inr ⟨List.mem_singleton.1 h, rfl⟩
  · exact .inl (by simpa [attach, hj] using h)

namespace OneJob

/-- A change that neither revives a process nor moves it to another job. -/
theorem of_procs (h : s.OneJob) {procs : Nat → Process}
    (hjob : ∀ p, (procs p).job = (s.procs p).job)
    (halive : ∀ p, (procs p).alive = true → (s.procs p).alive = true) :
    OneJob { s with procs } := by
  constructor
  case member =>
    intro j p hp
    obtain ⟨hmem, hp⟩ := mem_liveMembers.1 hp
    rw [hjob]
    exact h.member j p (mem_liveMembers.2 ⟨hmem, halive p hp⟩)
  case known => exact h.known
  case fresh => exact fun p hp => h.fresh p (halive p hp)

theorem setProc (h : s.OneJob) {x : Process} (hjob : x.job = (s.procs p).job)
    (halive : x.alive = true → (s.procs p).alive = true) : (s.setProc p x).OneJob := by
  refine h.of_procs (fun q => ?_) fun q hq => ?_
  · by_cases hqp : q = p
    · subst hqp
      rw [update_self, hjob]
    · rw [update_of_ne hqp]
  · by_cases hqp : q = p
    · subst hqp
      exact halive (by simpa using hq)
    · simpa [hqp] using hq

theorem attach (h : s.OneJob) (hp : p < s.nextPid)
    (hone : ∀ j', p ∈ s.liveMembers j' → j' = j) : (s.attach j p).OneJob := by
  constructor
  case member =>
    intro j' q hlive
    obtain ⟨hmem, hq⟩ := mem_liveMembers.1 hlive
    rw [attach_alive] at hq
    by_cases hqp : q = p
    · subst hqp
      have hj : j' = j := by
        rcases of_mem_attach hmem with hmem | ⟨-, hj⟩
        · exact hone j' (mem_liveMembers.2 ⟨hmem, hq⟩)
        · exact hj
      simp [State.attach, hj]
    · have hjob : ((s.attach j p).procs q).job = (s.procs q).job := by simp [State.attach, hqp]
      rw [hjob]
      rcases of_mem_attach hmem with hmem | ⟨heq, -⟩
      · exact h.member j' q (mem_liveMembers.2 ⟨hmem, hq⟩)
      · exact absurd heq hqp
  case known =>
    intro j' q hq
    rcases of_mem_attach hq with hq | ⟨rfl, -⟩
    · exact h.known j' q hq
    · exact hp
  case fresh =>
    intro q hq
    rw [attach_alive] at hq
    exact h.fresh q hq

/-- A new process is a member nowhere until it is attached to the job it inherits. -/
theorem spawn (h : s.OneJob) (parent : Nat) : (s.spawn parent).OneJob := by
  have hout : ∀ j, s.nextPid ∉ s.members j := fun j hj => Nat.lt_irrefl _ (h.known j _ hj)
  have hnew : OneJob { (s.setProc s.nextPid (.newborn (s.procs parent).job)) with
      nextPid := s.nextPid + 1 } := by
    constructor
    case member =>
      intro j p hp
      obtain ⟨hmem, hp⟩ := mem_liveMembers.1 hp
      have hne : p ≠ s.nextPid := fun heq => hout j (heq ▸ hmem)
      simp only [State.setProc, update_of_ne hne] at hp ⊢
      exact h.member j p (mem_liveMembers.2 ⟨hmem, hp⟩)
    case known => exact fun j p hp => Nat.lt_succ_of_lt (h.known j p hp)
    case fresh =>
      intro p hp
      by_cases hne : p = s.nextPid
      · exact hne ▸ Nat.lt_succ_self _
      · simp only [State.setProc, update_of_ne hne] at hp
        exact Nat.lt_succ_of_lt (h.fresh p hp)
  unfold State.spawn
  dsimp only
  split
  · exact hnew
  · exact hnew.attach (Nat.lt_succ_self _) fun j' hj' => absurd (mem_liveMembers.1 hj').1 (hout j')

theorem step (h : s.OneJob) {e : Event} (he : s.Allows e) : (s.step e).OneJob := by
  cases e with
  | spawn parent =>
    dsimp only [State.step]
    split
    · exact h.spawn parent
    · exact h
  | attach j p =>
    dsimp only [State.step]
    split
    · rename_i halive
      refine h.attach (h.fresh p halive) fun j' hj' => ?_
      have hjob := h.member j' p hj'
      rcases he with he | he
      · rw [he] at hjob
        cases hjob
      · rw [he] at hjob
        exact (Option.some.inj hjob).symm
    · exact h
  | kill j =>
    refine h.of_procs (fun p => ?_) fun p hp => ?_
    · dsimp only
      split <;> rfl
    · dsimp only at hp
      split at hp <;> exact hp
  | exit p =>
    dsimp only [State.step]
    split
    · exact h.setProc rfl id
    · exact h
  | drop p =>
    dsimp only [State.step]
    split
    · exact h.setProc rfl nofun
    · exact h
  | credit p ns => exact h.setProc rfl id

end OneJob

/-- The process has no part in the job: killing it leaves the process alone, and
the job is not charged for it. -/
structure Apart (s : State) (j p : Nat) : Prop where
  member : p ∉ s.liveMembers j
  kill : (s.step (.kill j)).procs p = s.procs p
  charge : ∀ ns, (s.step (.credit p ns)).cpuTotalNs j = s.cpuTotalNs j

theorem apart_of_not_mem (h : p ∉ s.liveMembers j) : Apart s j p := by
  refine ⟨h, if_neg fun hc => h hc.1, fun ns => ?_⟩
  have hmembers : (s.step (.credit p ns)).liveMembers j = s.liveMembers j := by
    refine List.filter_congr fun q _ => ?_
    by_cases hq : q = p
    · subst hq
      simp [State.step, State.setProc]
    · simp [State.step, State.setProc, hq]
  unfold cpuTotalNs tally
  rw [hmembers]
  refine congrArg List.sum (List.map_congr_left fun q hq => ?_)
  have hne : q ≠ p := by
    rintro rfl
    exact h hq
  simp [State.step, State.setProc, hne]

end State

/-- In every run in which a process is only attached to the job it is in, it is a
member of no job but the one it was last attached to. -/
theorem one_job (es : List Event) (h : Along State.step State.Allows .start es) :
    ∀ l, l <+: es → ∀ j p, ((l.foldl State.step .start).procs p).job ≠ some j →
      State.Apart (l.foldl State.step .start) j p := by
  intro l hl j p hjob
  have hstart : State.start.OneJob :=
    ⟨fun _ _ hp => absurd hp List.not_mem_nil, fun _ _ hp => absurd hp List.not_mem_nil,
      fun p hp => by simp_all [State.start]⟩
  have hone := h.inv (I := State.OneJob) (fun _ _ hs hc => hs.step hc) hstart l hl
  exact State.apart_of_not_mem fun hp => hjob (hone.member j p hp)

/-- The first process makes a child, attaches it to job `0` and again to job `0`. -/
def keptInJob : List Event := [.spawn 0, .attach 0 1, .attach 0 1]

theorem one_job_keptInJob : ((keptInJob.foldl State.step .start).procs 1).job = some 0 ∧
      State.Apart (keptInJob.foldl State.step .start) 1 1 := by
  refine ⟨by decide, one_job keptInJob (by decide) _ List.prefix_rfl 1 1 ?_⟩
  decide

/-- The child goes from job `0` to job `1`; killing job `0` kills it all the same,
and job `0` is charged for what it runs. -/
theorem moved_process_killed_with_old_job :
    ∃ es : List Event, es = [.spawn 0, .attach 0 1, .attach 1 1] ∧
      ((es.foldl State.step .start).procs 1).job = some 1 ∧
      (((es ++ [Event.kill 0]).foldl State.step .start).procs 1).killed = true ∧
      ((es ++ [Event.credit 1 5]).foldl State.step .start).cpuTotalNs 0 = 5 := by
  refine ⟨_, rfl, ?_⟩
  decide

end NexoOS.Kernel.Jobs
