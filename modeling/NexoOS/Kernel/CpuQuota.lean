import NexoOS.Lib.Tally

/-!
# The CPU quota of a job

A job with a budget is charged once a window: `fecha_janela` adds up what the
live members have been credited with, takes the base from it and moves the base
so that what is over the budget is charged again. A member is credited when one
of its threads loses its processor.

Beside the job the model keeps `due`: what the members have used since the
budget was set, less a budget for every window closed. Times are nanoseconds;
their sum does not reach `2 ^ 64`.
-/

namespace NexoOS.Kernel.CpuQuota

/-- A live member: its `cpu_ns`, and for each of its threads that has a
processor the time since it got it. -/
structure Member where
  pid : Nat
  cpuNs : Nat
  slices : List Nat
  deriving Repr, DecidableEq

structure Job where
  members : List Member
  cpuLimite : Nat
  cpuBase : Nat
  throttled : Bool
  due : Nat
  deriving Repr, DecidableEq

inductive Event
  /-- A process with its past joins. -/
  | attach (m : Member)
  /-- The last reference to a member goes. -/
  | drop (i : Nat)
  /-- A thread of the member gets a processor, uses it, and loses it. -/
  | enter (i : Nat)
  | use (i t ns : Nat)
  | leave (i t : Nat)
  /-- The running thread looks at the budget on a tick. -/
  | tick (i t : Nat)
  | setCpuLimit (ns : Nat)
  | fechaJanela
  deriving Repr, DecidableEq

/-- What the running threads have used and not been credited with. -/
def Member.uncredited (m : Member) : Nat := tally id m.slices

namespace Job

variable (j : Job)

def cpuTotal : Nat := tally Member.cpuNs j.members

def uncredited : Nat := tally Member.uncredited j.members

/-- What a window that closed now would be charged. -/
def gasto : Nat := j.cpuTotal - j.cpuBase

/-- The check of `attach` is by identity of the process. -/
def attach (m : Member) : Job :=
  if j.members.any (·.pid = m.pid) then j else { j with members := j.members ++ [m] }

def estourou (extra : Nat) : Bool :=
  j.cpuLimite ≠ 0 && j.cpuLimite ≤ j.cpuTotal + extra - j.cpuBase

/-- The window is anchored here. -/
def setCpuLimit (ns : Nat) : Job :=
  { j with
    cpuLimite := ns, cpuBase := j.cpuTotal, due := 0,
    throttled := if ns = 0 then false else j.throttled }

def fechaJanela : Job :=
  if j.cpuLimite = 0 then { j with throttled := false }
  else
    { j with
      cpuBase := j.cpuTotal - (j.gasto - j.cpuLimite)
      throttled := j.cpuLimite ≤ j.gasto
      due := j.due - j.cpuLimite }

def setMember (i : Nat) (m : Member) : Job := { j with members := j.members.set i m }

def step : Event → Job
  | .attach m => j.attach m
  | .drop i => { j with members := j.members.eraseIdx i }
  | .enter i =>
    match j.members[i]? with
    | none => j
    | some m => j.setMember i { m with slices := m.slices ++ [0] }
  | .use i t ns =>
    match j.members[i]? with
    | none => j
    | some m =>
      match m.slices[t]? with
      | none => j
      | some d =>
        { j.setMember i { m with slices := m.slices.set t (d + ns) } with due := j.due + ns }
  | .leave i t =>
    match j.members[i]? with
    | none => j
    | some m =>
      match m.slices[t]? with
      | none => j
      | some d =>
        j.setMember i { m with cpuNs := m.cpuNs + d, slices := m.slices.eraseIdx t }
  | .tick i t =>
    match j.members[i]?.bind (·.slices[t]?) with
    | none => j
    | some d => if j.estourou d then { j with throttled := true } else j
  | .setCpuLimit ns => j.setCpuLimit ns
  | .fechaJanela => j.fechaJanela

/-- While the job has a budget, processes join and leave it with no time used,
and no member runs when a window is anchored or closed. -/
def Settled : Event → Prop
  | .attach m => j.cpuLimite ≠ 0 → m.cpuNs = 0 ∧ m.uncredited = 0
  | .drop i => j.cpuLimite ≠ 0 → ∀ m ∈ j.members[i]?, m.cpuNs = 0 ∧ m.uncredited = 0
  | .setCpuLimit _ | .fechaJanela => j.uncredited = 0
  | _ => True

instance (j : Job) (e : Event) : Decidable (j.Settled e) := by
  cases e <;> unfold Settled <;> infer_instance

/-! ## What a step keeps -/

/-- What the members have used is in the base, or due. -/
def Accounted : Prop :=
  j.cpuLimite ≠ 0 → j.cpuBase + j.due = j.cpuTotal + j.uncredited

variable {j : Job}

section
variable (h : j.Accounted)
include h

theorem Accounted.gasto (hl : j.cpuLimite ≠ 0) (hu : j.uncredited = 0) : j.gasto = j.due := by
  have := h hl
  unfold Job.gasto
  omega

theorem Accounted.setMember {i d : Nat} {m m' : Member} (hm : j.members[i]? = some m)
    (hd : m'.cpuNs + m'.uncredited = m.cpuNs + m.uncredited + d) :
    { j.setMember i m' with due := j.due + d }.Accounted := by
  intro hl
  have hsum := h hl
  have hcpu := tally_set (f := Member.cpuNs) hm m'
  have hun := tally_set (f := Member.uncredited) hm m'
  simp only [cpuTotal, Job.uncredited, Job.setMember] at hsum ⊢
  omega

theorem Accounted.attach {m : Member} (hm : j.Settled (.attach m)) : (j.attach m).Accounted := by
  unfold Job.attach
  split
  · exact h
  intro hl
  have hsum := h hl
  obtain ⟨hcpu, hun⟩ := hm hl
  simp only [cpuTotal, Job.uncredited, tally_append, tally_cons, tally_nil] at hsum ⊢
  omega

theorem Accounted.drop {i : Nat} (hi : j.Settled (.drop i)) :
    { j with members := j.members.eraseIdx i }.Accounted := by
  intro hl
  have hsum := h hl
  cases hm : j.members[i]? with
  | none =>
    rw [cpuTotal, Job.uncredited, List.eraseIdx_of_length_le (List.getElem?_eq_none_iff.1 hm)]
    exact hsum
  | some m =>
    obtain ⟨hcpu, hun⟩ := hi hl m hm
    have hcpu' := tally_eraseIdx (f := Member.cpuNs) hm
    have hun' := tally_eraseIdx (f := Member.uncredited) hm
    simp only [cpuTotal, Job.uncredited] at hsum ⊢
    omega

theorem Accounted.fechaJanela (hu : j.uncredited = 0) : j.fechaJanela.Accounted := by
  unfold Job.fechaJanela
  split
  · exact h
  rename_i hl
  intro _
  have hsum := h hl
  have hun : Job.uncredited
      { j with
        cpuBase := j.cpuTotal - (j.gasto - j.cpuLimite)
        throttled := j.cpuLimite ≤ j.gasto
        due := j.due - j.cpuLimite } = 0 := hu
  rw [hun]
  change j.cpuTotal - (j.gasto - j.cpuLimite) + (j.due - j.cpuLimite) = j.cpuTotal + 0
  rw [h.gasto hl hu]
  omega

theorem Accounted.step (e : Event) (he : j.Settled e) : (j.step e).Accounted := by
  cases e with
  | attach m => exact h.attach he
  | drop i => exact h.drop he
  | enter i =>
    simp only [Job.step]
    split
    · exact h
    · rename_i m hm
      exact h.setMember (d := 0) hm (by simp [Member.uncredited])
  | use i t ns =>
    simp only [Job.step]
    split
    · exact h
    rename_i m hm
    split
    · exact h
    rename_i d hd
    have := tally_set (f := id) hd (d + ns)
    refine h.setMember hm ?_
    simp only [Member.uncredited, id] at this ⊢
    omega
  | leave i t =>
    simp only [Job.step]
    split
    · exact h
    rename_i m hm
    split
    · exact h
    rename_i d hd
    have := tally_eraseIdx (f := id) hd
    refine h.setMember (d := 0) hm ?_
    simp only [Member.uncredited, id] at this ⊢
    omega
  | tick i t =>
    simp only [Job.step]
    split
    · exact h
    split
    · exact h
    · exact h
  | setCpuLimit ns =>
    intro _
    change j.cpuTotal + 0 = j.cpuTotal + j.uncredited
    rw [show j.uncredited = 0 from he]
  | fechaJanela => exact h.fechaJanela he

end

/-- A job with no budget yet. -/
def Fresh (j : Job) : Prop := j.cpuLimite = 0

/-- In every run of settled steps, a window that closes is charged what is due,
and the job is throttled exactly when that is its budget or more. -/
theorem settled_run_charges_due (j : Job) (hj : j.Fresh) (es : List Event)
    (hes : Along step Job.Settled j es) (es' : List Event)
    (hclose : es' ++ [Event.fechaJanela] <+: es) (hl : (es'.foldl step j).cpuLimite ≠ 0) :
    (es'.foldl step j).gasto = (es'.foldl step j).due ∧
      (((es' ++ [Event.fechaJanela]).foldl step j).throttled = true ↔
        (es'.foldl step j).cpuLimite ≤ (es'.foldl step j).due) := by
  have hinv := hes.inv (I := Accounted) (fun _ e h he => h.step e he)
    (fun hl => absurd hj hl) es' ((List.prefix_append _ _).trans hclose)
  have hu : (es'.foldl step j).uncredited = 0 := hes.at hclose
  have hgasto := hinv.gasto hl hu
  refine ⟨hgasto, ?_⟩
  rw [List.foldl_append, List.foldl_cons, List.foldl_nil]
  simp [step, Job.fechaJanela, hl, hgasto]

/-- A member runs for 30 and rests; the budget is 20. -/
def restingRun : List Event :=
  [.attach ⟨1, 0, []⟩, .setCpuLimit 20, .enter 0, .use 0 0 30, .leave 0 0, .fechaJanela]

def emptyJob : Job := { members := [], cpuLimite := 0, cpuBase := 0, throttled := false, due := 0 }

theorem settled_run_charges_due_resting : (restingRun.dropLast.foldl step emptyJob).gasto
        = (restingRun.dropLast.foldl step emptyJob).due ∧
      ((restingRun.foldl step emptyJob).throttled = true ↔ 20 ≤ 30) :=
  settled_run_charges_due emptyJob rfl restingRun (by decide) restingRun.dropLast
    (by decide) (by decide)

/-- A member uses the budget of two windows and exits: nothing is charged, and
the job is not throttled. -/
theorem exit_escapes_charge :
    (([.attach ⟨1, 0, []⟩, .setCpuLimit 20, .enter 0, .use 0 0 40, .leave 0 0,
        .drop 0] : List Event).foldl step emptyJob).gasto = 0 ∧
      (([.attach ⟨1, 0, []⟩, .setCpuLimit 20, .enter 0, .use 0 0 40, .leave 0 0,
        .drop 0] : List Event).foldl step emptyJob).due = 40 := by
  decide

end Job
end NexoOS.Kernel.CpuQuota
