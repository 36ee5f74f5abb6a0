import Mathlib

/-!
# The scheduler

`kernel/src/sched.rs`: the run queue, the sleepers, the dead and the thread
each CPU runs. Every function takes the lock of the scheduler, so it is one
step, except that `schedule_locked` keeps the lock over the switch of stacks
and the thread that gets the CPU lets go of it in `finish_switch`: that is a
step of its own, and until then no other CPU gets in.

Whether the job of a thread is out of budget may change at any time, so the
answers each pass over the queue gets are arguments of the step. Accounting of
time, stacks and address spaces is left out.
-/

namespace NexoOS.Kernel.RunQueue

open Function

abbrev Tid := Nat
abbrev Cpu := Nat
abbrev Pid := Nat

def quantumTicks : Nat := 10

/-- `sched::State`. -/
inductive State where
  | ready
  | running
  | sleeping
  | blocked
  | dying
  | dead
  deriving DecidableEq

structure Thread where
  state : State
  isIdle : Bool
  finished : Bool
  waiters : List Tid
  wakeAt : Nat
  quantumLeft : Nat
  affinity : Nat
  prio : Nat
  process : Option Pid

def newThread (isIdle : Bool) : Thread :=
  { state := .ready, isIdle, finished := false, waiters := [], wakeAt := 0,
    quantumLeft := quantumTicks, affinity := 2 ^ 64 - 1, prio := 0, process := none }

/-- `Sched`, with `lock` the CPU in the middle of a switch. Threads are
numbered by `NEXT_ID` in the order they are made. -/
structure Sched where
  threads : Tid → Thread
  nextId : Tid
  runQueue : List Tid
  sleepers : List Tid
  dead : List Tid
  all : List Tid
  running : Cpu → Option Tid
  idle : Cpu → Option Tid
  prevForFinish : Cpu → Option Tid
  lock : Option Cpu

/-- What `em_throttle` answers for the process of each thread, in one pass. -/
abbrev Throttle := Tid → Bool

/-- The answers in the two passes of `pick_next`. -/
structure PickLooks where
  normal : Throttle
  any : Throttle

/-- The answers in `on_tick`: for work in the queue, for normal work in it, for
the running thread, and for the choice of the next. -/
structure TickLooks where
  work : Throttle
  normal : Throttle
  current : Bool
  pick : PickLooks

/-- The answers in `on_resched_ipi`. -/
structure IpiLooks where
  work : Throttle
  normal : Throttle
  pick : PickLooks

namespace Sched

variable (s : Sched)

def setThread (t : Tid) (f : Thread → Thread) : Sched :=
  { s with threads := update s.threads t (f (s.threads t)) }

def setState (t : Tid) (st : State) : Sched :=
  s.setThread t fun th => { th with state := st }

/-! ## Choosing a thread -/

def allowedOn (thr : Throttle) (ci : Cpu) (t : Tid) : Bool :=
  (s.threads t).affinity.testBit (min ci 63) && !((s.threads t).process.isSome && thr t)

def normal (t : Tid) : Bool := (s.threads t).prio == 0

variable (looks : PickLooks) (ci : Cpu)

/-- `pick_next`: the first allowed thread of normal priority, else the first
allowed one. -/
def pickNext : Option Nat :=
  (s.runQueue.findIdx? fun t => s.allowedOn looks.normal ci t && s.normal t).or
    (s.runQueue.findIdx? fun t => s.allowedOn looks.any ci t)

def normalReady (thr : Throttle) (ci : Cpu) : Bool :=
  s.runQueue.any fun t => s.allowedOn thr ci t && s.normal t

/-- The thread that gets the CPU and the run queue without it. -/
def takeNext (idle : Tid) : Tid × List Tid :=
  match s.pickNext looks ci with
  | some i => (s.runQueue.getD i idle, s.runQueue.eraseIdx i)
  | none => (idle, s.runQueue)

/-- `schedule_locked` up to the switch of stacks. -/
def schedule (newState : State) : Sched :=
  match s.running ci, s.idle ci with
  | some cur, some idle =>
    let (next, queue) := s.takeNext looks ci idle
    let runs := fun th : Thread => { th with state := .running, quantumLeft := quantumTicks }
    if next = cur then { s.setThread cur runs with runQueue := queue }
    else
      { (s.setState cur newState).setThread next runs with
        runQueue :=
          if newState = .ready ∧ (s.threads cur).isIdle = false then queue ++ [cur] else queue,
        sleepers := if newState = .sleeping then s.sleepers ++ [cur] else s.sleepers,
        running := update s.running ci (some next),
        prevForFinish := update s.prevForFinish ci (some cur),
        lock := some ci }
  | _, _ => s

/-- A blocked thread goes back to the queue; any other stays where it is. -/
def wake (t : Tid) : Sched :=
  if (s.threads t).state = .blocked then
    { s.setState t .ready with runQueue := s.runQueue ++ [t] }
  else s

def finishSwitch : Sched :=
  let s := { s with lock := none }
  match s.prevForFinish ci with
  | none => s
  | some prev =>
    let s := { s with prevForFinish := update s.prevForFinish ci none }
    if (s.threads prev).state = .dying then
      let waiters := (s.threads prev).waiters
      let s := s.setThread prev fun th =>
        { th with state := .dead, finished := true, waiters := [] }
      let s := waiters.foldl wake s
      { s with dead := s.dead ++ [prev] }
    else s

/-! ## Calls -/

/-- `spawn_full`, on a CPU whose thread gives its priority on. -/
def spawn (mask : Nat) (process : Option Pid) : Sched :=
  let prio := match s.running ci with
    | some cur => (s.threads cur).prio
    | none => 0
  { s with
    threads := update s.threads s.nextId
      { newThread false with
        affinity := if mask = 0 then 2 ^ 64 - 1 else mask, prio, process },
    nextId := s.nextId + 1,
    all := s.all ++ [s.nextId],
    runQueue := s.runQueue ++ [s.nextId] }

/-- `ap_idle_loop`: the boot context of a CPU becomes its idle thread. -/
def apIdleLoop : Sched :=
  { s with
    threads := update s.threads s.nextId { newThread true with state := .running },
    nextId := s.nextId + 1,
    all := s.all ++ [s.nextId],
    running := update s.running ci (some s.nextId),
    idle := update s.idle ci (some s.nextId) }

/-- The section of `sleep_ns` under the lock. -/
def sleep (wakeAt : Nat) : Sched :=
  match s.running ci with
  | some cur =>
    if (s.threads cur).isIdle then s
    else (s.setThread cur fun th => { th with wakeAt }).schedule looks ci .sleeping
  | none => s

def park : Sched :=
  match s.running ci with
  | some cur => if (s.threads cur).isIdle then s else s.schedule looks ci .blocked
  | none => s

def unpark (t : Tid) : Sched := if t ∈ s.all then s.wake t else s

/-- One round of the loop of `join`. -/
def join (t : Tid) : Sched :=
  match s.running ci with
  | some cur =>
    if t ∉ s.all ∨ (s.threads t).finished = true then s
    else if (s.threads cur).isIdle = true ∨ cur = t then s
    else
      (s.setThread t fun th =>
        if cur ∈ th.waiters then th else { th with waiters := th.waiters ++ [cur] }).schedule
        looks ci .blocked
  | none => s

/-- `exit_current`; the loop of an idle thread has no end. -/
def exit : Sched :=
  match s.running ci with
  | some cur => if (s.threads cur).isIdle then s else s.schedule looks ci .dying
  | none => s

def reap : Sched :=
  { s with dead := [], all := s.all.filter fun t => t ∉ s.dead }

/-- The sleepers whose time has come go to the queue. -/
def wakeSleepers (now : Nat) : Sched :=
  let due := fun t => decide ((s.threads t).wakeAt ≤ now)
  { s with
    threads := fun t =>
      if t ∈ s.sleepers ∧ due t = true then { s.threads t with state := .ready } else s.threads t,
    sleepers := s.sleepers.filter fun t => !due t,
    runQueue := s.runQueue ++ s.sleepers.filter due }

/-- `on_tick`; `edge` says that a millisecond is full. -/
def onTick (looks : TickLooks) (ci : Cpu) (now : Nat) (edge : Bool) : Sched :=
  let s := s.wakeSleepers now
  match s.running ci with
  | none => s
  | some cur =>
    let s := if edge then
        s.setThread cur fun th => { th with quantumLeft := th.quantumLeft - 1 }
      else s
    let expired := (s.threads cur).quantumLeft == 0
    let hasWork := s.runQueue.any (s.allowedOn looks.work ci)
    let normalWaiting := (s.threads cur).prio == 1 && s.normalReady looks.normal ci
    let overBudget := (s.threads cur).process.isSome && looks.current
    if overBudget && !(s.threads cur).isIdle then s.schedule looks.pick ci .ready
    else if hasWork && ((s.threads cur).isIdle || expired || normalWaiting) then
      s.schedule looks.pick ci .ready
    else s

def onReschedIpi (looks : IpiLooks) (ci : Cpu) : Sched :=
  match s.running ci with
  | none => s
  | some cur =>
    if ((s.threads cur).isIdle && s.runQueue.any (s.allowedOn looks.work ci)) ||
        ((s.threads cur).prio == 1 && s.normalReady looks.normal ci) then
      s.schedule looks.pick ci .ready
    else s

/-! ## Steps -/

inductive Act where
  | spawn (ci : Cpu) (mask : Nat) (process : Option Pid)
  | apIdleLoop (ci : Cpu)
  | yieldNow (looks : PickLooks) (ci : Cpu)
  | sleep (looks : PickLooks) (ci : Cpu) (wakeAt : Nat)
  | park (looks : PickLooks) (ci : Cpu)
  | unpark (t : Tid)
  | join (looks : PickLooks) (ci : Cpu) (t : Tid)
  | exit (looks : PickLooks) (ci : Cpu)
  | reap
  | onTick (looks : TickLooks) (ci : Cpu) (now : Nat) (edge : Bool)
  | onReschedIpi (looks : IpiLooks) (ci : Cpu)
  | setAffinity (t : Tid) (mask : Nat)
  | setPriority (t : Tid) (prio : Nat)

/-- A section under the lock of the scheduler. -/
def act : Act → Sched
  | .spawn ci mask process => s.spawn ci mask process
  | .apIdleLoop ci => if s.running ci = none ∧ s.idle ci = none then s.apIdleLoop ci else s
  | .yieldNow looks ci => s.schedule looks ci .ready
  | .sleep looks ci wakeAt => s.sleep looks ci wakeAt
  | .park looks ci => s.park looks ci
  | .unpark t => s.unpark t
  | .join looks ci t => s.join looks ci t
  | .exit looks ci => s.exit looks ci
  | .reap => s.reap
  | .onTick looks ci now edge => s.onTick looks ci now edge
  | .onReschedIpi looks ci => s.onReschedIpi looks ci
  | .setAffinity t mask =>
    if mask ≠ 0 ∧ t ∈ s.all then s.setThread t fun th => { th with affinity := mask } else s
  | .setPriority t prio =>
    if prio ≤ 1 ∧ t ∈ s.all then s.setThread t fun th => { th with prio } else s

/-- A CPU takes the lock for a section, or the CPU in the middle of a switch
goes on; who finds the lock taken spins. -/
inductive Step where
  | act (a : Act)
  | finish

def step : Step → Sched
  | .act a => if s.lock = none then s.act a else s
  | .finish =>
    match s.lock with
    | some ci => s.finishSwitch ci
    | none => s

def run (steps : List Step) : Sched := steps.foldl step s

/-- `init`: the boot context is thread 1, the idle thread of CPU 0 is thread
2. -/
def init : Sched :=
  { threads := fun t =>
      if t = 1 then { newThread false with state := .running, affinity := 1 }
      else newThread (t == 2),
    nextId := 3,
    runQueue := [], sleepers := [], dead := [], all := [1, 2],
    running := fun ci => if ci = 0 then some 1 else none,
    idle := fun ci => if ci = 0 then some 2 else none,
    prevForFinish := fun _ => none,
    lock := none }

end Sched
end NexoOS.Kernel.RunQueue
