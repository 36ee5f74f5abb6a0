import NexoOS.Kernel.Capability

/-!
# Interrupt vectors of user drivers

`kernel/src/irq.rs` and the calls on device grants that reach it. A vector is
taken by `irq_alloc` for a grant and given back when the grant is dropped; its
counter, its waiting threads and the channels attached to it are kept in
tables of their own, by vector.

`on_interrupt` runs in two steps, the count and then the delivery to channels
and waiting threads, since the handler of one CPU may be overtaken by calls on
another. For each interrupt the state remembers which grants held the vector
when it came; nothing in the kernel reads that.
-/

namespace NexoOS.Kernel

def rightSignal : UInt32 := 16
def rightsDeviceDefault : UInt32 :=
  rightRead ||| rightWrite ||| rightMap ||| rightSignal ||| rightTransfer ||| rightDuplicate

def userVectorBase : Nat := 0x50
def userVectors : Nat := 32

def isUserVector (v : Nat) : Bool := userVectorBase ≤ v && v < userVectorBase + userVectors

def userVectorList : List Nat := (List.range userVectors).map (userVectorBase + ·)

/-- An interrupt that came: the grants that held its vector then. -/
abbrev Fired := List Nat

/-- A channel made by `irq_channel`: the bytes waiting on the driver's side,
each standing for an interrupt, and who attached it to which vector through
which grant. -/
structure IrqChannel where
  queue : List Fired
  closed : Bool
  pid : Nat
  grant : Nat
  vector : Nat
  deriving DecidableEq

/-- Where a thread stands in `irq::wait(v, seen)`, called on a grant: about to
look at the counter, or parked. -/
inductive WaitPc where
  | user
  | looking (grant v seen : Nat)
  | parked (grant v seen : Nat)
  deriving DecidableEq

structure IrqThread where
  pid : Nat
  pc : WaitPc
  deriving DecidableEq

/-- Handle tables by process, threads, the vectors of each grant, and the
tables of `irq.rs`. `raised v` has one entry for each interrupt of `v`, so its
length is the counter of `v`; `since v` is the counter at the last allocation
of `v`. -/
structure IrqState where
  tables : List HandleTable
  threads : List IrqThread
  grants : List (List Nat)
  allocated : Nat → Bool
  waiters : List (Nat × Nat)
  attached : List (Nat × Nat)
  chans : List IrqChannel
  handlers : List (Nat × Fired)
  raised : Nat → List Fired
  since : Nat → Nat

/-- Process `pid` notices an interrupt of `vector` through a call that process
`caller` made on `grant`; `fired` are the grants that held the vector when the
interrupt came. -/
structure Observed where
  pid : Nat
  caller : Nat
  grant : Nat
  vector : Nat
  fired : Fired
  deriving DecidableEq

/-- The observer made the call itself, on a grant that held the vector. -/
def Observed.Own (o : Observed) : Prop := o.pid = o.caller ∧ o.grant ∈ o.fired

instance (o : Observed) : Decidable o.Own := inferInstanceAs (Decidable (_ ∧ _))

namespace IrqState

/-! ## Vectors -/

variable (s : IrqState)

def count (v : Nat) : Nat := (s.raised v).length

def holders (v : Nat) : Fired :=
  (List.range s.grants.length).filter fun g => v ∈ s.grants.getD g []

/-- `sched::unpark` for a thread blocked in `wait`. -/
def unpark (th : IrqThread) : IrqThread :=
  match th.pc with
  | .parked g v seen => { th with pc := .looking g v seen }
  | _ => th

/-- `on_interrupt_wake_only`. -/
def wake (v : Nat) : IrqState :=
  { s with
    waiters := s.waiters.filter fun w => w.1 ≠ v,
    threads := s.threads.mapIdx fun t th => if (v, t) ∈ s.waiters then unpark th else th }

/-- `free`: the counter and the attached channels stay. -/
def free (v : Nat) : IrqState :=
  if isUserVector v then wake { s with allocated := Function.update s.allocated v false } v else s

/-- `alloc`: the first vector that is not taken. -/
def alloc : Option Nat := userVectorList.find? fun v => !s.allocated v

/-- `on_interrupt` on one attached channel: a byte unless one is waiting, and
the channel is let go when the driver closed its end. -/
def notify (ch : IrqChannel) (e : Fired) : IrqChannel :=
  if ch.queue ≠ [] ∨ ch.closed = true then ch else { ch with queue := ch.queue ++ [e] }

def keepAttached (v : Nat) (a : Nat × Nat) : Bool :=
  a.1 ≠ v || match s.chans[a.2]? with
    | some ch => ch.queue ≠ [] || !ch.closed
    | none => false

/-- The first half of `on_interrupt`: the counter. -/
def raise (v : Nat) : IrqState :=
  { s with
    raised := Function.update s.raised v (s.raised v ++ [s.holders v]),
    handlers := s.handlers ++ [(v, s.holders v)] }

/-- The second half: the channels attached to the vector and the threads that
wait on it. -/
def deliver (i : Nat) : IrqState :=
  match s.handlers[i]? with
  | none => s
  | some (v, e) =>
    wake { s with
      handlers := s.handlers.eraseIdx i,
      chans := s.chans.mapIdx fun c ch => if (v, c) ∈ s.attached then notify ch e else ch,
      attached := s.attached.filter (s.keepAttached v) } v

/-! ## Handles -/

def deviceGrant (t : HandleTable) (h : Nat) (right : UInt32) : Except Status Nat :=
  match t.get h with
  | .error e => .error e
  | .ok hd =>
    match hd.object with
    | .device g => if hd.contains right then .ok g else .error .denied
    | _ => .error .invalidArgs

def referenced (x : Object) : Bool :=
  s.tables.any fun t => t.live.any fun h => h.object = x

/-- `DeviceGrant::drop`: every vector goes back. -/
def dropGrant (g : Nat) : IrqState :=
  (s.grants.getD g []).foldl free { s with grants := s.grants.set g [] }

/-- The driver's end of an interrupt channel is dropped. -/
def closeChannel (c : Nat) : IrqState :=
  { s with chans := s.chans.modify c fun ch => { ch with queue := [], closed := true } }

/-- A handle to `x` left the tables: with the last one the object goes. -/
def drop (x : Object) : IrqState :=
  if s.referenced x then s
  else
    match x with
    | .device g => s.dropGrant g
    | .channel c _ => s.closeChannel c
    | _ => s

variable (pid : Nat) (t : HandleTable)

def setTable : IrqState :=
  { s with tables := s.tables.set pid t }

/-- Put a handle into the table of `pid`; without room it is dropped. -/
def insertHandle (h : Handle) : IrqState :=
  match t.insert h with
  | .ok (_, t) => s.setTable pid t
  | .error _ => s.drop h.object

/-! ## Calls -/

/-- `device_open`; `found` says that the grant covers the device and that it
exists. -/
def sysDeviceOpen (h : Nat) (found : Bool) : IrqState :=
  match deviceGrant t h rightAdmin with
  | .error _ => s
  | .ok _ =>
    if found then
      insertHandle { s with grants := s.grants ++ [[]] } pid t
        { object := .device s.grants.length, rights := rightsDeviceDefault }
    else s

def sysIrqAlloc (h : Nat) : IrqState :=
  match deviceGrant t h rightSignal with
  | .error _ => s
  | .ok g =>
    match s.alloc with
    | none => s
    | some v =>
      { s with
        allocated := Function.update s.allocated v true,
        grants := s.grants.modify g (· ++ [v]),
        since := Function.update s.since v (s.count v) }

/-- `irq_channel` looks whether the vector is one of the grant's. -/
def sysIrqChannel (h v : Nat) : IrqState :=
  match deviceGrant t h rightSignal with
  | .error _ => s
  | .ok g =>
    if ¬ isUserVector v then s
    else if v ∉ s.grants.getD g [] then s
    else
      insertHandle
        { s with
          chans := s.chans ++ [{ queue := [], closed := false, pid, grant := g, vector := v }],
          attached := s.attached ++ [(v, s.chans.length)] }
        pid t { object := .channel s.chans.length true, rights := rightRead }

def setPc (i : Nat) (pc : WaitPc) : IrqState :=
  { s with threads := s.threads.modify i fun th => { th with pc } }

/-- `irq_wait` looks whether the handle is a grant and the vector a user
vector. -/
def sysIrqWait (i : Nat) (t : HandleTable) (h v seen : Nat) : IrqState :=
  match deviceGrant t h rightSignal with
  | .error _ => s
  | .ok g => if isUserVector v then s.setPc i (.looking g v seen) else s

/-- A round of the loop of `wait`: more interrupts than `seen` are reported,
otherwise the thread parks. -/
def look (i : Nat) (th : IrqThread) : IrqState × List Observed :=
  match th.pc with
  | .looking g v seen =>
    if s.count v > seen then
      (s.setPc i .user, ((s.raised v).drop seen).map fun e =>
        { pid := th.pid, caller := th.pid, grant := g, vector := v, fired := e })
    else ({ s.setPc i (.parked g v seen) with waiters := s.waiters ++ [(v, i)] }, [])
  | _ => (s, [])

/-- A receive on the driver's end of an interrupt channel. -/
def sysRecv (h : Nat) : IrqState × List Observed :=
  match t.get h with
  | .error _ => (s, [])
  | .ok hd =>
    if ¬ hd.contains rightRead then (s, [])
    else
      match hd.object with
      | .channel c _ =>
        match s.chans[c]? with
        | none => (s, [])
        | some ch =>
          match ch.queue with
          | [] => (s, [])
          | e :: rest =>
            ({ s with chans := s.chans.set c { ch with queue := rest } },
              [{ pid, caller := ch.pid, grant := ch.grant, vector := ch.vector, fired := e }])
      | _ => (s, [])

def sysHandleClose (h : Nat) : IrqState :=
  match t.take h with
  | .ok (hd, t) => (s.setTable pid t).drop hd.object
  | .error _ => s

def sysHandleDuplicate (h : Nat) (wanted : UInt32) : IrqState :=
  match t.get h with
  | .ok hd =>
    if ¬ hd.contains rightDuplicate ∨ ¬ hd.isSupersetOf wanted then s
    else s.insertHandle pid t { hd with rights := wanted }
  | .error _ => s

/-- A message carries a handle from one process to another. -/
def moveHandle (h : Nat) (dest : Nat) : IrqState :=
  match t.get h with
  | .error _ => s
  | .ok hd =>
    if ¬ hd.contains rightTransfer then s
    else
      let s := s.setTable pid (t.set h none)
      match s.tables[dest]? with
      | some t => s.insertHandle dest t hd
      | none => s.drop hd.object

/-! ## Steps -/

inductive IrqAct where
  | deviceOpen (pid h : Nat) (found : Bool)
  | irqAlloc (pid h : Nat)
  | irqChannel (pid h v : Nat)
  | irqWait (thread h v seen : Nat)
  | look (thread : Nat)
  | recv (pid h : Nat)
  | handleClose (pid h : Nat)
  | handleDuplicate (pid h : Nat) (wanted : UInt32)
  | move (pid h dest : Nat)
  | raise (v : Nat)
  | deliver (handler : Nat)

/-- A call of a process that exists, on its table. -/
def onTable (f : HandleTable → IrqState) : IrqState × List Observed :=
  match s.tables[pid]? with
  | some t => (f t, [])
  | none => (s, [])

def step : IrqAct → IrqState × List Observed
  | .deviceOpen pid h found => s.onTable pid fun t => s.sysDeviceOpen pid t h found
  | .irqAlloc pid h => s.onTable pid fun t => s.sysIrqAlloc t h
  | .irqChannel pid h v => s.onTable pid fun t => s.sysIrqChannel pid t h v
  | .irqWait i h v seen =>
    match s.threads[i]? with
    | some th =>
      if th.pc = .user then s.onTable th.pid fun t => s.sysIrqWait i t h v seen else (s, [])
    | none => (s, [])
  | .look i =>
    match s.threads[i]? with
    | some th => s.look i th
    | none => (s, [])
  | .recv pid h =>
    match s.tables[pid]? with
    | some t => s.sysRecv pid t h
    | none => (s, [])
  | .handleClose pid h => s.onTable pid fun t => s.sysHandleClose pid t h
  | .handleDuplicate pid h wanted => s.onTable pid fun t => s.sysHandleDuplicate pid t h wanted
  | .move pid h dest => s.onTable pid fun t => s.moveHandle pid t h dest
  | .raise v => if isUserVector v then (s.raise v, []) else (s, [])
  | .deliver i => (s.deliver i, [])

def run (acts : List IrqAct) : IrqState × List Observed := runLogged step s acts

/-- Processes that hold the given grants with the given rights, threads by
process, and no vector taken. -/
def boot (grants : Nat) (drivers : List (List (Nat × UInt32))) (threads : List Nat) : IrqState :=
  { tables := drivers.map fun d => d.map fun g => some { object := .device g.1, rights := g.2 },
    threads := threads.map fun pid => { pid, pc := .user },
    grants := List.replicate grants [],
    allocated := fun _ => false,
    waiters := [], attached := [], chans := [], handlers := [],
    raised := fun _ => [],
    since := fun _ => 0 }

end IrqState
end NexoOS.Kernel
