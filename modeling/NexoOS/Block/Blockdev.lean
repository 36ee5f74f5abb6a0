import NexoOS.Block.Pending
import NexoOS.Block.SplitQueue

/-!
# The VirtIO block driver

The event loop of `services/blockdev/src/main.rs` with the device and the
client at the other ends of its queues. The loop is cut where the outside
can act: one look at the used ring, one reply, one receive. Between any two
of these the client may send and the device may take a chain, complete one
of those it has taken, or raise its interrupt.

The model begins where the loop does, with the queue as `setup` leaves it
when `GET_ID`, its one request, has been answered.
-/

namespace NexoOS.Block.Blockdev

open Function

/-- Where a descriptor points: the request header or the status byte on the
slot's first page, or its data page. -/
inductive Addr where
  | header (slot : Nat)
  | data (slot : Nat)
  | status (slot : Nat)
deriving DecidableEq, Repr

structure BlkReq where
  kind : Nat
  sector : Nat
deriving DecidableEq, Repr

/-- What `setup` finds, and the argument of the process. -/
structure Config where
  capacity : Nat
  readOnly : Bool
  serial : List UInt8
  /-- The queue has `2 ^ sizeLog` descriptors. -/
  sizeLog : Nat
  sizeLog_le : sizeLog ≤ 6
  /-- Interrupts are set up; without them the driver polls. -/
  irq : Bool
  crashAfter : Nat

/-- Why the process has ended. -/
inductive Exit where
  /-- The client closed the channel. -/
  | closed
  /-- `fail(20, "recv")`. -/
  | recv
  /-- `crash_after` requests have been served. -/
  | crash
  /-- An assertion or an array bound. -/
  | panic
deriving DecidableEq, Repr

/-- Where in its loop the driver is. -/
inductive Pc where
  | reap | deliver | receive | wait
deriving DecidableEq, Repr

/-- The device's own state. -/
structure Device where
  disk : Disk
  /-- Its index into the available ring. -/
  lastAvail : Nat
  /-- Chains it has taken and not completed. -/
  taken : List Nat
  /-- Interrupts so far, and whether it owes one. -/
  irqs : Nat
  irqDue : Bool

/-- The DMA pages of the slots. -/
structure Memory where
  header : Nat → BlkReq
  status : Nat → Nat
  data : Nat → Nat → UInt8

structure State where
  q : SplitQueue Addr
  mem : Memory
  table : Table
  done : Nat → Bool
  irqSeen : Nat
  served : Nat
  pc : Pc
  exit : Option Exit
  dev : Device
  chan : Chan

variable (cfg : Config)

/-- The queue after `GET_ID` has come back. -/
def startQueue : SplitQueue Addr where
  size := 2 ^ cfg.sizeLog
  desc := fun _ => { addr := .header 0, len := 0, flags := 0, next := 0 }
  availRing := fun _ => 0
  availShared := 1
  usedRing := fun _ => (0, 0)
  usedShared := 1
  availIdx := 1
  usedIdx := 1

def start (disk : Disk) : State where
  q := startQueue cfg
  mem :=
    { header := fun _ => { kind := 0, sector := 0 }, status := fun _ => 0, data := fun _ _ => 0 }
  table := Table.start
  done := fun _ => false
  irqSeen := 0
  served := 0
  pc := .reap
  exit := none
  dev := { disk, lastAvail := 1, taken := [], irqs := 0, irqDue := false }
  chan := Chan.start

/-! ## Requests -/

/-- `rq.sector + rq.count as u64 > dev.capacity`, where the sum wraps. -/
def pastCapacity (sector count : Nat) : Prop :=
  (sector + count) % 2 ^ 64 > cfg.capacity

instance (cfg : Config) (sector count : Nat) : Decidable (pastCapacity cfg sector count) :=
  inferInstanceAs (Decidable (_ > _))

/-- What the driver makes of a message. -/
def plan : Except ProtoError Request → Plan
  | .error _ => .reply (.error 0 1)
  | .ok .capacity => .reply (.capacity cfg.capacity)
  | .ok .identity => .reply (.identity cfg.readOnly cfg.serial)
  | .ok (.read sector count) =>
    if count = 0 ∨ count > maxSectors ∨ pastCapacity cfg sector count then
      .reply (.error readMethod 2)
    else .io { write := false, sector, count, data := [] }
  | .ok (.write sector count data) =>
    if cfg.readOnly then .reply (.error writeMethod 4)
    else if count = 0 ∨ count > maxSectors ∨ pastCapacity cfg sector count then
      .reply (.error writeMethod 2)
    else if data.length < count * sectorSize then .reply (.error writeMethod 3)
    else .io { write := true, sector, count, data }

/-- The three descriptors of a slot. `none` is the assertion in `set_desc`. -/
def chainSlot (q : SplitQueue Addr) (slot : Nat) (write : Bool) (count : Nat) :
    Option (SplitQueue Addr) := do
  let base := 3 * slot
  let q ← q.setDesc base
    { addr := .header slot, len := 16, flags := descNext, next := base + 1 }
  let q ← q.setDesc (base + 1)
    { addr := .data slot, len := count * sectorSize,
      flags := descNext + (if write then 0 else descWrite), next := base + 2 }
  q.setDesc (base + 2) { addr := .status slot, len := 1, flags := descWrite, next := 0 }

namespace Memory

/-- The request header, and the status byte that the device will overwrite. -/
def request (mem : Memory) (slot : Nat) (write : Bool) (sector : Nat) : Memory :=
  { mem with
    header := update mem.header slot { kind := if write then 1 else 0, sector }
    status := update mem.status slot 0xff }

/-- A write is copied to the slot's data page before it is submitted. -/
def loadPage (mem : Memory) (slot : Nat) (c : Command) : Memory :=
  if c.write then
    { mem with
      data := update mem.data slot (splice (mem.data slot) 0 c.bytes (bufOf c.data)) }
  else mem

end Memory

namespace State

variable (s : State)

def submitSlot (slot : Nat) (write : Bool) (sector count : Nat) : Option State :=
  match chainSlot s.q slot write count with
  | none => none
  | some q => some { s with mem := s.mem.request slot write sector, q := q.submit (3 * slot) }

/-- The table with a new entry; `order[order_len]` is checked against the
length of the array. -/
def setTable (t : Table) : State :=
  if s.table.order.length ≥ slots then { s with exit := some .panic } else { s with table := t }

/-- A request goes into place `idx`. -/
def accept (idx : Nat) : Plan → State
  | .reply r => s.setTable (s.table.pushReady idx r)
  | .io c =>
    let slot := s.table.freeSlot.getD 0
    match ({ s with mem := s.mem.loadPage slot c }).submitSlot slot c.write c.sector c.count with
    | none => { s with exit := some .panic }
    | some s => s.setTable (s.table.pushIo idx slot c.write c.bytes)

/-- What follows a successful receive. -/
def handle (s : State) (m : Message) : State :=
  match s.table.freeIdx with
  -- no free place: the message in `buf` is forgotten
  | none => s
  | some idx =>
    match decodeRequest m.data with
    | .error e => s.accept idx (plan cfg (.error e))
    | .ok rq =>
      let s := { s with served := s.served + 1 }
      if cfg.crashAfter ≠ 0 ∧ s.served > cfg.crashAfter then { s with exit := some .crash }
      else s.accept idx (plan cfg (.ok rq))

/-! ## The loop -/

/-- The completion of a chain marks its slot. -/
def reap : State :=
  match s.q.popUsed with
  | none => { s with pc := .deliver }
  | some ((id, _), q) =>
    { s with q, done := if id / 3 < slots then update s.done (id / 3) true else s.done }

/-- The reply that the first of the order has for sending. -/
def headReply : Option (Nat × Option Nat × Reply) :=
  match s.table.order with
  | [] => none
  | idx :: _ =>
    match s.table.pending idx with
    | some .ready => some (idx, none, s.table.readyBuf idx)
    | some (.io slot write len) =>
      if s.done slot then some (idx, some slot, ioReply write len (s.mem.status slot) (s.mem.data slot))
      else none
    | none => none

def deliver : State :=
  match s.headReply with
  | none => { s with pc := .receive }
  | some (idx, none, r) => { s with table := s.table.pop idx, chan := s.chan.reply r }
  | some (idx, some slot, r) =>
    { s with
      table := (s.table.pop idx).freeSlotOf slot
      done := update s.done slot false
      chan := s.chan.reply r }

/-- The receive blocks when nothing waits for an answer. -/
def receive (s : State) : State :=
  match s.chan.tryRecv with
  | (.ok m, chan) => { ({ s with chan }).handle cfg m with pc := .reap }
  | (.wouldBlock, _) => if s.table.order ≠ [] then { s with pc := .wait } else s
  | (.peerClosed, _) => { s with exit := some .closed }
  | (.failed, chan) => { s with chan, exit := some .recv }

/-- `irq_wait` returns when there has been an interrupt since the last time. -/
def waitIrq (s : State) : State :=
  if cfg.irq then
    if s.dev.irqs > s.irqSeen then { s with irqSeen := s.dev.irqs, pc := .reap } else s
  else { s with pc := .reap }

def drive (s : State) : State :=
  if s.exit ≠ none then s
  else
    match s.pc with
    | .reap => s.reap
    | .deliver => s.deliver
    | .receive => s.receive cfg
    | .wait => s.waitIrq cfg

variable {cfg}

/-! ## The device -/

end State

namespace Memory

variable (mem : Memory)

def headerAt : Addr → BlkReq
  | .header k => mem.header k
  | _ => { kind := 0, sector := 0 }

def pageAt : Addr → Nat → UInt8
  | .data k => mem.data k
  | _ => fun _ => 0

def setPage (page : Nat → UInt8) : Addr → Memory
  | .data k => { mem with data := update mem.data k page }
  | _ => mem

def setStatus (st : Nat) : Addr → Memory
  | .status k => { mem with status := update mem.status k st }
  | _ => mem

end Memory

/-- The device carries out the chain at `head`, as its descriptors say at
that moment. One that fails may have transferred anything. -/
def execute (desc : Nat → Desc Addr) (mem : Memory) (disk : Disk) (head st : Nat)
    (junk : Nat → UInt8) : Memory × Disk :=
  let d₀ := desc head
  let d₁ := desc d₀.next
  let d₂ := desc d₁.next
  let rq := mem.headerAt d₀.addr
  let off := rq.sector * sectorSize
  if rq.kind = 1 then
    let page := if st = 0 then mem.pageAt d₁.addr else junk
    (mem.setStatus st d₂.addr, splice disk off d₁.len page)
  else
    let src := if st = 0 then window disk off else junk
    ((mem.setPage (splice (mem.pageAt d₁.addr) 0 d₁.len src) d₁.addr).setStatus st d₂.addr, disk)

namespace State

/-- The device takes a chain. -/
def take (s : State) : State :=
  match s.q.takeAvail s.dev.lastAvail with
  | none => s
  | some (head, last) =>
    { s with dev := { s.dev with lastAvail := last, taken := s.dev.taken ++ [head] } }

/-- The device completes the `k`-th of the chains it has taken. -/
def complete (s : State) (k st len : Nat) (junk : Nat → UInt8) : State :=
  match s.dev.taken[k]? with
  | none => s
  | some head =>
    let (mem, disk) := execute s.q.desc s.mem s.dev.disk head st junk
    { s with
      mem
      q := s.q.publish head len
      dev := { s.dev with disk, taken := s.dev.taken.eraseIdx k, irqDue := true } }

end State

inductive Event where
  | send (m : Message)
  | close
  | take
  | complete (k st len : Nat) (junk : Nat → UInt8)
  | interrupt
  | drive

def State.step (cfg : Config) (s : State) : Event → State
  | .send m => if s.exit ≠ none then s else { s with chan := s.chan.send m }
  | .close => { s with chan := { s.chan with closed := true } }
  | .take => s.take
  | .complete k st len junk => s.complete k st len junk
  | .interrupt => { s with dev := { s.dev with irqs := s.dev.irqs + 1, irqDue := false } }
  | .drive => s.drive cfg

def run (cfg : Config) (disk : Disk) (evs : List Event) : State :=
  evs.foldl (State.step cfg) (start cfg disk)

end NexoOS.Block.Blockdev
