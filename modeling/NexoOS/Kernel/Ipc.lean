import NexoOS.Kernel.Frames

/-!
# Kernel objects, handles and channels

The objects of `kernel/src/ipc.rs` as far as their lifetime goes. An `Arc`
is a handle in a table, in a queued message or in the hands of a running
system call; an object is dropped when the last of them goes. Reference
counts are therefore not stored: they are the occurrences of the object in
`KState.handles` and in the list of handles being dropped.
-/

namespace NexoOS.Kernel

inductive Status where
  | ok
  | invalidArgs
  | badAddress
  | noMemory
  | denied
  | peerClosed
  | badHandle
  | wouldBlock
  | tooBig
  | queueFull
  | notFound
  deriving DecidableEq, Repr

def rightRead : UInt32 := 1
def rightWrite : UInt32 := 2
def rightTransfer : UInt32 := 4
def rightDuplicate : UInt32 := 8
def rightMap : UInt32 := 32
def rightsChannelDefault : UInt32 := rightRead ||| rightWrite ||| rightTransfer ||| rightDuplicate
def rightsMemoryDefault : UInt32 :=
  rightRead ||| rightWrite ||| rightMap ||| rightTransfer ||| rightDuplicate

def handlesMax : Nat := 256
def channelQueueMax : Nat := 64
def msgMax : Nat := 4096
def msgHandlesMax : Nat := 8
def memoryMaxPages : Nat := 256
def shmPagesMaxPerProcess : Nat := 4096

/-! ## Objects and handles -/

/-- What a handle refers to; a channel end is a channel and a side. -/
inductive Object where
  | channel (c : Nat) (side : Bool)
  | process (pid : Nat)
  | device (grant : Nat)
  | memory (o : Nat)
  | job (j : Nat)
  | thread (t : Nat)
  | debug
  | event (e : Nat)
  deriving DecidableEq

structure Handle where
  object : Object
  rights : UInt32
  deriving DecidableEq

/-- `rights.contains(r)`. -/
def Handle.contains (h : Handle) (r : UInt32) : Bool := h.rights &&& r == r

/-- The wanted rights are a subset. -/
def Handle.isSupersetOf (h : Handle) (wanted : UInt32) : Bool := wanted &&& ~~~h.rights == 0

abbrev HandleTable := List (Option Handle)

namespace HandleTable

variable (t : HandleTable)

/-- The first free slot, or a new one below the limit. -/
def insert (h : Handle) : Except Status (Nat × HandleTable) :=
  match t.findIdx? Option.isNone with
  | some i => .ok (i, t.set i (some h))
  | none =>
    if t.length ≥ handlesMax then .error .noMemory
    else .ok (t.length, t ++ [some h])

def get (i : Nat) : Except Status Handle :=
  match t[i]? with
  | some (some h) => .ok h
  | _ => .error .badHandle

def take (i : Nat) : Except Status (Handle × HandleTable) :=
  match t.get i with
  | .ok h => .ok (h, t.set i none)
  | .error e => .error e

/-- The handles in use. -/
def live : List Handle := t.filterMap id

end HandleTable

structure Message where
  data : List UInt8
  handles : List Handle

/-- The two queues of a channel, by the side that reads them. -/
structure Channel where
  queue : Bool → List Message
  closed : Bool → Bool

/-- Shareable memory: it owns its frames and gives them back when it is
dropped. -/
structure MemoryObject where
  frames : List Frame
  len : Nat
  owner : Nat

/-- `deviceNext` is the next free page of the region for shared mappings;
`reaped` says that the address space itself is gone. -/
structure Process where
  handles : HandleTable
  space : AddressSpace
  shmPages : Nat
  deviceNext : Nat
  exited : Bool
  reaped : Bool

/-- Processes, channels and memory objects by index; a dropped memory object
leaves `none`. -/
structure KState where
  alloc : FrameAllocator
  procs : List Process
  chans : List Channel
  mems : List (Option MemoryObject)

namespace Channel

def queued (c : Channel) (side : Bool) : List Handle := (c.queue side).flatMap Message.handles

def handles (c : Channel) : List Handle := c.queued false ++ c.queued true

end Channel

namespace KState

variable (k : KState)

def queueHandles : List Handle := k.chans.flatMap Channel.handles

/-- Every handle in a table or a queue. -/
def handles : List Handle :=
  k.procs.flatMap (fun p => p.handles.live) ++ k.queueHandles

def Referenced (x : Object) : Prop := ∃ h ∈ k.handles, h.object = x

instance (k : KState) (x : Object) : Decidable (k.Referenced x) :=
  inferInstanceAs (Decidable (∃ h ∈ _, _))

def setProc (pid : Nat) (p : Process) : KState :=
  { k with procs := k.procs.set pid p }

def setChan (c : Nat) (ch : Channel) : KState :=
  { k with chans := k.chans.set c ch }

/-! ## Dropping handles -/

/-- `MemoryObject::drop`: the creator's quota and the frames come back. -/
def dropMemory (o : Nat) : KState :=
  match k.mems[o]? with
  | some (some m) =>
    { k with
      alloc := k.alloc.freeAll m.frames,
      procs := k.procs.modify m.owner fun p =>
        if p.reaped then p else { p with shmPages := p.shmPages - m.len / pageSize },
      mems := k.mems.set o none }
  | _ => k

/-- `ChannelEnd::close`: the first time, the end is marked and its queue is
taken; the handles of the discarded messages are returned. -/
def closeEnd (c : Nat) (side : Bool) : KState × List Handle :=
  match k.chans[c]? with
  | some ch =>
    if ch.closed side then (k, [])
    else
      (k.setChan c
        { queue := Function.update ch.queue side [],
          closed := Function.update ch.closed side true },
        ch.queued side)
  | none => (k, [])

theorem queueHandles_set {k : KState} {c : Nat} {ch : Channel} (h : k.chans[c]? = some ch)
    (ch' : Channel) : (k.setChan c ch').queueHandles.length + ch.handles.length =
      k.queueHandles.length + ch'.handles.length := by
  obtain ⟨hc, he⟩ := List.getElem?_eq_some_iff.mp h
  have hsplit := List.set_eq_take_append_cons_drop (l := k.chans) (i := c) (a := ch')
  have hold : k.chans = k.chans.take c ++ ch :: k.chans.drop (c + 1) := by
    rw [← he, ← List.drop_eq_getElem_cons hc, List.take_append_drop]
  rw [if_pos hc] at hsplit
  show ((k.chans.set c ch').flatMap Channel.handles).length + _ =
    (k.chans.flatMap Channel.handles).length + _
  rw [hsplit]
  conv_rhs => rw [hold]
  simp only [List.flatMap_append, List.flatMap_cons, List.length_append]
  omega

/-- Closing an end moves the handles of its queue into the caller's hands. -/
theorem closeEnd_length (c : Nat) (side : Bool) :
    (k.closeEnd c side).1.queueHandles.length + (k.closeEnd c side).2.length =
      k.queueHandles.length := by
  rw [closeEnd]
  split
  · rename_i ch hch
    split
    · rfl
    have := queueHandles_set hch
      { queue := Function.update ch.queue side [], closed := Function.update ch.closed side true }
    cases side <;> simp_all [Channel.handles, Channel.queued] <;> omega
  · rfl

theorem queueHandles_dropMemory (o : Nat) : (k.dropMemory o).queueHandles = k.queueHandles := by
  rw [dropMemory]
  split <;> rfl

/-- Drop handles one after the other: the last handle of an object drops the
object, and a dropped channel end drops the messages of its queue first. -/
def dropAll (k : KState) (work : List Handle) : KState :=
  match work with
  | [] => k
  | h :: work =>
    if h.object ∈ (k.handles ++ work).map Handle.object then k.dropAll work
    else
      match h.object with
      | .memory o => (k.dropMemory o).dropAll work
      | .channel c side => (k.closeEnd c side).1.dropAll ((k.closeEnd c side).2 ++ work)
      | _ => k.dropAll work
termination_by k.queueHandles.length + work.length
decreasing_by
  · simp
  · rw [queueHandles_dropMemory]
    simp
  · have := k.closeEnd_length c side
    simp only [List.length_append, List.length_cons]
    omega
  · simp

/-! ## The collector

`collect_unreachable` as one step: what the marking sees when nothing is in
flight. -/

abbrev End := Nat × Bool

def endsOf (hs : List Handle) : List End :=
  hs.filterMap fun h => match h.object with
    | .channel c side => some (c, side)
    | _ => none

/-- `root`: an end not yet marked is marked and put on the work list. -/
def addRoot (st : List End × List End) (e : End) : List End × List End :=
  if e ∈ st.1 then st else (e :: st.1, e :: st.2)

def queuedEnds (e : End) : List End :=
  match k.chans[e.1]? with
  | some ch => endsOf (ch.queued e.2)
  | none => []

/-- Follow the queues of the ends on the work list. An end is put there at
most once, so twice the number of channels is enough fuel. -/
def markLoop (k : KState) : Nat → List End × List End → List End
  | 0, st => st.1
  | _ + 1, (marked, []) => marked
  | n + 1, (marked, e :: work) => k.markLoop n ((k.queuedEnds e).foldl addRoot (marked, work))

/-- Ends reachable from the tables of the live processes. -/
def marked : List End :=
  k.markLoop (2 * k.chans.length + 1)
    ((endsOf ((k.procs.filter fun p => !p.exited).flatMap fun p => p.handles.live)).foldl
      addRoot ([], []))

/-- Close an end and drop what its queue held. -/
def closeAndDrop (e : End) : KState :=
  (k.closeEnd e.1 e.2).1.dropAll (k.closeEnd e.1 e.2).2

def collectUnreachable : KState :=
  let marked := k.marked
  ((List.range k.chans.length).flatMap fun c => [(c, false), (c, true)]).foldl
    (fun k e => if e ∈ marked then k else k.closeAndDrop e) k

end KState
end NexoOS.Kernel
