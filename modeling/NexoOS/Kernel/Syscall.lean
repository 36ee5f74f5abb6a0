import NexoOS.Kernel.Ipc

/-!
# System calls on memory, handles and channels

The calls of `kernel/src/x86/syscall.rs` that create, map, move and drop
memory handles, and the end of a process. Each is one step of the kernel;
what the caller's buffers may do to it (a copy that faults) is an argument
of the call.
-/

namespace NexoOS.Kernel
namespace KState

/-- New state, status and the value returned to the caller. -/
abbrev Outcome := KState × Status × Nat

/-! ## Memory objects -/

/-- Take `n` frames; when they run out, give back what was taken. -/
def allocFrames (a : FrameAllocator) : Nat → List Frame → FrameAllocator × Option (List Frame)
  | 0, got => (a, some got.reverse)
  | n + 1, got =>
    match a.allocate with
    | some (f, a') => allocFrames a' n (f :: got)
    | none => (a.freeAll got.reverse, none)

variable (k : KState) (pid : Nat) (p : Process)

/-- Put a handle into the table of `pid`; without room it is dropped. -/
def insertHandle (h : Handle) : Outcome :=
  match p.handles.insert h with
  | .ok (i, t) => (k.setProc pid { p with handles := t }, .ok, i)
  | .error e => (k.dropAll [h], e, 0)

def sysMemoryCreate (pages : Nat) : Outcome :=
  if pages = 0 ∨ pages > memoryMaxPages then (k, .invalidArgs, 0)
  else if p.shmPages + pages > shmPagesMaxPerProcess then (k, .noMemory, 0)
  else
    match allocFrames k.alloc pages [] with
    | (a, none) => ({ k with alloc := a }, .noMemory, 0)
    | (a, some frames) =>
      let p := { p with shmPages := p.shmPages + pages }
      let obj : MemoryObject := { frames, len := pages * pageSize, owner := pid }
      let k := { (k.setProc pid p) with alloc := a, mems := k.mems ++ [some obj] }
      k.insertHandle pid p
        { object := .memory (k.mems.length - 1), rights := rightsMemoryDefault }

/-- The pages mapped before a failure stay mapped. -/
def sysMemoryMap (h : Nat) : Outcome :=
  match p.handles.get h with
  | .error e => (k, e, 0)
  | .ok hd =>
    match hd.object with
    | .memory o =>
      if ¬ hd.contains rightMap then (k, .denied, 0)
      else
        match k.mems[o]? with
        | some (some m) =>
          let base := p.deviceNext
          let (space, a, ok) := p.space.mapAll k.alloc base m.frames
          ({ (k.setProc pid { p with space, deviceNext := base + m.len / pageSize }) with alloc := a },
            if ok then .ok else .noMemory, if ok then base * pageSize else 0)
        | _ => (k, .badHandle, 0)
    | _ => (k, .invalidArgs, 0)

def sysMemoryUnmap (base len : Nat) : Outcome :=
  if base = 0 ∨ len = 0 ∨ base % pageSize ≠ 0 ∨ len % pageSize ≠ 0 ∨
      base < userDeviceRegion ∨ base + len > userAddressLimit then (k, .invalidArgs, 0)
  else
    (k.setProc pid { p with space := p.space.unmapUserShared (base / pageSize) (len / pageSize) },
      .ok, 0)

/-! ## Handles -/

def sysHandleClose (h : Nat) : Outcome :=
  match p.handles.take h with
  | .ok (hd, t) => ((k.setProc pid { p with handles := t }).dropAll [hd], .ok, 0)
  | .error e => (k, e, 0)

/-- When the table is full the copy is dropped, which leaves the original. -/
def sysHandleDuplicate (h : Nat) (wanted : UInt32) : Outcome :=
  match p.handles.get h with
  | .ok hd =>
    if ¬ hd.contains rightDuplicate ∨ ¬ hd.isSupersetOf wanted then (k, .denied, 0)
    else k.insertHandle pid p { hd with rights := wanted }
  | .error e => (k, e, 0)

/-! ## Channels -/

/-- Both ends go into the caller's table; when the second does not fit, the
first is taken out again. -/
def sysChannelCreate : Outcome :=
  let c := k.chans.length
  let ha : Handle := { object := .channel c false, rights := rightsChannelDefault }
  let hb : Handle := { object := .channel c true, rights := rightsChannelDefault }
  let ch : Channel := { queue := fun _ => [], closed := fun _ => false }
  let k := { k with chans := k.chans ++ [ch] }
  match p.handles.insert ha with
  | .error e => (k.dropAll [ha, hb], e, 0)
  | .ok (ia, t) =>
    match HandleTable.insert t hb with
    | .ok (ib, t) => (k.setProc pid { p with handles := t }, .ok, ia + ib * 2 ^ 32)
    | .error e => (k.dropAll [ha, hb], e, 0)

/-- The checks of `channel_send` on the handles to move, in order. -/
def sendable (t : HandleTable) (c : Nat) (h : Nat) : List Nat → List Nat → Option Status
  | _, [] => none
  | seen, id :: ids =>
    if id = h ∨ id ∈ seen then some .invalidArgs
    else
      match t.get id with
      | .error e => some e
      | .ok hd =>
        if ¬ hd.contains rightTransfer then some .denied
        else if hd.object = .channel c false ∨ hd.object = .channel c true then some .invalidArgs
        else sendable t c h (seen ++ [id]) ids

/-- Take the handles `ids` out of a table. -/
def takeAll (t : HandleTable) : List Nat → Except Status (List Handle × HandleTable)
  | [] => .ok ([], t)
  | id :: ids =>
    match t.take id with
    | .error e => .error e
    | .ok (hd, t) =>
      match takeAll t ids with
      | .error e => .error e
      | .ok (hs, t) => .ok (hd :: hs, t)

/-- `ChannelEnd::send` on the end `(c, side)`; a refused message is dropped
with its handles. -/
def sendMessage (c : Nat) (side : Bool) (msg : Message) : KState × Status :=
  match k.chans[c]? with
  | none => (k.dropAll msg.handles, .badHandle)
  | some ch =>
    if ch.closed !side then (k.dropAll msg.handles, .peerClosed)
    else if (ch.queue !side).length ≥ channelQueueMax then (k.dropAll msg.handles, .queueFull)
    else
      (k.setChan c { ch with queue := Function.update ch.queue (!side) (ch.queue (!side) ++ [msg]) },
        .ok)

/-- `fault` says that copying the bytes or the numbers of the handles faults. -/
def sysChannelSend (h : Nat) (data : List UInt8) (ids : List Nat) (fault : Bool) : Outcome :=
  if data.length > msgMax ∨ ids.length > msgHandlesMax then (k, .tooBig, 0)
  else
    match p.handles.get h with
    | .error e => (k, e, 0)
    | .ok hd =>
      if ¬ hd.contains rightWrite then (k, .denied, 0)
      else
        match hd.object with
        | .channel c side =>
          if fault then (k, .badAddress, 0)
          else
            match sendable p.handles c h [] ids with
            | some e => (k, e, 0)
            | none =>
              match takeAll p.handles ids with
              | .error e => (k, e, 0)
              | .ok (moved, t) =>
                match (k.setProc pid { p with handles := t }).sendMessage c side
                  { data, handles := moved } with
                | (k, .ok) => (k, .ok, data.length)
                | (k, e) => (k, e, 0)
        | _ => (k, .invalidArgs, 0)

/-- Insert the received handles; at the first that does not fit, the rest
are dropped. -/
def insertAll (k : KState) (pid : Nat) (p : Process) : List Handle → KState × Status
  | [] => (k.setProc pid p, .ok)
  | h :: hs =>
    match p.handles.insert h with
    | .ok (_, t) => k.insertAll pid { p with handles := t } hs
    | .error e => ((k.setProc pid p).dropAll (h :: hs), e)

/-- `cap` and `hcap` are the caller's buffer sizes; `fault` says that the
copy of the bytes faults. A message that cannot be delivered is dropped. An
empty queue blocks or returns without a change. -/
def sysChannelRecv (h cap hcap : Nat) (fault : Bool) : Outcome :=
  match p.handles.get h with
  | .error e => (k, e, 0)
  | .ok hd =>
    if ¬ hd.contains rightRead then (k, .denied, 0)
    else
      match hd.object with
      | .channel c side =>
        match k.chans[c]? with
        | none => (k, .badHandle, 0)
        | some ch =>
          match ch.queue side with
          | [] => (k, if ch.closed !side then .peerClosed else .wouldBlock, 0)
          | msg :: rest =>
            let k := k.setChan c { ch with queue := Function.update ch.queue side rest }
            if msg.data.length > cap ∨ msg.handles.length > hcap then
              (k.dropAll msg.handles, .tooBig, msg.data.length + msg.handles.length * 2 ^ 32)
            else if fault then (k.dropAll msg.handles, .badAddress, 0)
            else
              match k.insertAll pid p msg.handles with
              | (k, .ok) => (k, .ok, msg.data.length + msg.handles.length * 2 ^ 32)
              | (k, e) => (k, e, 0)
      | _ => (k, .invalidArgs, 0)

/-! ## The end of a process -/

/-- `exit_current`: the table is emptied, then the collector runs. -/
def exitProcess : KState :=
  ((k.setProc pid { p with handles := [], exited := true }).dropAll p.handles.live).collectUnreachable

/-- The last `Arc` of an exited process: its address space is freed. -/
def reapProcess : KState :=
  { (k.setProc pid { p with reaped := true }) with
    alloc := (k.alloc.freeAll p.space.frames).free p.space.root }

/-! ## Steps -/

/-- A system call of process `pid`, or the reaping of an exited one. -/
inductive Call where
  | memoryCreate (pages : Nat)
  | memoryMap (h : Nat)
  | memoryUnmap (base len : Nat)
  | handleClose (h : Nat)
  | handleDuplicate (h : Nat) (wanted : UInt32)
  | channelCreate
  | channelSend (h : Nat) (data : List UInt8) (ids : List Nat) (fault : Bool)
  | channelRecv (h cap hcap : Nat) (fault : Bool)
  | exit
  | reap

/-- Calls are made by live processes; only an exited process is reaped, and
once. -/
def call : Call → Outcome
  | .memoryCreate pages => k.sysMemoryCreate pid p pages
  | .memoryMap h => k.sysMemoryMap pid p h
  | .memoryUnmap base len => k.sysMemoryUnmap pid p base len
  | .handleClose h => k.sysHandleClose pid p h
  | .handleDuplicate h wanted => k.sysHandleDuplicate pid p h wanted
  | .channelCreate => k.sysChannelCreate pid p
  | .channelSend h data ids fault => k.sysChannelSend pid p h data ids fault
  | .channelRecv h cap hcap fault => k.sysChannelRecv pid p h cap hcap fault
  | .exit => (k.exitProcess pid p, .ok, 0)
  | .reap => (k.reapProcess pid p, .ok, 0)

def enabled : Call → Bool
  | .reap => p.exited && !p.reaped
  | _ => !p.exited

/-- One step: process `pid` makes a call. -/
def step (c : Call) : KState :=
  match k.procs[pid]? with
  | some p => if enabled p c then (k.call pid p c).1 else k
  | none => k

def run (cs : List (Nat × Call)) : KState :=
  cs.foldl (fun k c => k.step c.1 c.2) k

end KState
end NexoOS.Kernel
