import NexoOS.Kernel.Memory
import NexoOS.Lib.Logged

/-!
# Capabilities

`job_create` and `process_spawn` beside the calls of `Syscall`, and what every
call can do to the handles of the system: take a handle away, put one with no
more rights beside it, move it into a queue or out of one, or hand out the
first handle of a new object.

The run keeps a log of how processes came by handles: a creating call gave
them, a message brought them, or they were there when the process started.
-/

namespace NexoOS.Kernel

def rightAdmin : UInt32 := 64
def rightsProcessDefault : UInt32 := rightRead ||| rightTransfer ||| rightDuplicate
def rightsJobDefault : UInt32 :=
  rightRead ||| rightWrite ||| rightTransfer ||| rightDuplicate ||| rightAdmin

/-! ## Rights -/

/-- `h` is a handle to the object of `g` with no right that `g` lacks. -/
def Handle.Under (h g : Handle) : Prop :=
  h.object = g.object ∧ g.isSupersetOf h.rights = true

instance (h g : Handle) : Decidable (h.Under g) := inferInstanceAs (Decidable (_ ∧ _))

theorem Handle.isSupersetOf_iff {g : Handle} {r : UInt32} : g.isSupersetOf r = true ↔
      ∀ i < 32, r.toBitVec.getLsbD i = true → g.rights.toBitVec.getLsbD i = true := by
  unfold isSupersetOf
  rw [beq_iff_eq, ← UInt32.toBitVec_inj]
  constructor
  · intro h i hi hr
    have hbit := congrArg (fun b => b.getLsbD i) h
    simp only [UInt32.toBitVec_and, UInt32.toBitVec_not, BitVec.getLsbD_and, BitVec.getLsbD_not,
      hr, hi, decide_true, Bool.true_and, UInt32.toBitVec_ofNat,
      BitVec.getLsbD_zero, Bool.not_eq_eq_eq_not, Bool.not_false] at hbit
    exact hbit
  · intro h
    apply BitVec.eq_of_getLsbD_eq
    intro i hi
    simp only [UInt32.toBitVec_and, UInt32.toBitVec_not, BitVec.getLsbD_and, BitVec.getLsbD_not,
      hi, decide_true, Bool.true_and, UInt32.toBitVec_ofNat, BitVec.getLsbD_zero]
    cases hr : r.toBitVec.getLsbD i with
    | false => rfl
    | true => simp [h i hi hr]

theorem Handle.Under.refl (h : Handle) : h.Under h :=
  ⟨rfl, isSupersetOf_iff.mpr fun _ _ hr => hr⟩

theorem Handle.Under.trans {h g f : Handle} (hg : h.Under g) (hf : g.Under f) : h.Under f :=
  ⟨hg.1.trans hf.1, isSupersetOf_iff.mpr fun i hi hr =>
    isSupersetOf_iff.mp hf.2 i hi (isSupersetOf_iff.mp hg.2 i hi hr)⟩

/-! ## Jobs and processes -/

/-- The kernel and the number of jobs created so far. -/
structure Caps where
  kernel : KState
  jobs : Nat

/-- What loading an image left: the child's address space, the allocator and
the start of the region for shared mappings. -/
structure Image where
  space : AddressSpace
  alloc : FrameAllocator
  deviceNext : Nat

/-- `NAME_MAX` of the initrd. -/
def nameMax : Nat := 32
def spawnMemMax : Nat := 2 * 1024 * 1024

/-- What a spawn is to run: the program of that name (`process_spawn`), or an ELF of so
many bytes in the caller's memory (`process_spawn_mem`). -/
inductive Program where
  | named (name : List UInt8)
  | elf (len : Nat)

/-- The size that the call refuses. -/
def Program.tooBig : Program → Bool
  | .named name => name.length > nameMax
  | .elf len => len = 0 ∨ len > spawnMemMax

/-- `from_utf8` of the name succeeds. -/
def Program.readable : Program → Bool
  | .named name => (ByteArray.mk name.toArray).validateUTF8
  | .elf _ => true

def Program.failed : Program → Status
  | .named _ => .notFound
  | .elf _ => .invalidArgs

/-- The arguments of a spawn. Copying the name or the ELF faults, or copying the numbers
of the handles does. -/
structure SpawnArgs where
  program : Program
  programFault : Bool
  ids : List Nat
  idsFault : Bool

inductive CapCall where
  | sys (c : KState.Call)
  | jobCreate
  | processSpawn (a : SpawnArgs) (image : Option Image)

namespace Caps
open KState

abbrev Outcome := Caps × Status × Nat

variable (s : Caps)

def sysJobCreate (pid : Nat) (p : Process) : Outcome :=
  let (k, st, v) := s.kernel.insertHandle pid p { object := .job s.jobs, rights := rightsJobDefault }
  ({ kernel := k, jobs := s.jobs + 1 }, st, v)

/-- The checks of `take_spawn_handles`, in order. -/
def spawnable (t : HandleTable) : List Nat → List Nat → Option Status
  | _, [] => none
  | seen, id :: ids =>
    if id ∈ seen then some .invalidArgs
    else
      match t.get id with
      | .error e => some e
      | .ok hd =>
        if ¬ hd.contains rightTransfer then some .denied
        else spawnable t (seen ++ [id]) ids

/-- The child's table: the handles in order, from index 0. -/
def fillTable (t : HandleTable) : List Handle → Except Status HandleTable
  | [] => .ok t
  | h :: hs =>
    match t.insert h with
    | .ok (_, t) => fillTable t hs
    | .error e => .error e

/-- `process_spawn` and `process_spawn_mem`. The moved handles are dropped when there is
no image: no such program, or it cannot be loaded. When the caller has no room for the
handle of the child, the child runs all the same. -/
def sysProcessSpawn (pid : Nat) (p : Process) (a : SpawnArgs) (image : Option Image) : Outcome :=
  if a.program.tooBig ∨ a.ids.length > msgHandlesMax then (s, .tooBig, 0)
  else if a.programFault then (s, .badAddress, 0)
  else if ¬ a.program.readable then (s, .invalidArgs, 0)
  else if a.idsFault then (s, .badAddress, 0)
  else
    match spawnable p.handles [] a.ids with
    | some e => (s, e, 0)
    | none =>
      match takeAll p.handles a.ids with
      | .error e => (s, e, 0)
      | .ok (moved, t) =>
        let p := { p with handles := t }
        let k := s.kernel.setProc pid p
        match image with
        | none => ({ s with kernel := k.dropAll moved }, a.program.failed, 0)
        | some im =>
          match fillTable [] moved with
          | .error _ => ({ s with kernel := k.dropAll moved }, a.program.failed, 0)
          | .ok table =>
            let child : Process := {
              handles := table, space := im.space, shmPages := 0, deviceNext := im.deviceNext,
              exited := false, reaped := false }
            let k := { k with alloc := im.alloc, procs := k.procs ++ [child] }
            let (k, st, v) := k.insertHandle pid p
              { object := .process s.kernel.procs.length, rights := rightsProcessDefault }
            ({ s with kernel := k }, st, v)

def call (pid : Nat) (p : Process) : CapCall → Outcome
  | .sys c =>
    let (k, st, v) := s.kernel.call pid p c
    ({ s with kernel := k }, st, v)
  | .jobCreate => s.sysJobCreate pid p
  | .processSpawn a image => s.sysProcessSpawn pid p a image

/-- Who may make the call, as for `KState.enabled`. -/
def enabled (p : Process) : CapCall → Bool
  | .sys c => KState.enabled p c
  | _ => !p.exited

/-! ## How processes come by handles -/

/-- The object exists. Devices, threads, events and the debug object are not
created by these calls. -/
def Known : Object → Prop
  | .channel c _ => c < s.kernel.chans.length
  | .process pid => pid < s.kernel.procs.length
  | .memory o => o < s.kernel.mems.length
  | .job j => j < s.jobs
  | .device _ | .thread _ | .debug | .event _ => True

instance (s : Caps) : (x : Object) → Decidable (s.Known x)
  | .channel c _ => inferInstanceAs (Decidable (c < _))
  | .process pid => inferInstanceAs (Decidable (pid < _))
  | .memory o => inferInstanceAs (Decidable (o < _))
  | .job j => inferInstanceAs (Decidable (j < _))
  | .device _ | .thread _ | .debug | .event _ => inferInstanceAs (Decidable True)

/-- Process `pid` came by handle `h`: a call of its own created the object and
gave it the handle, a message it took off a queue carried the handle, or the
process was spawned with it. -/
inductive Gift where
  | created (pid : Nat) (h : Handle)
  | sent (pid : Nat) (h : Handle)
  | spawned (pid : Nat) (h : Handle)
  deriving DecidableEq

def Gift.To (g : Gift) (pid : Nat) (x : Object) : Prop :=
  match g with
  | .created i h | .sent i h | .spawned i h => i = pid ∧ h.object = x

/-- The handles in a table of the state after a creating call whose object did
not exist before it. -/
def createdIn (s s' : Caps) (pid : Nat) : List Gift :=
  match s'.kernel.procs[pid]? with
  | some p => (p.handles.live.filter fun h => ¬ s.Known h.object).map (.created pid)
  | none => []

/-- The handles of the message a receive of `p` on handle `h` takes off the
queue. -/
def incoming (k : KState) (p : Process) (h : Nat) : List Handle :=
  match p.handles.get h with
  | .error _ => []
  | .ok hd =>
    if ¬ hd.contains rightRead then []
    else
      match hd.object with
      | .channel c side =>
        match k.chans[c]? with
        | some ch => (ch.queue side).head?.elim [] Message.handles
        | none => []
      | _ => []

/-- The table a process that the call added starts with. -/
def spawnedIn (s s' : Caps) : List Gift :=
  match s'.kernel.procs[s.kernel.procs.length]? with
  | some p => p.handles.live.map (.spawned s.kernel.procs.length)
  | none => []

/-- What the call that led from `s` to `s'` gave to processes. -/
def gifts (s s' : Caps) (pid : Nat) (p : Process) : CapCall → List Gift
  | .sys (.memoryCreate _) | .sys .channelCreate | .jobCreate => createdIn s s' pid
  | .sys (.channelRecv h _ _ _) => (incoming s.kernel p h).map (.sent pid)
  | .processSpawn _ _ => createdIn s s' pid ++ spawnedIn s s'
  | .sys _ => []

/-- One call by process `pid`, and what it gave. -/
def step (c : Nat × CapCall) : Caps × List Gift :=
  match s.kernel.procs[c.1]? with
  | some p =>
    if enabled p c.2 then
      ((s.call c.1 p c.2).1, gifts s (s.call c.1 p c.2).1 c.1 p c.2)
    else (s, [])
  | none => (s, [])

/-- The state after the calls, and the log of what they gave. -/
def run (cs : List (Nat × CapCall)) : Caps × List Gift := runLogged step s cs

end Caps
end NexoOS.Kernel
