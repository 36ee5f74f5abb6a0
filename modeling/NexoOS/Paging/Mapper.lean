import NexoOS.Lib.TableTree
import NexoOS.Paging.Entry

/-!
# The four-level mapper

`Mapper` of `arch/x86_64/src/paging.rs`. Physical memory is seen as tables of
entries at frame addresses. The allocator is the list of answers it will give:
`none` where it has no frame, and no more frames after the end of the list.
-/

namespace NexoOS.Paging

open TableTree

inductive MapError where
  | alreadyMapped (virt : VirtAddr)
  | notMapped (virt : VirtAddr)
  | outOfFrames
  | hugePageInWay (virt : VirtAddr)
  | unaligned (virt : VirtAddr)
  deriving DecidableEq

structure Translation where
  phys : PhysAddr
  flags : PageFlags
  pageSize : UInt64
  deriving DecidableEq

abbrev Memory := PhysAddr → Nat → PageTableEntry

structure Machine where
  mem : Memory
  frames : List (Option PhysAddr)

def allocateFrame : List (Option PhysAddr) → Option PhysAddr × List (Option PhysAddr)
  | [] => (none, [])
  | f :: fs => (f, fs)

/-- `walk_create` with `n` levels to go down to the level `target`. A new
table is cleared before its entry is written. -/
def walkCreate (virt : VirtAddr) (target : Nat) (inter : PageFlags) :
    Nat → PhysAddr → Machine → Except MapError PhysAddr × Machine
  | 0, table, s => (.ok table, s)
  | n + 1, table, s =>
    let idx := virt.tableIndex (target + n + 1)
    let e := s.mem table idx
    if e.isPresent then
      if e.isHuge then (.error (.hugePageInWay virt), s)
      else walkCreate virt target inter n e.addr s
    else
      match allocateFrame s.frames with
      | (none, fs) => (.error .outOfFrames, { s with frames := fs })
      | (some frame, fs) =>
        walkCreate virt target inter n frame
          { mem := link s.mem table idx frame .empty (.new frame inter), frames := fs }

/-- `walk`: the same without creating anything. -/
def walk (mem : Memory) (virt : VirtAddr) (target : Nat) :
    Nat → PhysAddr → Except MapError PhysAddr
  | 0, table => .ok table
  | n + 1, table =>
    let e := mem table (virt.tableIndex (target + n + 1))
    if !e.isPresent then .error (.notMapped virt)
    else if e.isHuge then .error (.hugePageInWay virt)
    else walk mem virt target n e.addr

/-- The flags of the tables on the way. -/
def interFlags (flags : PageFlags) : PageFlags :=
  if flags.contains .user then .present ||| .writable ||| .user else .present ||| .writable

/-- The end of `map_4k` and `map_2m`: a leaf entry in a table where nothing
is present. -/
def mapLeaf (virt : VirtAddr) (idx : Nat) (e : PageTableEntry) :
    Except MapError PhysAddr × Machine → Except MapError Unit × Machine
  | (.error err, s) => (.error err, s)
  | (.ok table, s) =>
    if (s.mem table idx).isPresent then (.error (.alreadyMapped virt), s)
    else (.ok (), { s with mem := write s.mem table idx e })

variable (root : PhysAddr) (virt : VirtAddr)

def map4k (phys : PhysAddr) (flags : PageFlags) (s : Machine) : Except MapError Unit × Machine :=
  if !isAligned virt pageSize || !isAligned phys pageSize then (.error (.unaligned virt), s)
  else
    mapLeaf virt (virt.tableIndex 1) (.new phys (flags ||| .present))
      (walkCreate virt 1 (interFlags flags) 3 root s)

def map2m (phys : PhysAddr) (flags : PageFlags) (s : Machine) : Except MapError Unit × Machine :=
  if !isAligned virt page2m || !isAligned phys page2m then (.error (.unaligned virt), s)
  else
    mapLeaf virt (virt.tableIndex 2) (.new phys (flags ||| .present ||| .huge))
      (walkCreate virt 2 (interFlags flags) 2 root s)

def unmap4k (mem : Memory) : Except MapError PhysAddr × Memory :=
  if !isAligned virt pageSize then (.error (.unaligned virt), mem)
  else
    match walk mem virt 1 3 root with
    | .error err => (.error err, mem)
    | .ok table =>
      let e := mem table (virt.tableIndex 1)
      if !e.isPresent then (.error (.notMapped virt), mem)
      else (.ok e.addr, write mem table (virt.tableIndex 1) .empty)

def updateFlags4k (flags : PageFlags) (mem : Memory) : Except MapError Unit × Memory :=
  if !isAligned virt pageSize then (.error (.unaligned virt), mem)
  else
    match walk mem virt 1 3 root with
    | .error err => (.error err, mem)
    | .ok table =>
      let e := mem table (virt.tableIndex 1)
      if !e.isPresent then (.error (.notMapped virt), mem)
      else
        (.ok (), write mem table (virt.tableIndex 1) (.new e.addr (flags ||| .present)))

/-- `translate` from the table of a level on. -/
def translateFrom (mem : Memory) (virt : VirtAddr) : Nat → PhysAddr → Option Translation
  | 0, _ => none
  | level + 1, table =>
    let e := mem table (virt.tableIndex (level + 1))
    if !e.isPresent then none
    else if level + 1 = 1 then
      some { phys := e.addr + virt.pageOffset, flags := e.flags, pageSize := pageSize }
    else if e.isHuge && (level + 1 = 2 || level + 1 = 3) then
      let size := if level + 1 = 2 then page2m else page1g
      let base := e.addr &&& ~~~(size - 1)
      some { phys := base + (virt &&& (size - 1)), flags := e.flags.without .huge,
             pageSize := size }
    else translateFrom mem virt level e.addr

def translate (mem : Memory) (virt : VirtAddr) : Option Translation :=
  translateFrom mem virt 4 root

end NexoOS.Paging
