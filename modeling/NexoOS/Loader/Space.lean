import NexoOS.Paging.Mapper

/-!
# Address spaces of processes

`AddressSpace` of `kernel/src/process.rs` on top of the mapper: a root table
whose upper half is the kernel's, frames mapped into the lower half, and
writes to mapped memory through the physical map. A space is given by its
root; the frames it frees when it is dropped and its identity for the TLB
play no part here.
-/

namespace NexoOS.Loader

open Paging

def userAddressLimit : UInt64 := 0x0000800000000000

def alignDown (v align : UInt64) : UInt64 := v &&& ~~~(align - 1)

/-- Rounds up; at the end of the range it stays at the last multiple. -/
def alignUp (v align : UInt64) : UInt64 :=
  if v.toNat + (align - 1).toNat < 2 ^ 64 then (v + (align - 1)) &&& ~~~(align - 1)
  else ~~~(align - 1)

/-! ## Physical memory by bytes -/

def frameOf (p : PhysAddr) : PhysAddr := UInt64.ofNat (p.toNat / 4096 * 4096)

def setByte (w : UInt64) (k : UInt64) (b : UInt8) : UInt64 :=
  (w &&& ~~~(0xff <<< (8 * k))) ||| (b.toUInt64 <<< (8 * k))

def writeByte (mem : Memory) (p : PhysAddr) (b : UInt8) : Memory :=
  let i := p.toNat % 4096 / 8
  TableTree.write mem (frameOf p) i ⟨setByte (mem (frameOf p) i).raw (p % 8) b⟩

def writeBytes (mem : Memory) (p : PhysAddr) : List UInt8 → Memory
  | [] => mem
  | b :: bs => writeBytes (writeByte mem p b) (p + 1) bs

/-! ## Spaces -/

def allocateZeroedFrame (s : Machine) : Option PhysAddr × Machine :=
  match allocateFrame s.frames with
  | (none, fs) => (none, { s with frames := fs })
  | (some f, fs) => (some f, { mem := TableTree.fill s.mem f .empty, frames := fs })

/-- `AddressSpace::new`: the lower half is empty. -/
def newSpace (kernelRoot : PhysAddr) (s : Machine) : Option PhysAddr × Machine :=
  match allocateZeroedFrame s with
  | (none, s) => (none, s)
  | (some root, s) =>
    (some root,
      { s with mem := fun a i => if a = root ∧ 256 ≤ i then s.mem kernelRoot i else s.mem a i })

variable (root : PhysAddr)

/-- `map_user_page`: a new frame; it is lost to the space if the mapping
fails. -/
def mapUserPage (virt : VirtAddr) (flags : PageFlags) (s : Machine) :
    Except MapError PhysAddr × Machine :=
  if virt ≥ userAddressLimit then (.error (.unaligned virt), s)
  else
    match allocateZeroedFrame s with
    | (none, s) => (.error .outOfFrames, s)
    | (some frame, s) =>
      let r := map4k root virt frame (flags ||| .user ||| .present) s
      (r.1.map fun _ => frame, r.2)

/-- A frame the space does not own, with the flags of its kind. -/
def mapForeign (flags : PageFlags) (root : PhysAddr) (virt : VirtAddr) (phys : PhysAddr)
    (s : Machine) : Except MapError Unit × Machine :=
  if virt ≥ userAddressLimit then (.error (.unaligned virt), s) else map4k root virt phys flags s

def mapUserMmio : PhysAddr → VirtAddr → PhysAddr → Machine → Except MapError Unit × Machine :=
  mapForeign (.kernelRw ||| .user ||| .noCache ||| .writeThrough)

def mapUserShared : PhysAddr → VirtAddr → PhysAddr → Machine → Except MapError Unit × Machine :=
  mapForeign (.kernelRw ||| .user)

/-- The loop of `unmap_user_shared` over `n` pages; pages that are not mapped
are passed over. -/
def unmapPages (root : PhysAddr) : Nat → VirtAddr → Memory → Except MapError Unit × Memory
  | 0, _, mem => (.ok (), mem)
  | n + 1, v, mem =>
    match unmap4k root v mem with
    | (.ok _, mem) => unmapPages root n (v + pageSize) mem
    | (.error (.notMapped _), mem) => unmapPages root n (v + pageSize) mem
    | (.error e, mem) => (.error e, mem)

def unmapUserShared (base : VirtAddr) (len : UInt64) (mem : Memory) :
    Except MapError Unit × Memory :=
  if base ≥ userAddressLimit ∨ base.toNat + len.toNat ≥ 2 ^ 64 then (.error (.unaligned base), mem)
  else unmapPages root (alignUp len pageSize / pageSize).toNat base mem

/-- `AddressSpace::write`, at most one page at a time; `n` bounds the number
of pages. -/
def writeUser (root : PhysAddr) :
    Nat → VirtAddr → List UInt8 → Memory → Except MapError Unit × Memory
  | 0, _, _, mem => (.ok (), mem)
  | n + 1, v, data, mem =>
    if data = [] then (.ok (), mem)
    else
      match Paging.translate root mem v with
      | none => (.error (.notMapped v), mem)
      | some t =>
        let k := min (pageSize - v.pageOffset).toNat data.length
        writeUser root n (v + UInt64.ofNat k) (data.drop k) (writeBytes mem t.phys (data.take k))

/-- Every page takes at least one byte. -/
def write (v : VirtAddr) (data : List UInt8) (mem : Memory) : Except MapError Unit × Memory :=
  writeUser root data.length v data mem

end NexoOS.Loader
