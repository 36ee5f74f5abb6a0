import NexoOS.Loader.Elf
import NexoOS.Loader.Space

/-!
# Loading a process

`spawn_elf_with_handles` of `kernel/src/process.rs` as far as it builds the
address space, and the system calls that map memory into it later. What the
random source answers is an argument. A call is modelled from where its
handle and rights checks have passed: before that it touches no page.
-/

namespace NexoOS.Loader

open Paging

def userStackTop : UInt64 := 0x00007ffffff00000
def userStackSize : UInt64 := 256 * 1024
def userStackWindow : UInt64 := 0x40000000
def userMapWindow : UInt64 := 0x100000000
def userCodeBase : UInt64 := 0x10000000
def userCodeWindow : UInt64 := 0x10000000000
def userDeviceRegion : UInt64 := 0x0000600000000000

def pageOffset (random pages : UInt64) : UInt64 :=
  if pages = 0 then 0 else (random % pages) * pageSize

/-- Goes on where the first part succeeded. -/
def andThen {β : Type} (r : Except String Unit × Machine)
    (f : Machine → Except String β × Machine) : Except String β × Machine :=
  match r with
  | (.error e, s) => (.error e, s)
  | (.ok _, s) => f s

/-- The pages of a segment; a page that an earlier segment mapped keeps its
frame and flags. -/
def mapSegmentPages (root : PhysAddr) (flags : PageFlags) :
    Nat → VirtAddr → Machine → Except String Unit × Machine
  | 0, _, s => (.ok (), s)
  | n + 1, v, s =>
    match mapUserPage root v flags s with
    | (.ok _, s) => mapSegmentPages root flags n (v + pageSize) s
    | (.error (.alreadyMapped _), s) => mapSegmentPages root flags n (v + pageSize) s
    | (.error _, s) => (.error "falha ao mapear segmento", s)

def segmentFlags (ph : ProgramHeader) : PageFlags :=
  let flags := if ph.writable then .present ||| .writable else .present
  if !ph.executable then flags ||| .noExecute else flags

/-- `write` with the loader's own error. -/
def writeOr (error : String) (root : PhysAddr) (v : VirtAddr) (data : List UInt8) (s : Machine) :
    Except String Unit × Machine :=
  match write root v data s.mem with
  | (.ok _, mem) => (.ok (), { s with mem := mem })
  | (.error _, mem) => (.error error, { s with mem := mem })

variable (elf : ElfFile) (root : PhysAddr)

def loadSegment (base : UInt64) (ph : ProgramHeader) (s : Machine) : Except String Unit × Machine :=
  if ph.writable && ph.executable then (.error "segmento W+X", s)
  else
    match elf.segmentData ph with
    | .error _ => (.error "segmento fora do arquivo", s)
    | .ok data =>
      let vstart := alignDown (ph.pVaddr + base) pageSize
      let vend := alignUp (ph.pVaddr + base + ph.pMemsz) pageSize
      andThen
        (mapSegmentPages root (segmentFlags ph) ((vend.toNat - vstart.toNat) / 4096) vstart s)
        (writeOr "falha ao copiar segmento" root (ph.pVaddr + base) data)

def loadAll (elf : ElfFile) (root : PhysAddr) (base : UInt64) :
    List ProgramHeader → Machine → Except String Unit × Machine
  | [], s => (.ok (), s)
  | ph :: phs, s => andThen (loadSegment elf root base ph s) (loadAll elf root base phs)

def leWord (v : UInt64) : List UInt8 := (List.range 8).map fun i => leByte v.toNat i

def relocate (base lo hi : UInt64) (r : Rela) (s : Machine) : Except String Unit × Machine :=
  if r.kind ≠ rX8664Relative then (.error "relocacao nao suportada", s)
  else
    let at_ := r.offset + base
    if at_ < lo ∨ at_.toNat + 8 ≥ 2 ^ 64 ∨ at_ + 8 > hi then
      (.error "relocacao fora dos segmentos", s)
    else writeOr "falha ao aplicar relocacao" root at_ (leWord (base + r.addend)) s

def relocateAll (root : PhysAddr) (base lo hi : UInt64) :
    List Rela → Machine → Except String Unit × Machine
  | [], s => (.ok (), s)
  | r :: rs, s => andThen (relocate root base lo hi r s) (relocateAll root base lo hi rs)

def applyRelocations (base lo hi : UInt64) (s : Machine) : Except String Unit × Machine :=
  if elf.dynamic then
    match elf.relocations with
    | .error _ => (.error "tabela de relocacao invalida", s)
    | .ok relas => relocateAll root base lo hi relas s
  else (.ok (), s)

/-- The loops that map a stack: `n` pages from `v` on. -/
def mapStack (error : String) (root : PhysAddr) :
    Nat → VirtAddr → Machine → Except String Unit × Machine
  | 0, _, s => (.ok (), s)
  | n + 1, v, s =>
    match mapUserPage root v .kernelRw s with
    | (.ok _, s) => mapStack error root n (v + pageSize) s
    | (.error _, s) => (.error error, s)

/-- What the random source answers at the three places it is asked. -/
structure Randoms where
  code : UInt64
  stack : UInt64
  device : UInt64

variable (rnd : Randoms) (root : PhysAddr)

/-- The stack of the main thread, at a random place below its top. -/
def mapMainStack (s : Machine) : Except String Unit × Machine :=
  let stackTop := userStackTop - pageOffset rnd.stack (userStackWindow / pageSize)
  mapStack "sem memoria para a pilha" root (userStackSize / pageSize).toNat
    (stackTop - userStackSize) s

/-- The part of a process that mappings concern. -/
structure Space where
  root : PhysAddr
  deviceNext : UInt64
  deriving DecidableEq

/-- The range of the segments at the base, if user memory can hold it. -/
def userRange (base : UInt64) : Except String (UInt64 × UInt64) :=
  match elf.addressRange with
  | none => .error "ELF sem segmentos"
  | some (lo, hi) =>
    if lo.toNat + base.toNat ≥ 2 ^ 64 ∨ hi.toNat + base.toNat ≥ 2 ^ 64 then
      .error "segmentos fora da faixa de usuario"
    else if lo + base < pageSize ∨
        hi + base > userStackTop - userStackWindow - userStackSize - pageSize then
      .error "segmentos fora da faixa de usuario"
    else .ok (lo + base, hi + base)

/-- A relocatable image gets a random base. -/
def codeBase : UInt64 :=
  if elf.dynamic then userCodeBase + pageOffset rnd.code (userCodeWindow / pageSize) else 0

/-- The region for devices and memory objects starts at a random place. -/
def deviceStart : UInt64 :=
  userDeviceRegion + pageOffset rnd.device (userMapWindow / pageSize)

def placeStack (s : Machine) : Except String Space × Machine :=
  andThen (mapMainStack rnd root s) fun s =>
    (.ok { root := root, deviceNext := deviceStart rnd }, s)

/-- `(lo..hi).contains(&entry)`. -/
def inSegments (lo hi entry : UInt64) : Bool := lo ≤ entry && entry < hi

/-- The entry lies in the segments; then the relocations and the stack. -/
def finishSpace (lo hi : UInt64) (s : Machine) : Except String Space × Machine :=
  if !inSegments lo hi (elf.entry + codeBase elf rnd) then (.error "entrada fora dos segmentos", s)
  else
    andThen (applyRelocations elf root (codeBase elf rnd) lo hi s) (placeStack rnd root)

/-- Fills the new space: the segments, then the rest. -/
def fillSpace (s : Machine) : Except String Space × Machine :=
  match userRange elf (codeBase elf rnd) with
  | .error e => (.error e, s)
  | .ok (lo, hi) =>
    andThen (loadAll elf root (codeBase elf rnd) elf.loadSegments s)
      (finishSpace elf rnd root lo hi)

def spawnElf (image : List UInt8) (kernelRoot : PhysAddr) (rnd : Randoms) (s : Machine) :
    Except String Space × Machine :=
  match ElfFile.parseAny image with
  | .error _ => (.error "ELF invalido", s)
  | .ok elf =>
    match newSpace kernelRoot s with
    | (none, s) => (.error "sem memoria para o espaco", s)
    | (some root, s) => fillSpace elf rnd root s

/-! ## Later calls -/

/-- The calls that change the mappings of a running process; a memory object
is its frames and its length. -/
inductive MemCall where
  | memoryMap (frames : List PhysAddr) (len : UInt64)
  | mmioMap (phys : PhysAddr) (len : UInt64)
  | dmaAlloc
  | threadCreate (entry : UInt64)
  | memoryUnmap (base len : UInt64)

/-- `reserve_device_region` returns `deviceNext`; this is the space after. -/
def Space.reserve (sp : Space) (len : UInt64) : Space :=
  { sp with deviceNext := sp.deviceNext + alignUp len pageSize }

/-- Maps the frames one page after the other until one fails. -/
def mapFrames (map : VirtAddr → PhysAddr → Machine → Except MapError Unit × Machine) :
    VirtAddr → List PhysAddr → Machine → Machine
  | _, [], s => s
  | v, f :: fs, s =>
    match map v f s with
    | (.ok _, s) => mapFrames map (v + pageSize) fs s
    | (.error _, s) => s

def mmioFrames (phys : PhysAddr) (len : UInt64) : List PhysAddr :=
  (List.range (len / pageSize).toNat).map fun i => phys + UInt64.ofNat i * pageSize

def memoryMap (frames : List PhysAddr) (len : UInt64) (x : Space × Machine) : Space × Machine :=
  (x.1.reserve len, mapFrames (mapUserShared x.1.root) x.1.deviceNext frames x.2)

def mmioMap (phys : PhysAddr) (len : UInt64) (x : Space × Machine) : Space × Machine :=
  if len = 0 ∨ len > 16 * 1024 * 1024 ∨ phys % pageSize ≠ 0 then x
  else
    (x.1.reserve (alignUp len pageSize),
      mapFrames (mapUserMmio x.1.root) x.1.deviceNext (mmioFrames phys (alignUp len pageSize)) x.2)

/-- The page is cleared once more when it is mapped. -/
def dmaPage (base : VirtAddr) (s : Machine) : Machine :=
  match mapUserPage root base .kernelRw s with
  | (.ok phys, s) => { s with mem := TableTree.fill s.mem phys .empty }
  | (.error _, s) => s

variable (x : Space × Machine)

def dmaAlloc : Space × Machine :=
  (x.1.reserve pageSize, dmaPage x.1.root x.1.deviceNext x.2)

def mapThreadStack (root : PhysAddr) (base : VirtAddr) (s : Machine) : Machine :=
  (mapStack "sem memoria para a pilha da thread" root (userStackSize / pageSize).toNat
    (base + pageSize) s).2

def createUserThread (entry : UInt64) (x : Space × Machine) : Space × Machine :=
  if entry = 0 ∨ entry ≥ userAddressLimit then x
  else
    (x.1.reserve (userStackSize + pageSize), mapThreadStack x.1.root x.1.deviceNext x.2)

def memoryUnmap (base len : UInt64) (x : Space × Machine) : Space × Machine :=
  if base = 0 ∨ len = 0 ∨ base % pageSize ≠ 0 ∨ len % pageSize ≠ 0 ∨ base < userDeviceRegion ∨
      base.toNat + len.toNat > userAddressLimit.toNat then x
  else (x.1, { x.2 with mem := (unmapUserShared x.1.root base len x.2.mem).2 })

def MemCall.exec : MemCall → Space × Machine
  | .memoryMap frames len => Loader.memoryMap frames len x
  | .mmioMap phys len => Loader.mmioMap phys len x
  | .dmaAlloc => Loader.dmaAlloc x
  | .threadCreate entry => createUserThread entry x
  | .memoryUnmap base len => Loader.memoryUnmap base len x

def runCalls (calls : List MemCall) : Space × Machine :=
  calls.foldl MemCall.exec x

end NexoOS.Loader
