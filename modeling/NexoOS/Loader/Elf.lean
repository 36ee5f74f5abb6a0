import NexoOS.Lib.Bytes

/-!
# ELF images

The reader of `kernel/lib/elf/src/lib.rs`: the header, the program headers,
the bytes of a segment, the range of the loadable ones and the relocations.
Sums of file fields wrap, as they do in the kernel's release build; offsets
into the image are numbers, since what is past its end is refused.
-/

namespace NexoOS.Loader

def ptLoad : UInt32 := 1
def ptDynamic : UInt32 := 2
def pfX : UInt32 := 1
def pfW : UInt32 := 2
def rX8664Relative : UInt32 := 8

inductive ElfError where
  | notElf
  | wrongClass
  | notExecutable
  | wrongMachine
  | truncated
  | badSegment
  deriving DecidableEq

structure ProgramHeader where
  pType : UInt32
  pFlags : UInt32
  pOffset : UInt64
  pVaddr : UInt64
  pFilesz : UInt64
  pMemsz : UInt64
  deriving DecidableEq

namespace ProgramHeader

def isLoad (p : ProgramHeader) : Bool := p.pType == ptLoad && p.pMemsz > 0
def executable (p : ProgramHeader) : Bool := p.pFlags &&& pfX != 0
def writable (p : ProgramHeader) : Bool := p.pFlags &&& pfW != 0

end ProgramHeader

structure Rela where
  offset : UInt64
  kind : UInt32
  addend : UInt64
  deriving DecidableEq

structure ElfFile where
  data : List UInt8
  entry : UInt64
  phoff : Nat
  phentsize : Nat
  phnum : Nat
  dynamic : Bool

/-- Little-endian number of `n` bytes at an offset, if they are all there. -/
def leBytesAt (b : List UInt8) (o n : Nat) : Option Nat :=
  if o + n ≤ b.length then some (leAt (fun i => b.getD i 0) o n) else none

def u16At (b : List UInt8) (o : Nat) : Option Nat := leBytesAt b o 2
def u32At (b : List UInt8) (o : Nat) : Option UInt32 := (leBytesAt b o 4).map UInt32.ofNat
def u64At (b : List UInt8) (o : Nat) : Option UInt64 := (leBytesAt b o 8).map UInt64.ofNat

/-- `ok_or(ElfError::Truncated)`. -/
def orTruncated {α : Type} : Option α → Except ElfError α
  | some a => .ok a
  | none => .error .truncated

namespace ElfFile

def parseWith (data : List UInt8) (allowDyn : Bool) : Except ElfError ElfFile := do
  if data.take 4 ≠ [0x7f, 0x45, 0x4c, 0x46] then throw .notElf
  if data[4]? ≠ some 2 ∨ data[5]? ≠ some 1 then throw .wrongClass
  let eType ← orTruncated (u16At data 0x10)
  if eType ≠ 2 ∧ ¬ (allowDyn ∧ eType = 3) then throw .notExecutable
  let machine ← orTruncated (u16At data 0x12)
  if machine ≠ 0x3e then throw .wrongMachine
  let entry ← orTruncated (u64At data 0x18)
  let phoff ← orTruncated (u64At data 0x20)
  let phentsize ← orTruncated (u16At data 0x36)
  let phnum ← orTruncated (u16At data 0x38)
  if phentsize < 56 ∨ phnum = 0 ∨ phnum > 64 then throw .truncated
  if phoff.toNat + phentsize * phnum > data.length then throw .truncated
  return { data, entry, phoff := phoff.toNat, phentsize, phnum, dynamic := eType = 3 }

def parseAny (data : List UInt8) : Except ElfError ElfFile := parseWith data true

def programHeader (b : List UInt8) : Option ProgramHeader := do
  return {
    pType := ← u32At b 0
    pFlags := ← u32At b 4
    pOffset := ← u64At b 8
    pVaddr := ← u64At b 16
    pFilesz := ← u64At b 32
    pMemsz := ← u64At b 40 }

variable (e : ElfFile)

def programHeaders : List ProgramHeader :=
  (List.range e.phnum).filterMap fun i => programHeader (e.data.drop (e.phoff + i * e.phentsize))

def loadSegments : List ProgramHeader :=
  e.programHeaders.filter ProgramHeader.isLoad

def segmentData (ph : ProgramHeader) : Except ElfError (List UInt8) :=
  if ph.pFilesz > ph.pMemsz then .error .badSegment
  else if ph.pOffset.toNat + ph.pFilesz.toNat > e.data.length then .error .badSegment
  else .ok ((e.data.drop ph.pOffset.toNat).take ph.pFilesz.toNat)

/-- One segment of `address_range`: `None` when its end overflows. -/
def widen (range : Option (UInt64 × UInt64)) (p : ProgramHeader) : Option (UInt64 × UInt64) :=
  range.bind fun (lo, hi) =>
    if p.pVaddr.toNat + p.pMemsz.toNat < 2 ^ 64 then
      some (min lo p.pVaddr, max hi (p.pVaddr + p.pMemsz))
    else none

def addressRange : Option (UInt64 × UInt64) :=
  (e.loadSegments.foldl widen (some (0xffffffffffffffff, 0))).bind fun (lo, hi) =>
    if lo < hi then some (lo, hi) else none

/-- `DT_RELA`, `DT_RELASZ` and `DT_RELAENT`. -/
structure RelaTable where
  vaddr : UInt64
  size : UInt64
  ent : UInt64

/-- The entries of the dynamic table from offset `i` on, `n` of them at most,
up to `DT_NULL`. -/
def dynEntries (d : List UInt8) : Nat → Nat → RelaTable → Except ElfError RelaTable
  | 0, _, t => .ok t
  | n + 1, i, t => do
    let tag ← orTruncated (u64At d i)
    let val ← orTruncated (u64At d (i + 8))
    if tag = 0 then return t
    else if tag = 7 then dynEntries d n (i + 16) { t with vaddr := val }
    else if tag = 8 then dynEntries d n (i + 16) { t with size := val }
    else if tag = 9 then dynEntries d n (i + 16) { t with ent := val }
    else dynEntries d n (i + 16) t

def relaTable : Except ElfError RelaTable :=
  match e.programHeaders.find? fun p => p.pType == ptDynamic with
  | none => if e.dynamic then .error .badSegment else .ok { vaddr := 0, size := 0, ent := 24 }
  | some seg => do
    let d ← e.segmentData seg
    dynEntries d (d.length / 16) 0 { vaddr := 0, size := 0, ent := 24 }

/-- The segment's file bytes hold the table. -/
def holdsTable (t : RelaTable) (p : ProgramHeader) : Bool :=
  t.vaddr ≥ p.pVaddr && t.vaddr.toNat + t.size.toNat < 2 ^ 64 &&
    t.vaddr + t.size ≤ p.pVaddr + p.pFilesz

def rela (b : List UInt8) : Option Rela := do
  return { offset := ← u64At b 0, kind := (← u64At b 8).toUInt32, addend := ← u64At b 16 }

def relocations : Except ElfError (List Rela) := do
  let t ← e.relaTable
  if t.ent ≠ 24 ∨ t.size % 24 ≠ 0 then throw .badSegment
  if t.size = 0 then return []
  else
    match e.loadSegments.find? (holdsTable t) with
    | none => throw .badSegment
    | some seg =>
      let off := (seg.pOffset + (t.vaddr - seg.pVaddr)).toNat
      if off + t.size.toNat > e.data.length then throw .badSegment
      else
        return (List.range (t.size / 24).toNat).filterMap fun i => rela (e.data.drop (off + i * 24))

end ElfFile
end NexoOS.Loader
