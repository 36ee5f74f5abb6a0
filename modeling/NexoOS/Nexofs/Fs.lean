import NexoOS.Lib.CrashDisk
import NexoOS.Nexofs.Image

/-!
# NexoFS: writing

What `write` and the recovery at `mount` do to the volume, as programs on a disk of
2 KiB blocks, after the source. The memory state is the bitmap and the number of
repairs; the superblock does not change while the volume is mounted and is a
parameter. The device gives no I/O errors: every block number below is one of the
volume, and `mount` checks that the volume is not larger than the device.
-/

namespace NexoOS.Nexofs

open Prog

structure Mem where
  bitmap : Nat → Bool
  repairs : Nat

abbrev FsM := Prog Mem FsError Block

def zeroBlock : Block := fun _ => 0

/-! ## Bitmap -/

/-- The byte with bits `f 0, …, f 7`. -/
def packByte (f : Nat → Bool) : UInt8 := UInt8.ofNat (Nat.ofBits fun k : Fin 8 => f k)

def bitsPerBlock : Nat := 8 * blockBytes

def bitmapBlock (bm : Nat → Bool) (i : Nat) : Block := fun o =>
  packByte fun k => bm (bitsPerBlock * i + 8 * o + k)

section
variable (sb : Superblock)

/-- `read_bitmap`, by bit. -/
def readBitmap (d : Disk Block) (b : Nat) : Bool :=
  decide (b < bitsPerBlock * sb.bitmapBlocks) &&
    (d (sb.bitmapStart + b / bitsPerBlock) (b % bitsPerBlock / 8)).toNat.testBit (b % 8)

def allocBlock : FsM Nat :=
  stateful fun m =>
    match (List.range' sb.dataStart (sb.totalBlocks - sb.dataStart)).find? (!m.bitmap ·) with
    | some b => (.ok b, { m with bitmap := Function.update m.bitmap b true })
    | none => (.error .noSpace, m)

def freeBlock (b : Nat) : FsM Unit :=
  stateful fun m =>
    (.ok (), if InData sb b then { m with bitmap := Function.update m.bitmap b false } else m)

def freeBlocks : List Nat → FsM Unit
  | [] => pure ()
  | b :: bs => do
    freeBlock sb b
    freeBlocks bs

def writeBitmap : FsM Unit := fun m _ =>
  (.ok (), m,
    (List.range sb.bitmapBlocks).map fun i => (sb.bitmapStart + i, bitmapBlock m.bitmap i))

/-! ## Inodes -/

/-- A reader on the image of the disk. -/
def look {α : Type} (f : Image → Except FsError α) : FsM α := reading fun d => f (image sb d)

def writeInode (ino : Nat) (inode : Inode) : FsM Unit := do
  let buf ← reading fun d =>
    if ino = 0 ∨ sb.inodeCount ≤ ino then .error (.corrupted "numero de inode")
    else .ok (d (inodePos sb ino).1)
  Prog.write (inodePos sb ino).1 (splice buf (inodePos sb ino).2 inodeSize inode.encode)

def inodesPerBlock : Nat := blockBytes / inodeSize

/-- The first field of inode `ino`, as the scans of the table read it. -/
def rawKind (d : Disk Block) (ino : Nat) : Nat :=
  u32At (d (sb.inodeStart + ino / inodesPerBlock)) (ino % inodesPerBlock * inodeSize)

/-! ## Writing a file -/

/-- The locals of `write`. -/
structure WriteState where
  inode : Inode
  old : List Nat
  done : Nat
  ind : Block
  indLoaded : Bool
  indDirty : Bool

/-- Old pointers a round of `write` collects before it commits. -/
def chunk : Nat := 32

/-- The old bytes a partly written block keeps: those below the old size. -/
def keptBlock (inode : Inode) (idx take oldPtr : Nat) : FsM Block :=
  if take < blockBytes ∧ oldPtr ≠ 0 then do
    let blk ← look sb (·.block oldPtr)
    let valid := min (inode.size - idx * blockBytes) blockBytes
    pure fun i => if i < valid then blk i else 0
  else pure zeroBlock

def loadIndirect (w : WriteState) : FsM WriteState :=
  if w.inode.indirect = 0 then do
    let ib ← allocBlock sb
    Prog.write ib zeroBlock
    pure { w with inode := { w.inode with indirect := ib }, ind := zeroBlock, indLoaded := true }
  else if w.indLoaded then pure w
  else do
    let ind ← look sb (·.block w.inode.indirect)
    pure { w with ind, indLoaded := true }

/-- Enters the new block `nb` at index `idx`. -/
def placePtr (w : WriteState) (idx nb : Nat) : FsM WriteState :=
  if idx < ndirect then
    pure { w with inode := { w.inode with direct := Function.update w.inode.direct idx nb } }
  else do
    let w ← loadIndirect sb w
    pure { w with ind := putLe w.ind ((idx - ndirect) * 8) 8 nb, indDirty := true }

/-- One round of `while done < data.len()`. -/
def writeStep (offset : Nat) (data : List UInt8) (w : WriteState) : FsM WriteState := do
  let pos := offset + w.done
  let idx := pos / blockBytes
  let inOff := pos % blockBytes
  let take := min (blockBytes - inOff) (data.length - w.done)
  let oldPtr ← look sb (·.blockPtr w.inode idx)
  let kept ← keptBlock sb w.inode idx take oldPtr
  let blk := splice kept inOff take fun i => data.getD (w.done + i) 0
  let nb ← allocBlock sb
  Prog.write nb blk
  let w ← placePtr sb w idx nb
  pure { w with old := if oldPtr ≠ 0 then w.old ++ [oldPtr] else w.old, done := w.done + take }

def writeLoop (offset : Nat) (data : List UInt8) : Nat → WriteState → FsM WriteState
  | 0, w => pure w
  | fuel + 1, w =>
    if data.length ≤ w.done then pure w
    else do
      let w ← writeStep sb offset data w
      if w.old.length = chunk then pure w else writeLoop offset data fuel w

def nextGeneration (g : Nat) : Nat := (g + 1) % 2 ^ 32

/-- The indirect block, the inode, and then the old blocks and the bitmap. -/
def commitWrite (ino offset : Nat) (w : WriteState) : FsM Unit := do
  if w.indDirty then Prog.write w.inode.indirect w.ind else pure ()
  writeInode sb ino
    { w.inode with
      size := max w.inode.size (offset + w.done)
      generation := nextGeneration w.inode.generation }
  freeBlocks sb w.old
  writeBitmap sb

/-- `write`, with `fuel` rounds of its recursion left. -/
def writeRounds : Nat → Nat → Nat → List UInt8 → FsM Nat
  | 0, _, _, _ => fail .unending
  | fuel + 1, ino, offset, data => do
    let inode ← look sb (·.inode ino)
    match inode.kindOf with
    | some .dir => fail .isDir
    | none => fail .invalidArgs
    | some .file =>
      if data = [] then pure 0
      else if maxFile < offset + data.length then fail .tooBig
      else do
        let w ← writeLoop sb offset data data.length
          { inode, old := [], done := 0, ind := zeroBlock, indLoaded := false, indDirty := false }
        commitWrite sb ino offset w
        if w.done < data.length then do
          let more ← writeRounds fuel ino (offset + w.done) (data.drop w.done)
          pure (w.done + more)
        else pure w.done

/-- Each round writes at least one byte. -/
def write (ino offset : Nat) (data : List UInt8) : FsM Nat :=
  writeRounds sb (data.length + 1) ino offset data

/-! ## Pointers and entries -/

/-- The pointers of an indirect block from number `i` on. -/
def wordsFrom (b : Block) (i : Nat) : List Nat :=
  ((List.range' i (ptrsPerBlock - i)).map fun k => u64At b (k * 8)).filter (· ≠ 0)

def directFrom (inode : Inode) (i : Nat) : List Nat :=
  ((List.range' i (ndirect - i)).map inode.direct).filter (· ≠ 0)

/-- Writes slot `index` of a directory; `ino = 0` clears it. -/
def writeEntry (dir : Inode) (index ino : Nat) (name : Name) : FsM Unit := do
  let ptr ← look sb (·.blockPtr dir (index / perBlock))
  if ptr = 0 then fail (.corrupted "bloco de diretorio ausente")
  else do
    let blk ← look sb (·.block ptr)
    Prog.write ptr (splice blk (index % perBlock * direntSize) direntSize
      (if ino = 0 then zeroBlock else Dirent.encode ino name))

end

end NexoOS.Nexofs
