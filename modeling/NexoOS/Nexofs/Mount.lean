import NexoOS.Nexofs.Fs

/-!
# NexoFS: mounting and checking

`mount` walks the tree from the root with a stack of directories, rebuilds the
bitmap, removes the second name of an inode, frees the inodes it did not meet and
writes the bitmap back when it differs. `verifica` makes the same walk and only
counts. The stack of the source is an array with an index; here its top is the head
of a list, so that the index is the length of the rest.
-/

namespace NexoOS.Nexofs

open Prog

/-- Inodes the array `inode_used` has a bit for. -/
def maxInodes : Nat := 8192 * 8

/-! ## Marking -/

section
variable (sb : Superblock)

def markBlock (bm : Nat → Bool) (b : Nat) : Except FsError (Nat → Bool) :=
  if ¬ InData sb b then .error (.corrupted "ponteiro de bloco fora da area de dados")
  else if bm b then .error (.corrupted "bloco referenciado duas vezes")
  else .ok (Function.update bm b true)

def markBlocks (bm : Nat → Bool) : List Nat → Except FsError (Nat → Bool)
  | [] => .ok bm
  | b :: bs =>
    match markBlock sb bm b with
    | .error e => .error e
    | .ok bm => markBlocks bm bs

/-- The part of `mark_inode` on the blocks of an inode. -/
def markRefs (v : Image) (bm : Nat → Bool) (inode : Inode) : Except FsError (Nat → Bool) :=
  match markBlocks sb bm (directFrom inode 0) with
  | .error e => .error e
  | .ok bm =>
    if inode.indirect = 0 then .ok bm
    else
      match markBlock sb bm inode.indirect with
      | .error e => .error e
      | .ok bm =>
        match v.block inode.indirect with
        | .error e => .error e
        | .ok ind => markBlocks sb bm (wordsFrom ind 0)

/-- `mark_inode`: the bitmap and the inodes met so far. -/
def markInode (v : Image) (bm used : Nat → Bool) (ino : Nat) (inode : Inode) :
    Except FsError ((Nat → Bool) × (Nat → Bool)) :=
  if inode.kind = 0 then .error (.corrupted "entrada aponta para inode livre")
  else if maxInodes ≤ ino then .error .panic
  else if used ino then .error (.corrupted "inode referenciado duas vezes")
  else
    match markRefs sb v bm inode with
    | .error e => .error e
    | .ok bm => .ok (bm, Function.update used ino true)

/-! ## The recovery walk -/

/-- `mark_inode` on the bitmap of the volume. -/
def mark (used : Nat → Bool) (ino : Nat) (inode : Inode) : FsM (Nat → Bool) := fun m d =>
  match markInode sb (image sb d) m.bitmap used ino inode with
  | .error e => (.error e, m, [])
  | .ok (bm, used) => (.ok used, { m with bitmap := bm }, [])

def addRepairs (n : Nat) : FsM Unit :=
  stateful fun m => (.ok (), { m with repairs := m.repairs + n })

/-- The loop of `check`, with `fuel` rounds left: each frame of the stack is a directory
and the slot its next search starts at. -/
def checkLoop : Nat → (Nat → Bool) → List (Nat × Nat) → FsM (Nat → Bool)
  | 0, _, _ => fail .unending
  | _ + 1, used, [] => pure used
  | fuel + 1, used, (dino, next) :: rest => do
    let dir ← look sb (·.inode dino)
    let found ← look sb (·.firstEntry dir fun i _ => next ≤ i)
    match found with
    | none => if rest = [] then pure used else checkLoop fuel used rest
    | some (i, child) => do
      let inode ← look sb (·.inode child)
      if inode.kind ≠ 0 ∧ maxInodes ≤ child then fail .panic
      else if inode.kind ≠ 0 ∧ used child = true then do
        writeEntry sb dir i 0 []
        addRepairs 1
        checkLoop fuel used ((dino, i + 1) :: rest)
      else do
        let used ← mark sb used child inode
        if inode.kindOf = some .dir then
          if maxDepth ≤ rest.length + 1 then
            fail (.corrupted "diretorios profundos demais")
          else checkLoop fuel used ((child, 0) :: (dino, i + 1) :: rest)
        else checkLoop fuel used ((dino, i + 1) :: rest)

/-- Slots of a directory, at most. -/
def maxSlots : Nat := (ndirect + ptrsPerBlock) * perBlock

/-- Rounds the walk may take: every inode is pushed at most once, and every round on a
directory moves its slot on or drops it. -/
def walkFuel : Nat := (maxSlots + 2) * (sb.inodeCount + 1) + 1

/-- Inode `ino` is in use on disk and the walk did not meet it. -/
def orphan (d : Disk Block) (used : Nat → Bool) (ino : Nat) : Bool :=
  decide (0 < ino) && decide (ino < sb.inodeCount) && rawKind sb d ino != 0 && !used ino

def inodesOf (blk : Nat) : List Nat := List.range' (blk * inodesPerBlock) inodesPerBlock

def withoutOrphans (d : Disk Block) (used : Nat → Bool) (blk : Nat) : Block := fun o =>
  if orphan sb d used (blk * inodesPerBlock + o / inodeSize) then 0
  else d (sb.inodeStart + blk) o

/-- The scan of `check` over the blocks of the inode table. -/
def freeOrphans (used : Nat → Bool) : List Nat → FsM Unit
  | [] => pure ()
  | blk :: blks => do
    let (n, buf) ← reading fun d =>
      -- the bit of an inode past the array is looked at only when it is in use
      if (inodesOf blk).any fun ino =>
          decide (maxInodes ≤ ino) && decide (ino < sb.inodeCount) && rawKind sb d ino != 0 then
        .error .panic
      else .ok (((inodesOf blk).filter (orphan sb d used)).length, withoutOrphans sb d used blk)
    if n ≠ 0 then do
      Prog.write (sb.inodeStart + blk) buf
      addRepairs n
    else pure ()
    freeOrphans used blks

/-- Writes the bitmap back when the one on disk differs. -/
def mendBitmap (disk : Nat → Bool) : FsM Unit := fun m d =>
  if ∀ b < maxBlocks, disk b = m.bitmap b then (.ok (), m, [])
  else (do addRepairs 1; writeBitmap sb) m d

def setBitmap (bm : Nat → Bool) : FsM Unit := stateful fun m => (.ok (), { m with bitmap := bm })

def metadataBits (b : Nat) : Bool := decide (b < sb.dataStart)

def check : FsM Unit := do
  let disk ← reading fun d => .ok (readBitmap sb d)
  setBitmap (metadataBits sb)
  let root ← look sb (·.inode rootIno)
  if root.kindOf ≠ some .dir then fail (.corrupted "raiz")
  else do
    let used ← mark sb (fun _ => false) rootIno root
    let used ← checkLoop sb (walkFuel sb) used [(rootIno, 0)]
    freeOrphans sb used (List.range sb.inodeBlocks)
    mendBitmap sb disk

end

/-! ## Mounting -/

/-- `mount` of a device of `blocks` blocks: the superblock of the volume. -/
def mount (blocks : Nat) : FsM Superblock := do
  if blocks = 0 then fail .io
  else do
    let sb ← reading fun d => Superblock.decode (d 0)
    if blocks < sb.totalBlocks then fail (.corrupted "volume maior que o dispositivo")
    else do
      stateful fun _ => (.ok (), { bitmap := fun _ => false, repairs := 0 })
      check sb
      pure sb

/-! ## Checking without changing -/

/-- `Relatorio`. -/
structure Report where
  inodesReached : Nat
  blocksReached : Nat
  dangling : Nat
  duplicate : Nat
  orphans : Nat
  sharedBlocks : Nat
  outOfRange : Nat
  bitmapDiffers : Nat
  deriving DecidableEq

namespace Report

def zero : Report :=
  { inodesReached := 0, blocksReached := 0, dangling := 0, duplicate := 0, orphans := 0,
    sharedBlocks := 0, outOfRange := 0, bitmapDiffers := 0 }

/-- `integro`. -/
def Intact (r : Report) : Prop :=
  r.dangling = 0 ∧ r.duplicate = 0 ∧ r.orphans = 0 ∧ r.sharedBlocks = 0 ∧ r.outOfRange = 0 ∧
    r.bitmapDiffers = 0

end Report

section
variable (sb : Superblock)

/-- The closure `conta` of `conta_inode`. -/
def countBlock (r : Report) (seen : Nat → Bool) (b : Nat) : Report × (Nat → Bool) :=
  if ¬ InData sb b then ({ r with outOfRange := r.outOfRange + 1 }, seen)
  else if seen b then ({ r with sharedBlocks := r.sharedBlocks + 1 }, seen)
  else ({ r with blocksReached := r.blocksReached + 1 }, Function.update seen b true)

def countBlocks (r : Report) (seen : Nat → Bool) (bs : List Nat) : Report × (Nat → Bool) :=
  bs.foldl (fun s b => countBlock sb s.1 s.2 b) (r, seen)

/-- `conta_inode`. -/
def countInode (v : Image) (r : Report) (seen used : Nat → Bool) (ino : Nat) (inode : Inode) :
    Except FsError (Report × (Nat → Bool) × (Nat → Bool)) :=
  if maxInodes ≤ ino then .error .panic
  else
    let used := Function.update used ino true
    let r := { r with inodesReached := r.inodesReached + 1 }
    let s := countBlocks sb r seen (directFrom inode 0)
    if inode.indirect = 0 then .ok (s.1, s.2, used)
    else
      let s := countBlock sb s.1 s.2 inode.indirect
      match v.block inode.indirect with
      | .error e => .error e
      | .ok ind =>
        let s := countBlocks sb s.1 s.2 (wordsFrom ind 0)
        .ok (s.1, s.2, used)

/-- The loop of `verifica`. -/
def verifyLoop (v : Image) : Nat → Report → (Nat → Bool) → (Nat → Bool) → List (Nat × Nat) →
    Except FsError (Report × (Nat → Bool) × (Nat → Bool))
  | 0, _, _, _, _ => .error .unending
  | _ + 1, r, seen, used, [] => .ok (r, seen, used)
  | fuel + 1, r, seen, used, (dino, next) :: rest =>
    match v.inode dino with
    | .error e => .error e
    | .ok dir =>
      match v.firstEntry dir fun i _ => next ≤ i with
      | .error e => .error e
      | .ok none =>
        if rest = [] then .ok (r, seen, used) else verifyLoop v fuel r seen used rest
      | .ok (some (i, child)) =>
        match v.inode child with
        | .error e => .error e
        | .ok inode =>
          if inode.kind = 0 then
            verifyLoop v fuel { r with dangling := r.dangling + 1 } seen used
              ((dino, i + 1) :: rest)
          else if maxInodes ≤ child then .error .panic
          else if used child then
            verifyLoop v fuel { r with duplicate := r.duplicate + 1 } seen used
              ((dino, i + 1) :: rest)
          else
            match countInode sb v r seen used child inode with
            | .error e => .error e
            | .ok (r, seen, used) =>
              if inode.kindOf = some .dir then
                if maxDepth ≤ rest.length + 1 then
                  .error (.corrupted "diretorios profundos demais")
                else verifyLoop v fuel r seen used ((child, 0) :: (dino, i + 1) :: rest)
              else verifyLoop v fuel r seen used ((dino, i + 1) :: rest)

/-- Bits, in the bytes that cover the volume, in which two bitmaps differ. -/
def bitsDiffer (disk seen : Nat → Bool) : Nat :=
  ((List.range (8 * Superblock.divCeil sb.totalBlocks 8)).filter fun b => disk b != seen b).length

/-- `verifica`. -/
def verify (d : Disk Block) : Except FsError Report :=
  let v := image sb d
  match v.inode rootIno with
  | .error e => .error e
  | .ok root =>
    if root.kindOf ≠ some .dir then .error (.corrupted "raiz")
    else
      match countInode sb v Report.zero (metadataBits sb) (fun _ => false) rootIno root with
      | .error e => .error e
      | .ok (r, seen, used) =>
        match verifyLoop sb v (walkFuel sb) r seen used [(rootIno, 0)] with
        | .error e => .error e
        | .ok (r, seen, used) =>
          if (List.range sb.inodeCount).any fun ino =>
              decide (maxInodes ≤ ino) && rawKind sb d ino != 0 then .error .panic
          else
            .ok { r with
              orphans :=
                ((List.range sb.inodeCount).filter (orphan sb d used)).length
              bitmapDiffers := bitsDiffer sb (readBitmap sb d) seen }

end

end NexoOS.Nexofs
