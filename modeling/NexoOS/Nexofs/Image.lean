import NexoOS.Nexofs.Format

/-!
# Reading a NexoFS volume

Every reader of `libraries/nexofs` goes to the disk through `read_inode` and
`read_data_block`. An image is what these two return; on it `block_ptr`,
`for_each_entry` and `read` are functions. A scan of a directory is brought to one
form, the list of the entries it meets and the error it ends with, whatever the image
holds.
-/

namespace NexoOS.Nexofs

abbrev Name := List UInt8

/-- What `read_inode` and `read_data_block` return. -/
structure Image where
  inode : Nat → Except FsError Inode
  block : Nat → Except FsError Block

/-! ## The disk as an image -/

section
variable (sb : Superblock) (d : Nat → Block)

/-- Block and offset of an inode. -/
def inodePos (ino : Nat) : Nat × Nat :=
  (sb.inodeStart + ino * inodeSize / blockBytes, ino * inodeSize % blockBytes)

def readInode (ino : Nat) : Except FsError Inode :=
  if ino = 0 ∨ sb.inodeCount ≤ ino then .error (.corrupted "numero de inode")
  else Inode.decode (window (d (inodePos sb ino).1) (inodePos sb ino).2)

def InData (b : Nat) : Prop := sb.dataStart ≤ b ∧ b < sb.totalBlocks

instance (b : Nat) : Decidable (InData sb b) := inferInstanceAs (Decidable (_ ∧ _))

def readDataBlock (b : Nat) : Except FsError Block :=
  if InData sb b then .ok (d b)
  else .error (.corrupted "ponteiro de bloco fora da area de dados")

def image : Image := { inode := readInode sb d, block := readDataBlock sb d }

end

namespace Image

variable (v : Image)

/-- The pointer to block `idx` of a file, `0` for a hole. -/
def blockPtr (inode : Inode) (idx : Nat) : Except FsError Nat :=
  if idx < ndirect then .ok (inode.direct idx)
  else if ptrsPerBlock ≤ idx - ndirect then .error .tooBig
  else if inode.indirect = 0 then .ok 0
  else do
    let buf ← v.block inode.indirect
    .ok (u64At buf ((idx - ndirect) * 8))

/-! ## Directory scans -/

section scan
variable {σ : Type} (f : σ → Nat → Dirent → σ × Bool)

/-- `for i in 0..per_block` of `for_each_entry`, with `n` rounds left. The flag says
whether the scan goes on. -/
def forSlots (blk : Block) (entries base : Nat) : Nat → Nat → σ → Except FsError (σ × Bool)
  | 0, _, s => .ok (s, true)
  | n + 1, i, s =>
    if entries ≤ base + i then .ok (s, true)
    else
      match Dirent.decode (window blk (i * direntSize)) with
      | .error e => .error e
      | .ok none => forSlots blk entries base n (i + 1) s
      | .ok (some e) =>
        match f s (base + i) e with
        | (s', true) => forSlots blk entries base n (i + 1) s'
        | (s', false) => .ok (s', false)

/-- `while idx < entries` of `for_each_entry`, from block `k` on. -/
def forBlocks (dir : Inode) (entries : Nat) : Nat → Nat → σ → Except FsError σ
  | 0, _, s => .ok s
  | n + 1, k, s =>
    if entries ≤ perBlock * k then .ok s
    else
      match v.blockPtr dir k with
      | .error e => .error e
      | .ok 0 => forBlocks dir entries n (k + 1) s
      | .ok (ptr + 1) =>
        match v.block (ptr + 1) with
        | .error e => .error e
        | .ok blk =>
          match forSlots f blk entries (perBlock * k) perBlock 0 s with
          | .error e => .error e
          | .ok (s', true) => forBlocks dir entries n (k + 1) s'
          | .ok (s', false) => .ok s'

/-- `for_each_entry`. Past the last pointer `block_ptr` fails, so there are no more
rounds than pointers. -/
def forEachEntry (dir : Inode) (s : σ) : Except FsError σ :=
  v.forBlocks f dir (dir.size / direntSize) (ndirect + ptrsPerBlock + 1) 0 s

end scan

/-- The first entry that passes `p`: slot and inode number. -/
def firstEntry (dir : Inode) (p : Nat → Dirent → Bool) : Except FsError (Option (Nat × Nat)) :=
  v.forEachEntry (fun found i e => if p i e then (some (i, e.ino), false) else (found, true))
    dir none

/-! ## Contents -/

/-- `while done < n` of `read`, with `fuel` rounds left. -/
def readLoop (inode : Inode) (offset n : Nat) : Nat → List UInt8 → Except FsError (List UInt8)
  | 0, out => .ok out
  | fuel + 1, out =>
    if n ≤ out.length then .ok out
    else
      let pos := offset + out.length
      let inOff := pos % blockBytes
      let take := min (blockBytes - inOff) (n - out.length)
      match v.blockPtr inode (pos / blockBytes) with
      | .error e => .error e
      | .ok 0 => readLoop inode offset n fuel (out ++ List.replicate take 0)
      | .ok (ptr + 1) =>
        match v.block (ptr + 1) with
        | .error e => .error e
        | .ok blk => readLoop inode offset n fuel (out ++ bytes blk inOff take)

/-- `read` into a buffer of `len` bytes: the bytes read. -/
def read (ino offset len : Nat) : Except FsError (List UInt8) :=
  match v.inode ino with
  | .error e => .error e
  | .ok inode =>
    if inode.kind = 0 then .error .invalidArgs
    else if inode.size ≤ offset then .ok []
    else v.readLoop inode offset (min len (inode.size - offset)) len []

end Image

end NexoOS.Nexofs
