import NexoOS.Fat.Volume

/-!
# Rewriting a file of a FAT volume

`rewrite_file` of `libraries/fat` and what it calls, as programs that issue
sector writes: the new data and chain first, the directory record as the
commit, the old chain freed last.
-/

namespace NexoOS.Fat

open Function Prog

/-- A program on the device; it has no state of its own. -/
abbrev FatM := Prog Unit FatError Sector

/-- The program on a device that carries out `n` writes and refuses what it is asked
next. Every access is followed by `?`, so the call then ends with `Io`; behind its last
write only a call that fails anyway still reads. -/
def FatM.onDevice {α : Type} (dev : Option Nat) (p : FatM α) : FatM α := fun s d =>
  match dev with
  | none => p s d
  | some n => if n < (p s d).2.2.length then (.error .io, s, (p s d).2.2.take n) else p s d

namespace Volume

variable (v : Volume)

def fatCopies : Nat := (v.rootDirStart - v.fatStart) / v.fatSectors

/-- The value that ends a chain. -/
def eoc : Nat :=
  match v.kind with
  | .fat32 => 0x0fffffff
  | .fat16 => 0xffff
  | .fat12 => 0xfff

/-- The sectors `ss`, by their place in the table, in every copy of it. -/
def tableWrites (ss : List (Nat × Sector)) : Writes Sector :=
  (List.range v.fatCopies).flatMap fun k =>
    ss.map fun p => (v.fatStart + k * v.fatSectors + p.1, p.2)

/-- The low byte of a 12-bit entry, then the high one, with `value` in it. -/
def lo12 (cluster value : Nat) (lo : UInt8) : UInt8 :=
  if cluster % 2 = 1 then UInt8.ofNat (lo.toNat % 16 + value % 16 * 16)
  else UInt8.ofNat (value % 256)

def hi12 (cluster value : Nat) (hi : UInt8) : UInt8 :=
  if cluster % 2 = 1 then UInt8.ofNat (value / 16)
  else UInt8.ofNat (hi.toNat / 16 * 16 + value / 256 % 16)

/-- The sectors of the table, by their place in it, that `fat_set` writes. -/
def fatSectorsWith (img : Image) (cluster value : Nat) : List (Nat × Sector) :=
  match v.kind with
  | .fat32 =>
    let off := cluster * 4
    let s := img (v.fatStart + off / sectorBytes)
    -- the four high bits are reserved and kept
    let old := u32At s (off % sectorBytes)
    [(off / sectorBytes,
      putLe s (off % sectorBytes) 4 (old / 2 ^ 28 * 2 ^ 28 + value % 2 ^ 28))]
  | .fat16 =>
    let off := cluster * 2
    let s := img (v.fatStart + off / sectorBytes)
    [(off / sectorBytes, putLe s (off % sectorBytes) 2 value)]
  | .fat12 =>
    let off := cluster * 3 / 2
    let sec := off / sectorBytes
    let i := off % sectorBytes
    let s := img (v.fatStart + sec)
    if i = sectorBytes - 1 then
      let t := img (v.fatStart + sec + 1)
      [(sec, update s i (lo12 cluster value (s i))),
        (sec + 1, update t 0 (hi12 cluster value (t 0)))]
    else
      [(sec, update (update s i (lo12 cluster value (s i))) (i + 1)
        (hi12 cluster value (s (i + 1))))]

/-- Writes `value` to the entry of `cluster` in every copy of the table. -/
def fatSet (cluster value : Nat) : FatM Unit := do
  if cluster < 2 ∨ v.totalClusters ≤ cluster - 2 then
    fail (.corrupted "numero de cluster")
  else
    let ss ← reading fun img => .ok (v.fatSectorsWith img cluster value)
    writeList (v.tableWrites ss)

def firstFree (v : Volume) (img : Image) : List Nat → Except FatError Nat
  | [] => .error (.corrupted "volume cheio")
  | c :: cs =>
    match v.fatRaw img c with
    | .error e => .error e
    | .ok n => if n = 0 then .ok c else firstFree v img cs

/-- A free cluster, searched from `hint` on and then from the start. -/
def allocCluster (hint : Nat) (img : Image) : Except FatError Nat :=
  let stop := 2 + v.totalClusters
  if stop - 1 < 2 then .error .panic
  else
    let start := max 2 (min hint (stop - 1))
    v.firstFree img (List.range' start (stop - start) ++ List.range' 2 (start - 2))

/-- Frees the chain from `c` on, with `left` more clusters allowed. -/
def freeLoop (v : Volume) : Nat → Nat → FatM Unit
  | left, c =>
    if c < 2 ∨ v.totalClusters ≤ c - 2 then pure ()
    else do
      let next ← reading fun img => v.fatRaw img c
      v.fatSet c 0
      match left with
      | 0 => fail (.corrupted "cadeia longa demais")
      | left + 1 => if v.isEnd next ∨ next = 0 then pure () else freeLoop v left next

def freeChain (first : Nat) : FatM Unit := v.freeLoop hopsMax first

/-- The 11 bytes of a short name in a record. -/
def name83 (name : List UInt8) : Option (List UInt8) :=
  let (base, ext) :=
    if 0x2e ∈ name then
      ((name.reverse.dropWhile (· ≠ 0x2e)).tail.reverse,
        (name.reverse.takeWhile (· ≠ 0x2e)).reverse)
    else (name, [])
  if base = [] ∨ 8 < base.length ∨ 3 < ext.length then none
  else
    some (base.map toUpper ++ List.replicate (8 - base.length) 0x20 ++
      (ext.map toUpper ++ List.replicate (3 - ext.length) 0x20))

def recordCluster (e : Record) : Nat :=
  let cluster := u16At e 26 + 2 ^ 16 * u16At e 20
  if v.kind = .fat32 then cluster else cluster % 2 ^ 16

/-- Searches the records of a sector from number `i` on; `none` when the
search goes on with the next sector. -/
def findRecord (v : Volume) (name : List UInt8) :
    Nat → List Record → Except FatError (Option (Nat × Nat))
  | _, [] => .ok none
  | i, e :: es =>
    if e 0 = 0 then .error .notFound
    else if e 0 = 0xe5 ∨ isLongName e ∨ isLabel e then findRecord v name (i + 1) es
    else if bytes e 0 11 = name then .ok (some (32 * i, v.recordCluster e))
    else findRecord v name (i + 1) es

def findLoop (v : Volume) (img : Image) (name : List UInt8) :
    Nat → Walk → Except FatError (Nat × Nat × Nat)
  | left, w =>
    match v.walkNext img w with
    | .error e => .error e
    | .ok none => .error .notFound
    | .ok (some (lba, w)) =>
      match left with
      | 0 => .error (.corrupted "diretorio sem fim")
      | left + 1 =>
        match v.findRecord name 0 (records (img lba)) with
        | .error e => .error e
        | .ok (some (off, cluster)) => .ok (lba, off, cluster)
        | .ok none => findLoop v img name left w

/-- Sector, offset and first cluster of the record with short name `name`. -/
def findEntryPos (img : Image) (cluster : Nat) (name : List UInt8) :
    Except FatError (Nat × Nat × Nat) :=
  v.findLoop img name dirSectorsMax (v.walkStart cluster)

/-- The contents a caller supplies: `source off n` are `n` bytes from `off`
on, or a failure to read them. -/
abbrev Source := Nat → Nat → Option (List UInt8)

/-- A zeroed sector with the first `take` bytes of `bs`. -/
def dataSector (take : Nat) (bs : List UInt8) : Sector :=
  fun i => if i < take then bs.getD i 0 else 0

/-- The new data of one cluster at `base`, sectors `k` on; returns the offset
reached. -/
def writeData (size : Nat) (source : Source) (base : Nat) : Nat → Nat → Nat → FatM Nat
  | 0, _, off => pure off
  | n + 1, k, off => do
    let take := min (size - off) sectorBytes
    if take = 0 then pure off
    else
      match source off take with
      | none => fail .io
      | some bs =>
        write (base + k) (dataSector take bs)
        writeData size source base n (k + 1) (off + take)

/-- Links `c` behind `prev`, or makes it the first cluster; returns the first
one. -/
def linkCluster (first prev c : Nat) : FatM Nat :=
  if prev ≠ 0 then do
    v.fatSet prev c
    pure first
  else pure c

/-- The new chain: one more cluster while bytes are left. Every turn writes at
least one byte, so `fuel = size` is enough. Returns the first cluster. -/
def writeChain (v : Volume) (size : Nat) (source : Source) :
    Nat → Nat → Nat → Nat → Nat → FatM Nat
  | 0, first, _, _, _ => pure first
  | fuel + 1, first, prev, hint, off =>
    if size ≤ off then pure first
    else do
      let c ← reading (v.allocCluster hint)
      v.fatSet c v.eoc
      let first ← v.linkCluster first prev c
      let base ← reading fun _ => v.clusterLba c
      let off ← writeData size source base v.sectorsPerCluster 0 off
      writeChain v size source fuel first c (c + 1) off

/-- The record of the file with the new chain and size. -/
def commitSector (s : Sector) (off first size : Nat) : Sector :=
  let s := putLe s (off + 26) 2 first
  let s := putLe s (off + 20) 2 (if v.kind = .fat32 then first / 2 ^ 16 else 0)
  putLe s (off + 28) 4 size

variable (path : List UInt8)

/-- The part of a path before its last `/`, and the rest. -/
def splitPath : List UInt8 × List UInt8 :=
  if 0x2f ∈ path then
    ((path.reverse.dropWhile (· ≠ 0x2f)).tail.reverse,
      (path.reverse.takeWhile (· ≠ 0x2f)).reverse)
  else ([], path)

/-- Where the record of `path` is, and its first cluster. -/
def locate (img : Image) : Except FatError (Nat × Nat × Nat) :=
  let (parent, name) := splitPath path
  let dir : Except FatError Nat :=
    if parent = [] ∨ parent = [0x2f] then .ok 0
    else
      match v.lookup img parent with
      | .error e => .error e
      | .ok d => if d.isDir then .ok d.cluster else .error .notFound
  match dir with
  | .error e => .error e
  | .ok cluster =>
    match name83 name with
    | none => .error .notFound
    | some n => v.findEntryPos img cluster n

/-- Replaces the contents of the file `path` by `size` bytes of `source`. -/
def rewriteFile (size : Nat) (source : Source) : FatM Unit := do
  let (lba, off, oldFirst) ← reading (v.locate path)
  let first ← v.writeChain size source size 0 0 2 0
  let s ← reading fun img => .ok (img lba)
  write lba (v.commitSector s off first size)
  if 2 ≤ oldFirst then v.freeChain oldFirst else pure ()

end Volume
end NexoOS.Fat
