import NexoOS.Lib.Bytes
import NexoOS.Lib.CrashDisk

/-!
# Reading a FAT volume

The read side of `libraries/fat`: mounting, the allocation table, directories
with long and short names, path lookup and file reads, over a disk of
512-byte sectors. The one-sector cache of the table and the read cursor of the
source only save requests to the device and are left out.
-/

namespace NexoOS.Fat

def sectorBytes : Nat := 512

/-- The 512 bytes of a sector by offset. -/
abbrev Sector := Nat → UInt8

abbrev Image := Disk Sector

def nameMax : Nat := 255

inductive FatError where
  | io
  | corrupted (what : String)
  | notFound
  | notDir
  | isDir
  /-- an assertion of the standard library fails -/
  | panic
  deriving DecidableEq

inductive FatKind where
  | fat12
  | fat16
  | fat32
  deriving DecidableEq

def u16At (b : Nat → UInt8) (o : Nat) : Nat := leAt b o 2

def u32At (b : Nat → UInt8) (o : Nat) : Nat := leAt b o 4

/-- Arithmetic of `u32` wraps. -/
def w32 (n : Nat) : Nat := n % 2 ^ 32

structure Volume where
  base : Nat
  kind : FatKind
  sectorsPerCluster : Nat
  fatStart : Nat
  fatSectors : Nat
  rootDirStart : Nat
  rootDirSectors : Nat
  dataStart : Nat
  totalClusters : Nat
  rootCluster : Nat
  deriving DecidableEq

/-- Mounts the volume at sector `base` of a device of `count` sectors. -/
def mount (img : Image) (count base : Nat) : Except FatError Volume :=
  let s := img base
  let sectorsPerCluster := (s 13).toNat
  let reserved := u16At s 14
  let fats := (s 16).toNat
  let rootEntries := u16At s 17
  let fat16Size := u16At s 22
  let fatSectors := if fat16Size ≠ 0 then fat16Size else u32At s 36
  let total := if u16At s 19 ≠ 0 then u16At s 19 else u32At s 32
  let rootDirSectors := (rootEntries * 32 + (sectorBytes - 1)) / sectorBytes
  let meta_ := w32 (reserved + w32 (fats * fatSectors) + rootDirSectors)
  let totalClusters := (total - meta_) / sectorsPerCluster
  let kind :=
    if fat16Size = 0 ∧ rootEntries = 0 then FatKind.fat32
    else if totalClusters < 4085 then .fat12
    else .fat16
  let fatStart := base + reserved
  let rootDirStart := fatStart + w32 (fats * fatSectors)
  let dataStart := rootDirStart + rootDirSectors
  if s 510 ≠ 0x55 ∨ s 511 ≠ 0xaa then .error (.corrupted "assinatura do setor de boot")
  else if u16At s 11 ≠ sectorBytes ∨ sectorsPerCluster ∉ [1, 2, 4, 8, 16, 32, 64, 128] ∨
      reserved = 0 ∨ fats = 0 then .error (.corrupted "BPB")
  else if fatSectors = 0 ∨ total = 0 then .error (.corrupted "tamanhos do BPB")
  else if total < meta_ then .error (.corrupted "geometria")
  else if count < dataStart + totalClusters * sectorsPerCluster then
    .error (.corrupted "volume maior que o dispositivo")
  else
    .ok { base, kind, sectorsPerCluster, fatStart, fatSectors, rootDirStart, rootDirSectors,
          dataStart, totalClusters,
          rootCluster := if kind = .fat32 then u32At s 44 else 0 }

namespace Volume

variable (v : Volume)

def clusterBytes : Nat := v.sectorsPerCluster * sectorBytes

def clusterLba (cluster : Nat) : Except FatError Nat :=
  if cluster < 2 ∨ v.totalClusters ≤ cluster - 2 then .error (.corrupted "numero de cluster")
  else .ok (v.dataStart + w32 ((cluster - 2) * v.sectorsPerCluster))

/-! ## The allocation table -/

variable (img : Image)

/-- Byte `i` of the first copy of the table. -/
def fatByte (i : Nat) : UInt8 :=
  img (v.fatStart + i / sectorBytes) (i % sectorBytes)

/-- The raw value of an entry; `0` is a free cluster. -/
def fatRaw (cluster : Nat) : Except FatError Nat :=
  match v.kind with
  | .fat32 =>
    let off := cluster * 4
    if v.fatSectors ≤ off / sectorBytes then .error (.corrupted "indice na FAT")
    else .ok (u32At (img (v.fatStart + off / sectorBytes)) (off % sectorBytes) % 2 ^ 28)
  | .fat16 =>
    let off := cluster * 2
    if v.fatSectors ≤ off / sectorBytes then .error (.corrupted "indice na FAT")
    else .ok (u16At (img (v.fatStart + off / sectorBytes)) (off % sectorBytes))
  | .fat12 =>
    let off := cluster * 3 / 2
    if v.fatSectors ≤ (off + 1) / sectorBytes then .error (.corrupted "indice na FAT")
    else
      let lba := v.fatStart + off / sectorBytes
      let lo := img lba (off % sectorBytes)
      -- an entry may cross into the next sector
      let hi :=
        if off % sectorBytes = sectorBytes - 1 then img (lba + 1) 0
        else img lba (off % sectorBytes + 1)
      let raw := lo.toNat + 256 * hi.toNat
      .ok (if cluster % 2 = 1 then raw / 16 else raw % 4096)

/-- Whether a raw value ends a chain. -/
def isEnd (n : Nat) : Bool :=
  match v.kind with
  | .fat32 => 0x0ffffff8 ≤ n
  | .fat16 => 0xfff8 ≤ n
  | .fat12 => 0xff8 ≤ n

def nextCluster (cluster : Nat) : Except FatError (Option Nat) :=
  match v.fatRaw img cluster with
  | .error e => .error e
  | .ok n =>
    if v.isEnd n then .ok none
    else if n < 2 then .error (.corrupted "cadeia de clusters")
    else .ok (some n)

/-! ## Directories -/

/-- Where a walk over the sectors of a directory stands. -/
structure Walk where
  cur : Option Nat
  fixedNext : Option Nat
  seen : Nat

def walkStart (cluster : Nat) : Walk :=
  let cur :=
    if cluster = 0 ∧ v.kind ≠ .fat32 then none
    else some (if cluster = 0 then v.rootCluster else cluster)
  { cur, fixedNext := if cur.isNone then some 0 else none, seen := 0 }

def walkNext (w : Walk) : Except FatError (Option (Nat × Walk)) :=
  match w.cur, w.fixedNext with
  | none, some i =>
    if v.rootDirSectors ≤ i then .ok none
    else .ok (some (v.rootDirStart + i, { w with fixedNext := some (i + 1), seen := w.seen + 1 }))
  | some c, _ =>
    let idx := w.seen % v.sectorsPerCluster
    match v.clusterLba c with
    | .error e => .error e
    | .ok lba =>
      if idx + 1 = v.sectorsPerCluster then
        match v.nextCluster img c with
        | .error e => .error e
        | .ok cur =>
          .ok (some (lba + idx,
            { cur, fixedNext := if cur.isNone then some (2 ^ 32 - 1) else w.fixedNext,
              seen := w.seen + 1 }))
      else .ok (some (lba + idx, { w with seen := w.seen + 1 }))
  | none, none => .ok none

/-- Most sectors a directory may have. -/
def dirSectorsMax : Nat := 65536

/-- A directory record: 32 bytes. -/
abbrev Record := Nat → UInt8

def recordAt (s : Sector) (i : Nat) : Record := fun j => if j < 32 then s (32 * i + j) else 0

def records (s : Sector) : List Record := (List.range 16).map (recordAt s)

structure Entry where
  name : List UInt8
  attr : UInt8
  cluster : Nat
  size : Nat
  deriving DecidableEq

def Entry.isDir (e : Entry) : Bool := e.attr &&& 0x10 ≠ 0

/-- A long name as far as it was put together. -/
structure LongName where
  buf : Nat → UInt8
  len : Nat
  valid : Bool

def LongName.none : LongName := { buf := fun _ => 0, len := 0, valid := false }

/-- Offsets of the 13 characters of a long-name record. -/
def longNamePositions : List Nat := [1, 3, 5, 7, 9, 14, 16, 18, 20, 22, 24, 28, 30]

variable (l : LongName)

def LongName.put (idx ch : Nat) : LongName :=
  if nameMax ≤ idx ∨ ch = 0 ∨ ch = 0xffff then l
  else
    { l with
      buf := Function.update l.buf idx (if ch < 0x80 then UInt8.ofNat ch else 0x3f)
      len := max l.len (idx + 1) }

variable (e : Record)

/-- A long-name record: sequence number, `0x40` on the first one stored. -/
def LongName.record : LongName :=
  let seq := (e 0 &&& 0x1f).toNat
  if seq = 0 ∨ 20 < seq then { l with valid := false }
  else
    let l := if e 0 &&& 0x40 ≠ 0 then { buf := fun _ => 0, len := 0, valid := true } else l
    if l.valid then
      (longNamePositions.zipIdx).foldl (fun l p => l.put ((seq - 1) * 13 + p.2) (u16At e p.1)) l
    else l

def toLower (c : UInt8) : UInt8 := if 0x41 ≤ c ∧ c ≤ 0x5a then c + 0x20 else c

def toUpper (c : UInt8) : UInt8 := if 0x61 ≤ c ∧ c ≤ 0x7a then c - 0x20 else c

def eqIgnoreCase (a b : List UInt8) : Bool := a.map toLower = b.map toLower

/-- The short name, with the case bits of the record. -/
def shortName : List UInt8 :=
  let nt := e 12
  let base := ((bytes e 0 8).takeWhile (· ≠ 0x20)).map fun c =>
    let c := if c = 0x05 then 0xe5 else c
    if nt &&& 0x08 ≠ 0 then toLower c else c
  let ext := ((bytes e 8 3).takeWhile (· ≠ 0x20)).map fun c =>
    if nt &&& 0x10 ≠ 0 then toLower c else c
  if ext = [] then base else base ++ 0x2e :: ext

def entryOf : Entry :=
  let cluster := u16At e 26 + 2 ^ 16 * u16At e 20
  { name := if l.valid ∧ 0 < l.len then (List.range l.len).map l.buf else shortName e
    attr := e 11
    cluster := if v.kind = .fat32 then cluster else cluster % 2 ^ 16
    size := u32At e 28 }

/-- A long-name record, and a record that holds a volume label. -/
def isLongName : Bool := e 11 &&& 0x3f = 0x0f

def isLabel : Bool := e 11 &&& 0x08 ≠ 0

/-- One record of `for_each_entry`: `none` at the end mark, else the long name
after it and the entry to hand out. -/
def scanRecord : Option (LongName × Option Entry) :=
  if e 0 = 0 then none
  else if e 0 = 0xe5 then some ({ l with valid := false }, none)
  else if isLongName e then some (l.record e, none)
  else if isLabel e then some ({ l with valid := false }, none)
  else
    let x := v.entryOf l e
    some ({ l with valid := false }, if x.name = [0x2e] ∨ x.name = [0x2e, 0x2e] then none else some x)

variable {τ : Type}

/-- The records of a sector; `inr` when the walk is over. -/
def scanRecords (v : Volume) (f : τ → Entry → τ × Bool) :
    LongName → τ → List Record → (LongName × τ) ⊕ τ
  | l, t, [] => .inl (l, t)
  | l, t, e :: es =>
    match v.scanRecord l e with
    | none => .inr t
    | some (l, none) => scanRecords v f l t es
    | some (l, some x) =>
      match f t x with
      | (t, false) => .inr t
      | (t, true) => scanRecords v f l t es

/-- The loop of `for_each_entry` with `left` more sectors allowed. -/
def scanLoop (v : Volume) (img : Image) (f : τ → Entry → τ × Bool) :
    Nat → Walk → LongName → τ → Except FatError τ
  | left, w, l, t =>
    match v.walkNext img w with
    | .error e => .error e
    | .ok none => .ok t
    | .ok (some (lba, w)) =>
      match left with
      | 0 => .error (.corrupted "diretorio sem fim")
      | left + 1 =>
        match v.scanRecords f l t (records (img lba)) with
        | .inr t => .ok t
        | .inl (l, t) => scanLoop v img f left w l t

variable (v : Volume) (img : Image)

/-- Hands the entries of a directory (`0` is the root) to `f` until it returns
`false`. -/
def forEachEntry (cluster : Nat) (f : τ → Entry → τ × Bool) (t : τ) : Except FatError τ :=
  v.scanLoop img f dirSectorsMax (v.walkStart cluster) LongName.none t

def findInDir (cluster : Nat) (name : List UInt8) : Except FatError (Option Entry) :=
  v.forEachEntry img cluster
    (fun found e => if eqIgnoreCase e.name name then (some e, false) else (found, true)) none

/-! ## Paths -/

def isSeparator (c : UInt8) : Bool := c = 0x2f ∨ c = 0x5c

variable (path : List UInt8)

/-- The components of a path that count. -/
def components : List (List UInt8) :=
  (path.splitOnP isSeparator).filter fun c => c ≠ [] ∧ c ≠ [0x2e]

def lookupFrom (v : Volume) (img : Image) : Entry → List (List UInt8) → Except FatError Entry
  | cur, [] => .ok cur
  | cur, comp :: rest =>
    if cur.isDir then
      match v.findInDir img cur.cluster comp with
      | .error e => .error e
      | .ok none => .error .notFound
      | .ok (some e) => lookupFrom v img e rest
    else .error .notDir

/-- The entry a lookup starts from. -/
def rootEntry : Entry := { name := [], attr := 0x10, cluster := 0, size := 0 }

def lookup : Except FatError Entry :=
  v.lookupFrom img rootEntry (components path)

/-! ## Reading a file -/

/-- The longest way `read` goes along a chain to its offset. -/
def hopsMax : Nat := 2 ^ 20

def tooShort : FatError := .corrupted "arquivo mais curto que o tamanho"

/-- Follows `n` links from `cluster`, with `left` more allowed. -/
def seek (v : Volume) (img : Image) : Nat → Nat → Nat → Except FatError Nat
  | _, 0, cluster => .ok cluster
  | left, n + 1, cluster =>
    match v.nextCluster img cluster with
    | .error e => .error e
    | .ok none => .error tooShort
    | .ok (some c) =>
      match left with
      | 0 => .error (.corrupted "cadeia longa demais")
      | left + 1 => seek v img left n c

/-- The loop of `read`: `n` more bytes from position `pos`, which is in
`cluster`. Every turn reads at least one byte, so `fuel = n` is enough. -/
def readLoop (v : Volume) (img : Image) : Nat → Nat → Nat → Nat → Except FatError (List UInt8)
  | 0, _, _, _ => .ok []
  | fuel + 1, cluster, pos, n =>
    if n = 0 then .ok []
    else
      let inCluster := pos % v.clusterBytes
      let inSector := inCluster % sectorBytes
      match v.clusterLba cluster with
      | .error e => .error e
      | .ok lba =>
        let s := img (lba + inCluster / sectorBytes)
        let take := min (sectorBytes - inSector) n
        let piece := bytes s inSector take
        if take < n ∧ (pos + take) % v.clusterBytes = 0 then
          match v.nextCluster img cluster with
          | .error e => .error e
          | .ok none => .error tooShort
          | .ok (some c) =>
            match readLoop v img fuel c (pos + take) (n - take) with
            | .error e => .error e
            | .ok rest => .ok (piece ++ rest)
        else
          match readLoop v img fuel cluster (pos + take) (n - take) with
          | .error e => .error e
          | .ok rest => .ok (piece ++ rest)

/-- Reads at most `len` bytes of `file` from `offset` on. -/
def read (file : Entry) (offset len : Nat) : Except FatError (List UInt8) :=
  if file.isDir then .error .isDir
  else if file.size ≤ offset then .ok []
  else
    let n := min len (file.size - offset)
    match v.seek img hopsMax (offset / v.clusterBytes) file.cluster with
    | .error e => .error e
    | .ok cluster => v.readLoop img n cluster offset n

/-- Lookup of a path and a read of the whole file. -/
def readFile : Except FatError (List UInt8) :=
  match v.lookup img path with
  | .error e => .error e
  | .ok e => v.read img e 0 e.size

end Volume
end NexoOS.Fat
