import NexoOS.Lib.Bytes

/-! # `vfs`: one file tree of several mounts, seen through sessions

`/disk` is the volume of `fs` and `/boot` the partition of `espfs`, both
services at the other end of a channel; `/tmp` is a small file system in the
memory of `vfs` itself. A session has a mask of mounts, and may open further
sessions with the intersection of its own mask and the one it asks for. -/

namespace NexoOS.Vfs

open Function

def MOUNT_DISK : UInt64 := 1
def MOUNT_BOOT : UInt64 := 2
def MOUNT_TMP : UInt64 := 4

def TAG_SHIFT : UInt32 := 28
def TAG_DISK : UInt32 := 1
def TAG_TMP : UInt32 := 2
def TAG_BOOT : UInt32 := 3

def E_IO : UInt8 := 1
def E_NOT_FOUND : UInt8 := 3
def E_EXISTS : UInt8 := 4
def E_NO_SPACE : UInt8 := 8
def E_TOO_BIG : UInt8 := 9
def E_INVALID_NAME : UInt8 := 10
def E_INVALID : UInt8 := 11
def E_READ_ONLY : UInt8 := 13

abbrev MAX_CLIENTS : Nat := 8
abbrev RAM_FILES : Nat := 16
def RAM_FILE_MAX : Nat := 16 * 1024
def NAME_MAX : Nat := 55
abbrev BOOT_PATHS : Nat := 16
def BOOT_PATH_MAX : Nat := 128

/-! ## The protocols

Messages are decoded; what does not decode is kept as bytes, since `check` and
`map` hand the answer of `fs` on as it came. -/

inductive FsRequest where
  | stat (path : List UInt8)
  | create (path : List UInt8)
  | mkdir (path : List UInt8)
  | unlink (path : List UInt8)
  | read (ino : UInt32) (offset : UInt64) (len : UInt32)
  | write (ino : UInt32) (offset : UInt64) (data : List UInt8)
  | list (path : List UInt8)
  | sync
  | info
  | truncate (ino : UInt32) (size : UInt64)
  | rename (src dst : List UInt8)
  | map (ino : UInt32)
  | check
  | openSession (chan : UInt32) (mounts : UInt64)
  deriving DecidableEq, Repr

def FsRequest.methodId : FsRequest → UInt32
  | .stat _ => 1
  | .create _ => 2
  | .mkdir _ => 3
  | .unlink _ => 4
  | .read .. => 5
  | .write .. => 6
  | .list _ => 7
  | .sync => 8
  | .info => 9
  | .truncate .. => 10
  | .rename .. => 11
  | .map _ => 12
  | .check => 13
  | .openSession .. => 14

inductive FsResponse where
  | stat (ino : UInt32) (kind : UInt8) (size : UInt64)
  | create (ino : UInt32)
  | mkdir (ino : UInt32)
  | unlink
  | read (data : List UInt8)
  | write (written : UInt32)
  | list (count : UInt32) (entries : List UInt8)
  | sync
  | info (totalBlocks freeBlocks repairs generation : UInt64)
  | truncate
  | rename
  | map (len : UInt64)
  | check (counts : List UInt32)
  | openSession
  deriving DecidableEq, Repr

inductive EspRequest where
  | list (path : List UInt8)
  | stat (path : List UInt8)
  | read (path : List UInt8) (offset : UInt64) (len : UInt32)

inductive EspResponse where
  | list (count : UInt32) (entries : List UInt8)
  | stat (attr : UInt8) (size : UInt32)
  | read (data : List UInt8)

/-- A message received as the answer to a request. -/
inductive Message (R : Type) where
  | response (r : R)
  | error (method code : UInt32)
  | other (bytes : List UInt8)
  deriving DecidableEq, Repr

/-- An answer of `nexo.fs`, with the handle that came beside it. -/
structure Reply where
  msg : Message FsResponse
  handle : Option UInt32 := none
  deriving DecidableEq, Repr

/-- `decode_*_response` followed by `remote_code`: the fields of the response
that belongs to the method, or the code to report. -/
def Message.decode {R α : Type} (method : UInt32) (pick : R → Option α) :
    Message R → Except UInt8 α
  | .response r => match pick r with
    | some a => .ok a
    | none => .error E_IO
  | .error m code => .error (if m = method then code.toUInt8 else E_IO)
  | .other _ => .error E_IO

/-! ## Paths -/

def slash : UInt8 := 0x2f
def diskName : List UInt8 := [0x64, 0x69, 0x73, 0x6b]
def bootName : List UInt8 := [0x62, 0x6f, 0x6f, 0x74]
def tmpName : List UInt8 := [0x74, 0x6d, 0x70]

def pathOf (p : List UInt8) : List UInt8 := p.take 256

/-- `strip_prefix(b"/")`, where there is one. -/
def stripSlash : List UInt8 → List UInt8
  | [] => []
  | c :: p => if c = slash then p else c :: p

/-- The first component of a path and what follows it. -/
def splitMount (path : List UInt8) : List UInt8 × List UInt8 :=
  let p := stripSlash path
  (p.takeWhile (· ≠ slash), (p.dropWhile (· ≠ slash)).tail)

/-! ## What the mounts hold -/

/-- A file of `/tmp`; its bytes outlive it, as the source never clears them. -/
structure RamFile where
  used : Bool
  name : List UInt8
  size : UInt32
  data : Nat → UInt8

abbrev Ramfs := Fin RAM_FILES → RamFile

def Ramfs.empty : Ramfs := fun _ => ⟨false, [], 0, fun _ => 0⟩

def Ramfs.find (r : Ramfs) (name : List UInt8) : Option (Fin RAM_FILES) :=
  (List.finRange RAM_FILES).find? fun i => (r i).used && (r i).name == name

def Ramfs.free (r : Ramfs) : Option (Fin RAM_FILES) :=
  (List.finRange RAM_FILES).find? fun i => !(r i).used

/-- The paths of `/boot` that inode numbers stand for; an entry of length `0`
is free. -/
abbrev BootTable := Fin BOOT_PATHS → List UInt8

def BootTable.remember (t : BootTable) (path : List UInt8) : Option (Fin BOOT_PATHS × BootTable) :=
  if BOOT_PATH_MAX < path.length then none
  else
    match (List.finRange BOOT_PATHS).find? fun i => t i == path with
    | some i => some (i, t)
    | none =>
      match (List.finRange BOOT_PATHS).find? fun i => (t i).isEmpty with
      | some i => some (i, update t i path)
      | none => none

/-- Everything the mounts hold: the volume behind `fs`, the partition behind
`espfs` with the paths remembered of it, and the files of `/tmp`. -/
structure World (D E : Type) where
  disk : D
  esp : E
  bootTable : BootTable
  ram : Ramfs

/-- Why an operation gives no answer: an error code, or a slice out of
bounds. -/
inductive Stop where
  | code (c : UInt8)
  | panic
  deriving DecidableEq, Repr

abbrev VfsM (D E : Type) := EStateM Stop (World D E)

section Operations

/-! ## The operations

The services are arbitrary: `fs` and `esp` say how they change and what they
answer, `none` standing for a channel that fails. -/

variable {D E : Type} (fs : D → FsRequest → D × Option Reply)
variable (esp : E → EspRequest → E × Option (Message EspResponse))

def fails {α : Type} (c : UInt8) : VfsM D E α := throw (.code c)

def orFail {α : Type} : Except UInt8 α → VfsM D E α
  | .ok a => pure a
  | .error c => fails c

def callFs (rq : FsRequest) : VfsM D E (Option Reply) :=
  modifyGet fun w => ((fs w.disk rq).2, { w with disk := (fs w.disk rq).1 })

def callEsp (rq : EspRequest) : VfsM D E (Option (Message EspResponse)) :=
  modifyGet fun w => ((esp w.esp rq).2, { w with esp := (esp w.esp rq).1 })

def bootTable : VfsM D E BootTable := modifyGet fun w => (w.bootTable, w)

def setBootTable (t : BootTable) : VfsM D E Unit :=
  modifyGet fun w => ((), { w with bootTable := t })

def ramfs : VfsM D E Ramfs := modifyGet fun w => (w.ram, w)

def setRamfs (r : Ramfs) : VfsM D E Unit := modifyGet fun w => ((), { w with ram := r })

/-- `roundtrip(FS, ..)`; a failure leaves an empty message. -/
def roundtripFs (rq : FsRequest) : VfsM D E (Message FsResponse) := do
  let r ← callFs fs rq
  pure ((r.map Reply.msg).getD (.other []))

def roundtripEsp (rq : EspRequest) : VfsM D E (Message EspResponse) := do
  let r ← callEsp esp rq
  pure (r.getD (.other []))

def bootRemember (path : List UInt8) : VfsM D E (Fin BOOT_PATHS) := do
  let t ← bootTable
  match t.remember path with
  | none => fails E_NO_SPACE
  | some (i, t') => do
    setBootTable t'
    pure i

/-- A file of `/tmp` by its inode number. -/
def ramFile (r : Ramfs) (raw : UInt32) : Option (Fin RAM_FILES) :=
  if h : raw.toNat < RAM_FILES then
    if (r ⟨raw.toNat, h⟩).used then some ⟨raw.toNat, h⟩ else none
  else none

def tagged (tag raw : UInt32) : UInt32 := raw ||| (tag <<< TAG_SHIFT)

def tmpIno (i : Fin RAM_FILES) : UInt32 := tagged TAG_TMP (UInt32.ofNat i)

/-- `/boot` distinguishes only what is not there from other failures. -/
def espCode (c : UInt8) : UInt8 := if c = 3 then E_NOT_FOUND else E_IO

variable (mounts : UInt64) (path : List UInt8)

def stat : VfsM D E FsResponse :=
  let mount := (splitMount path).1
  let rest := (splitMount path).2
  if mount = [] then pure (.stat 0 2 0)
  else if mount = diskName ∧ mounts &&& MOUNT_DISK ≠ 0 then do
    let m ← roundtripFs fs (.stat (pathOf rest))
    let r ← orFail (m.decode 1 fun
      | .stat ino kind size => some (ino, kind, size)
      | _ => none)
    pure (.stat (tagged TAG_DISK r.1) r.2.1 r.2.2)
  else if mount = bootName ∧ mounts &&& MOUNT_BOOT ≠ 0 then do
    let m ← roundtripEsp esp (.stat (pathOf rest))
    match m.decode 2 (fun | .stat attr size => some (attr, size) | _ => none) with
    | .ok (attr, size) => do
      let i ← bootRemember rest
      pure (.stat (tagged TAG_BOOT (UInt32.ofNat i)) (if attr &&& 0x10 ≠ 0 then 2 else 1)
        size.toUInt64)
    | .error c => fails (espCode c)
  else if mount = tmpName ∧ mounts &&& MOUNT_TMP ≠ 0 then
    if rest = [] then pure (.stat 0 2 0)
    else do
      let r ← ramfs
      match r.find rest with
      | none => fails E_NOT_FOUND
      | some i => pure (.stat (tmpIno i) 1 (r i).size.toUInt64)
  else fails E_NOT_FOUND

/-- A name that `/tmp` does not take: it has no directories. -/
def badName (name : List UInt8) : Bool :=
  name.isEmpty || decide (NAME_MAX < name.length) || name.contains slash

def create (dir : Bool) : VfsM D E FsResponse :=
  let mount := (splitMount path).1
  let rest := (splitMount path).2
  if mount = diskName ∧ mounts &&& MOUNT_DISK ≠ 0 then
    if dir then do
      let m ← roundtripFs fs (.mkdir (pathOf rest))
      let ino ← orFail (m.decode 3 fun | .mkdir ino => some ino | _ => none)
      pure (.mkdir (tagged TAG_DISK ino))
    else do
      let m ← roundtripFs fs (.create (pathOf rest))
      let ino ← orFail (m.decode 2 fun | .create ino => some ino | _ => none)
      pure (.create (tagged TAG_DISK ino))
  else if mount = bootName ∧ mounts &&& MOUNT_BOOT ≠ 0 then fails E_READ_ONLY
  else if mount = tmpName ∧ mounts &&& MOUNT_TMP ≠ 0 then
    if dir then fails E_INVALID
    else if badName rest then fails E_INVALID_NAME
    else do
      let r ← ramfs
      if (r.find rest).isSome then fails E_EXISTS
      else
        match r.free with
        | none => fails E_NO_SPACE
        | some i => do
          setRamfs (update r i { r i with used := true, name := rest, size := 0 })
          pure (.create (tmpIno i))
  else fails E_NOT_FOUND

def unlink : VfsM D E FsResponse :=
  let mount := (splitMount path).1
  let rest := (splitMount path).2
  if mount = diskName ∧ mounts &&& MOUNT_DISK ≠ 0 then do
    let m ← roundtripFs fs (.unlink (pathOf rest))
    let _ ← orFail (m.decode 4 fun | .unlink => some () | _ => none)
    pure .unlink
  else if mount = bootName ∧ mounts &&& MOUNT_BOOT ≠ 0 then fails E_READ_ONLY
  else if mount = tmpName ∧ mounts &&& MOUNT_TMP ≠ 0 then do
    let r ← ramfs
    match r.find rest with
    | none => fails E_NOT_FOUND
    | some i => do
      setRamfs (update r i { r i with used := false })
      pure .unlink
  else fails E_NOT_FOUND

def rename (src dst : List UInt8) : VfsM D E FsResponse :=
  let fm := (splitMount src).1
  let frest := (splitMount src).2
  let tm := (splitMount dst).1
  let trest := (splitMount dst).2
  if fm ≠ tm then fails E_INVALID
  else if fm = diskName ∧ mounts &&& MOUNT_DISK ≠ 0 then do
    let m ← roundtripFs fs (.rename (pathOf frest) (pathOf trest))
    let _ ← orFail (m.decode 11 fun | .rename => some () | _ => none)
    pure .rename
  else if fm = bootName ∧ mounts &&& MOUNT_BOOT ≠ 0 then fails E_READ_ONLY
  else if fm = tmpName ∧ mounts &&& MOUNT_TMP ≠ 0 then
    if badName trest then fails E_INVALID_NAME
    else do
      let r ← ramfs
      if (r.find trest).isSome then fails E_EXISTS
      else
        match r.find frest with
        | none => fails E_NOT_FOUND
        | some i => do
          setRamfs (update r i { r i with name := trest })
          pure .rename
  else fails E_NOT_FOUND

variable (ino : UInt32)

def tagOf : UInt32 := ino >>> TAG_SHIFT

def rawOf : UInt32 := ino &&& ((1 <<< TAG_SHIFT) - 1)

/-- The bytes of a file of `/tmp` at `offset`, at most `len` and at most a
message's worth. -/
def RamFile.slice (f : RamFile) (offset : UInt64) (len : UInt32) : Option (List UInt8) :=
  if offset < f.size.toUInt64 then
    let want := min (min len.toNat 4000) (f.size.toNat - offset.toNat)
    if offset.toNat + want ≤ RAM_FILE_MAX then some (bytes f.data offset.toNat want) else none
  else some []

def read (offset : UInt64) (len : UInt32) : VfsM D E FsResponse :=
  if tagOf ino = TAG_DISK ∧ mounts &&& MOUNT_DISK ≠ 0 then do
    let m ← roundtripFs fs (.read (rawOf ino) offset len)
    let data ← orFail (m.decode 5 fun | .read data => some data | _ => none)
    pure (.read data)
  else if tagOf ino = TAG_TMP ∧ mounts &&& MOUNT_TMP ≠ 0 then do
    let r ← ramfs
    match ramFile r (rawOf ino) with
    | none => fails E_INVALID
    | some i =>
      match (r i).slice offset len with
      | none => throw .panic
      | some data => pure (.read data)
  else if tagOf ino = TAG_BOOT ∧ mounts &&& MOUNT_BOOT ≠ 0 then do
    let t ← bootTable
    if h : (rawOf ino).toNat < BOOT_PATHS then
      if (t ⟨(rawOf ino).toNat, h⟩).isEmpty then fails E_INVALID
      else do
        let m ← roundtripEsp esp (.read (pathOf (t ⟨(rawOf ino).toNat, h⟩)) offset (min len 3500))
        let data ← orFail (m.decode 3 fun | .read data => some data | _ => none)
        pure (.read data)
    else fails E_INVALID
  else fails E_INVALID

def write (offset : UInt64) (data : List UInt8) : VfsM D E FsResponse :=
  if tagOf ino = TAG_DISK ∧ mounts &&& MOUNT_DISK ≠ 0 then do
    let m ← roundtripFs fs (.write (rawOf ino) offset (data.take 3900))
    let written ← orFail (m.decode 6 fun | .write written => some written | _ => none)
    pure (.write written)
  else if tagOf ino = TAG_TMP ∧ mounts &&& MOUNT_TMP ≠ 0 then do
    let r ← ramfs
    match ramFile r (rawOf ino) with
    | none => fails E_INVALID
    | some i =>
      -- the sum wraps, and the slice that follows then has its end before its start
      let stop := (offset.toNat + data.length) % 2 ^ 64
      if RAM_FILE_MAX < stop then fails E_TOO_BIG
      else if stop < offset.toNat then throw .panic
      else do
        setRamfs (update r i { r i with
          data := splice (r i).data offset.toNat data.length fun j => data.getD j 0
          size := max (r i).size (UInt32.ofNat stop) })
        pure (.write (UInt32.ofNat data.length))
  else if tagOf ino = TAG_BOOT ∧ mounts &&& MOUNT_BOOT ≠ 0 then fails E_READ_ONLY
  else fails E_INVALID

def truncate (size : UInt64) : VfsM D E FsResponse :=
  if tagOf ino = TAG_DISK ∧ mounts &&& MOUNT_DISK ≠ 0 then do
    let m ← roundtripFs fs (.truncate (rawOf ino) size)
    let _ ← orFail (m.decode 10 fun | .truncate => some () | _ => none)
    pure .truncate
  else if tagOf ino = TAG_TMP ∧ mounts &&& MOUNT_TMP ≠ 0 then do
    let r ← ramfs
    match ramFile r (rawOf ino) with
    | none => fails E_INVALID
    | some i => do
      setRamfs (if size < (r i).size.toUInt64 then
        update r i { r i with size := size.toUInt32 } else r)
      pure .truncate
  else if tagOf ino = TAG_BOOT ∧ mounts &&& MOUNT_BOOT ≠ 0 then fails E_READ_ONLY
  else fails E_INVALID

/-- One entry of a listing: `[ino u32][kind u8][len u8][name]`. -/
def entry (kind : UInt8) (name : List UInt8) : List UInt8 :=
  [ino.toUInt8, (ino >>> 8).toUInt8, (ino >>> 16).toUInt8, (ino >>> 24).toUInt8, kind,
    UInt8.ofNat name.length] ++ name

/-- The entries of `espfs`, `[attr u8][size u32][len u8][name]`, as those of
`nexo.fs`; `none` where a length points past the end. The loop consumes at
least six bytes a turn, so the length of the input is enough fuel. -/
def convertEntries : Nat → List UInt8 → Option (List UInt8)
  | fuel + 1, attr :: _ :: _ :: _ :: _ :: nl :: src =>
    if src.length < nl.toNat then none
    else
      (convertEntries fuel (src.drop nl.toNat)).map
        (entry 0 (if attr &&& 0x10 ≠ 0 then 2 else 1) (src.take nl.toNat) ++ ·)
  | _, _ => some []

/-- The mounts a session sees at `/`. -/
def rootNames : List (List UInt8) :=
  [(MOUNT_BOOT, bootName), (MOUNT_DISK, diskName), (MOUNT_TMP, tmpName)].filterMap
    fun (bit, name) => if mounts &&& bit ≠ 0 then some name else none

/-- The used files of `/tmp`. -/
def Ramfs.listed (r : Ramfs) : List (Fin RAM_FILES) :=
  (List.finRange RAM_FILES).filter fun i => (r i).used

def list (path : List UInt8) : VfsM D E FsResponse :=
  let mount := (splitMount path).1
  let rest := (splitMount path).2
  if mount = [] then
    pure (.list (UInt32.ofNat (rootNames mounts).length)
      ((rootNames mounts).flatMap (entry 0 2)))
  else if mount = diskName ∧ mounts &&& MOUNT_DISK ≠ 0 then do
    let m ← roundtripFs fs (.list (pathOf rest))
    let r ← orFail (m.decode 7 fun | .list count entries => some (count, entries) | _ => none)
    pure (.list r.1 r.2)
  else if mount = bootName ∧ mounts &&& MOUNT_BOOT ≠ 0 then do
    let m ← roundtripEsp esp (.list (pathOf rest))
    match m.decode 1 (fun | .list count entries => some (count, entries) | _ => none) with
    | .error c => fails (espCode c)
    | .ok (count, src) =>
      match convertEntries src.length src with
      | none => throw .panic
      | some entries => pure (.list count entries)
  else if mount = tmpName ∧ mounts &&& MOUNT_TMP ≠ 0 then
    if rest ≠ [] then fails E_NOT_FOUND
    else do
      let r ← ramfs
      pure (.list (UInt32.ofNat r.listed.length)
        (r.listed.flatMap fun i => entry (tmpIno i) 1 (r i).name))
  else fails E_NOT_FOUND

def sync : VfsM D E FsResponse :=
  if mounts &&& MOUNT_DISK ≠ 0 then do
    let m ← roundtripFs fs .sync
    let _ ← orFail (m.decode 8 fun | .sync => some () | _ => none)
    pure .sync
  else pure .sync

def info : VfsM D E FsResponse :=
  if mounts &&& MOUNT_DISK = 0 then fails E_INVALID
  else do
    let m ← roundtripFs fs .info
    orFail (m.decode 9 fun | .info a b c d => some (.info a b c d) | _ => none)

/-- `check` forwards the answer of `fs` as it came. -/
def check : VfsM D E Reply :=
  if mounts &&& MOUNT_DISK = 0 then fails 13
  else do
    let m ← roundtripFs fs .check
    pure { msg := m }

/-- `map` forwards the answer with its handle. -/
def map : VfsM D E Reply :=
  if tagOf ino ≠ TAG_DISK ∨ mounts &&& MOUNT_DISK = 0 then fails 13
  else do
    let r ← callFs fs (.map (rawOf ino))
    match r with
    | none => fails 1
    | some r => pure r

def answer (x : VfsM D E FsResponse) : VfsM D E Reply := do
  let r ← x
  pure { msg := .response r }

/-- A request of a session with the mounts `mounts`, other than `open`. -/
def serve : FsRequest → VfsM D E Reply
  | .check => check fs mounts
  | .map ino => map fs mounts ino
  | .stat path => answer (stat fs esp mounts (pathOf path))
  | .create path => answer (create fs mounts (pathOf path) false)
  | .mkdir path => answer (create fs mounts (pathOf path) true)
  | .unlink path => answer (unlink fs mounts (pathOf path))
  | .read ino offset len => answer (read fs esp mounts ino offset len)
  | .write ino offset data => answer (write fs mounts ino offset data)
  | .list path => answer (list fs esp mounts (pathOf path))
  | .openSession .. => fails E_INVALID
  | .sync => answer (sync fs mounts)
  | .info => answer (info fs mounts)
  | .truncate ino size => answer (truncate fs mounts ino size)
  | .rename src dst => answer (rename fs mounts (pathOf src) (pathOf dst))

end Operations

end NexoOS.Vfs
