import NexoOS.Lib.Bytes

/-!
# On-disk structures of NexoFS

Superblock, inodes and directory entries of `libraries/nexofs` as bytes, with
their checksums, and what is read back after a write.
-/

namespace NexoOS.Nexofs

/-! ## Constants -/

def blockBytes : Nat := 2048

def inodeSize : Nat := 128

def direntSize : Nat := 64

def nameMax : Nat := 55

/-- Direct pointers of an inode. -/
def ndirect : Nat := 12

def ptrsPerBlock : Nat := 256

def maxFile : Nat := (ndirect + ptrsPerBlock) * blockBytes

def maxBlocks : Nat := 65536

def rootIno : Nat := 1

def maxDepth : Nat := 16

/-- Directory entries of a block. -/
def perBlock : Nat := 32

inductive FsError where
  | io
  | corrupted (what : String)
  | notFound
  | exists_
  | notDir
  | isDir
  | notEmpty
  | noSpace
  | tooBig
  | invalidName
  | invalidArgs
  /-- an array is indexed out of its bounds -/
  | panic
  /-- a loop runs on past the number of rounds the model gives it -/
  | unending
  deriving DecidableEq

inductive Kind where
  | file
  | dir
  deriving DecidableEq

/-- The bytes of a block by offset. -/
abbrev Block := Nat → UInt8

def u32At (b : Nat → UInt8) (o : Nat) : Nat := leAt b o 4

def u64At (b : Nat → UInt8) (o : Nat) : Nat := leAt b o 8

/-! ## Superblock -/

structure Superblock where
  totalBlocks : Nat
  bitmapStart : Nat
  bitmapBlocks : Nat
  inodeStart : Nat
  inodeBlocks : Nat
  dataStart : Nat
  inodeCount : Nat
  generation : Nat
  deriving DecidableEq

namespace Superblock

/-- `NEXOFS00`, the first eight bytes as a number. -/
def magic : Nat := 0x303053464f58454e

def version : Nat := 0

def divCeil (a b : Nat) : Nat := (a + b - 1) / b

/-- The geometry `decode` accepts. -/
structure Geometry (sb : Superblock) : Prop where
  total_ge : 4 ≤ sb.totalBlocks
  total_le : sb.totalBlocks ≤ maxBlocks
  bitmap : sb.bitmapStart = 1
  bitmap_pos : 1 ≤ sb.bitmapBlocks
  inode : sb.inodeStart = sb.bitmapStart + sb.bitmapBlocks
  inode_pos : 1 ≤ sb.inodeBlocks
  data : sb.dataStart = sb.inodeStart + sb.inodeBlocks
  data_lt : sb.dataStart < sb.totalBlocks
  count : 2 ≤ sb.inodeCount
  inodes : divCeil (sb.inodeCount * inodeSize) blockBytes = sb.inodeBlocks
  bits : divCeil sb.totalBlocks (8 * blockBytes) = sb.bitmapBlocks

instance (sb : Superblock) : Decidable sb.Geometry :=
  decidable_of_iff (4 ≤ sb.totalBlocks ∧ sb.totalBlocks ≤ maxBlocks ∧ sb.bitmapStart = 1 ∧
      1 ≤ sb.bitmapBlocks ∧ sb.inodeStart = sb.bitmapStart + sb.bitmapBlocks ∧
      1 ≤ sb.inodeBlocks ∧ sb.dataStart = sb.inodeStart + sb.inodeBlocks ∧
      sb.dataStart < sb.totalBlocks ∧ 2 ≤ sb.inodeCount ∧
      divCeil (sb.inodeCount * inodeSize) blockBytes = sb.inodeBlocks ∧
      divCeil sb.totalBlocks (8 * blockBytes) = sb.bitmapBlocks)
    ⟨fun ⟨a, b, c, d, e, f, g, h, i, j, k⟩ => ⟨a, b, c, d, e, f, g, h, i, j, k⟩,
      fun ⟨a, b, c, d, e, f, g, h, i, j, k⟩ => ⟨a, b, c, d, e, f, g, h, i, j, k⟩⟩

def decode (b : Block) : Except FsError Superblock :=
  let sb : Superblock :=
    { totalBlocks := u64At b 16, bitmapStart := u64At b 24, bitmapBlocks := u64At b 32,
      inodeStart := u64At b 40, inodeBlocks := u64At b 48, dataStart := u64At b 56,
      inodeCount := u32At b 64, generation := u64At b 72 }
  if leAt b 0 8 ≠ magic then .error (.corrupted "assinatura do superbloco")
  else if u32At b 80 ≠ (crc32 (bytes b 0 80)).toNat then .error (.corrupted "crc do superbloco")
  else if u32At b 8 ≠ version ∨ u32At b 12 ≠ blockBytes then
    .error (.corrupted "versao/tamanho de bloco")
  else if sb.Geometry then .ok sb
  else .error (.corrupted "geometria do superbloco")

variable (sb : Superblock)

/-- The block without its checksum. -/
def fields : Block :=
  let b := putLe (fun _ => 0) 0 8 magic
  let b := putLe (putLe b 8 4 version) 12 4 blockBytes
  let b := putLe (putLe b 16 8 sb.totalBlocks) 24 8 sb.bitmapStart
  let b := putLe (putLe b 32 8 sb.bitmapBlocks) 40 8 sb.inodeStart
  let b := putLe (putLe b 48 8 sb.inodeBlocks) 56 8 sb.dataStart
  putLe (putLe b 64 4 sb.inodeCount) 72 8 sb.generation

def encode : Block :=
  putLe sb.fields 80 4 (crc32 (bytes sb.fields 0 80)).toNat

/-- The numbers fit their fields. -/
def Fits : Prop :=
  sb.totalBlocks < 256 ^ 8 ∧ sb.bitmapStart < 256 ^ 8 ∧ sb.bitmapBlocks < 256 ^ 8 ∧
    sb.inodeStart < 256 ^ 8 ∧ sb.inodeBlocks < 256 ^ 8 ∧ sb.dataStart < 256 ^ 8 ∧
    sb.inodeCount < 256 ^ 4 ∧ sb.generation < 256 ^ 8

theorem leAt_encode {sb : Superblock} {o n : Nat} (h : o + n ≤ 80) :
    leAt sb.encode o n = leAt sb.fields o n :=
  leAt_putLe_of_disjoint (.inl h)

theorem u32At_encode_crc : u32At sb.encode 80 = (crc32 (bytes sb.encode 0 80)).toNat := by
  have hbytes : bytes sb.encode 0 80 = bytes sb.fields 0 80 :=
    bytes_congr fun i hi => putLe_apply_of_not_mem (by omega)
  rw [hbytes, u32At, encode, leAt_putLe, Nat.mod_eq_of_lt (crc32_toNat_lt _)]

theorem fields_encode {sb : Superblock} (h : sb.Fits) :
    ({ totalBlocks := u64At sb.encode 16, bitmapStart := u64At sb.encode 24,
       bitmapBlocks := u64At sb.encode 32, inodeStart := u64At sb.encode 40,
       inodeBlocks := u64At sb.encode 48, dataStart := u64At sb.encode 56,
       inodeCount := u32At sb.encode 64, generation := u64At sb.encode 72 } : Superblock) = sb := by
  obtain ⟨h1, h2, h3, h4, h5, h6, h7, h8⟩ := h
  simp (disch := omega) only [u64At, u32At, leAt_encode, fields, leAt_putLe_of_disjoint, leAt_putLe]
  simp only [Nat.mod_eq_of_lt h1, Nat.mod_eq_of_lt h2, Nat.mod_eq_of_lt h3, Nat.mod_eq_of_lt h4,
    Nat.mod_eq_of_lt h5, Nat.mod_eq_of_lt h6, Nat.mod_eq_of_lt h7, Nat.mod_eq_of_lt h8]

theorem header_encode : leAt sb.encode 0 8 = magic ∧
    u32At sb.encode 8 = version ∧ u32At sb.encode 12 = blockBytes := by
  simp (disch := omega) only [u32At, leAt_encode, fields, leAt_putLe_of_disjoint, leAt_putLe]
  decide

theorem decode_encode {sb : Superblock} (h : sb.Fits) (g : sb.Geometry) :
    decode sb.encode = .ok sb := by
  obtain ⟨hmagic, hversion, hblock⟩ := header_encode sb
  unfold decode
  rw [fields_encode h, hmagic, hversion, hblock, u32At_encode_crc, if_neg (not_not.2 rfl),
    if_neg (not_not.2 rfl), if_neg (by simp), if_pos g]

end Superblock

/-! ## Inodes -/

structure Inode where
  /-- `0` free, `1` file, `2` directory -/
  kind : Nat
  size : Nat
  /-- the direct pointers by number, `0` for a hole -/
  direct : Nat → Nat
  indirect : Nat
  generation : Nat

namespace Inode

def free : Inode := { kind := 0, size := 0, direct := fun _ => 0, indirect := 0, generation := 0 }

def decode (b : Nat → UInt8) : Except FsError Inode :=
  let kind := u32At b 0
  if kind = 0 then .ok free
  else if u32At b 124 ≠ (crc32 (bytes b 0 124)).toNat then .error (.corrupted "crc de inode")
  else if kind ≠ 1 ∧ kind ≠ 2 then .error (.corrupted "tipo de inode")
  else
    .ok { kind, size := u64At b 8,
          direct := fun j => if j < ndirect then u64At b (16 + 8 * j) else 0,
          indirect := u64At b 112, generation := u32At b 120 }

def fields (i : Inode) : Nat → UInt8 :=
  let b := putLe (putLe (fun _ => 0) 0 4 i.kind) 8 8 i.size
  let b := putWords b 16 ndirect i.direct
  putLe (putLe b 112 8 i.indirect) 120 4 i.generation

def encode (i : Inode) : Nat → UInt8 :=
  if i.kind = 0 then fun _ => 0
  else putLe i.fields 124 4 (crc32 (bytes i.fields 0 124)).toNat

def kindOf (i : Inode) : Option Kind :=
  match i.kind with
  | 1 => some .file
  | 2 => some .dir
  | _ => none

/-- The numbers of an inode in use fit their fields. -/
structure Fits (i : Inode) : Prop where
  kind : i.kind = 1 ∨ i.kind = 2
  size : i.size < 256 ^ 8
  direct : ∀ j, i.direct j < 256 ^ 8
  beyond : ∀ j, ndirect ≤ j → i.direct j = 0
  indirect : i.indirect < 256 ^ 8
  generation : i.generation < 256 ^ 4

variable {b : Nat → UInt8} {i : Inode}

theorem decode_congr {b' : Nat → UInt8} (h : ∀ k, k < inodeSize → b k = b' k) :
    decode b = decode b' := by
  have hle : ∀ o n, o + n ≤ 128 → leAt b o n = leAt b' o n := fun o n hon =>
    leAt_congr fun i hi => h _ (by unfold inodeSize; omega)
  have hkind : u32At b 0 = u32At b' 0 := hle 0 4 (by omega)
  have hcrc : u32At b 124 = u32At b' 124 := hle 124 4 (by omega)
  have hsize : u64At b 8 = u64At b' 8 := hle 8 8 (by omega)
  have hind : u64At b 112 = u64At b' 112 := hle 112 8 (by omega)
  have hgen : u32At b 120 = u32At b' 120 := hle 120 4 (by omega)
  have hbytes : bytes b 0 124 = bytes b' 0 124 :=
    bytes_congr fun i hi => h _ (by unfold inodeSize; omega)
  have hdirect : (fun j => if j < ndirect then u64At b (16 + 8 * j) else 0) =
      fun j => if j < ndirect then u64At b' (16 + 8 * j) else 0 := by
    funext j
    by_cases hj : j < ndirect
    · rw [if_pos hj, if_pos hj]
      exact hle _ _ (by unfold ndirect at hj; omega)
    · rw [if_neg hj, if_neg hj]
  unfold decode
  rw [hkind, hcrc, hbytes, hsize, hdirect, hind, hgen]

theorem encode_eq (hk : i.kind ≠ 0) :
    i.encode = putLe i.fields 124 4 (crc32 (bytes i.fields 0 124)).toNat :=
  if_neg hk

theorem leAt_encode (hk : i.kind ≠ 0) {o n : Nat} (h : o + n ≤ 124) :
    leAt i.encode o n = leAt i.fields o n := by
  rw [encode_eq hk]
  exact leAt_putLe_of_disjoint (.inl h)

theorem u32At_encode_crc (hk : i.kind ≠ 0) :
    u32At i.encode 124 = (crc32 (bytes i.encode 0 124)).toNat := by
  have hbytes : bytes i.encode 0 124 = bytes i.fields 0 124 := by
    rw [encode_eq hk]
    exact bytes_congr fun k hk => putLe_apply_of_not_mem (by omega)
  rw [hbytes, u32At, encode_eq hk, leAt_putLe, Nat.mod_eq_of_lt (crc32_toNat_lt _)]

theorem decode_encode (h : i.Fits) : decode i.encode = .ok i := by
  have hk : i.kind ≠ 0 := by
    have := h.kind
    omega
  have hkind : u32At i.encode 0 = i.kind := by
    have := h.kind
    simp (disch := omega) only [u32At, leAt_encode hk, fields, leAt_putLe_of_disjoint,
      leAt_putWords_of_disjoint, leAt_putLe]
    exact Nat.mod_eq_of_lt (by omega)
  have hsize : u64At i.encode 8 = i.size := by
    simp (disch := omega) only [u64At, leAt_encode hk, fields, leAt_putLe_of_disjoint,
      leAt_putWords_of_disjoint, leAt_putLe]
    exact Nat.mod_eq_of_lt h.size
  have hind : u64At i.encode 112 = i.indirect := by
    simp (disch := omega) only [u64At, leAt_encode hk, fields, leAt_putLe_of_disjoint, leAt_putLe]
    exact Nat.mod_eq_of_lt h.indirect
  have hgen : u32At i.encode 120 = i.generation := by
    rw [u32At, leAt_encode hk (by omega), fields, leAt_putLe]
    exact Nat.mod_eq_of_lt h.generation
  have hdirect : (fun j => if j < ndirect then u64At i.encode (16 + 8 * j) else 0) = i.direct := by
    funext j
    by_cases hj : j < ndirect
    · have hj' : j < 12 := hj
      rw [if_pos hj, u64At, leAt_encode hk (by omega), fields, leAt_putLe_of_disjoint (by omega),
        leAt_putLe_of_disjoint (by omega), leAt_putWords hj]
      exact Nat.mod_eq_of_lt (h.direct j)
    · rw [if_neg hj, h.beyond j (by omega)]
  unfold decode
  rw [u32At_encode_crc hk, hkind, hsize, hdirect, hind, hgen, if_neg hk, if_neg (not_not.2 rfl),
    if_neg (by have := h.kind; omega)]

end Inode

/-! ## Directory entries -/

structure Dirent where
  ino : Nat
  name : List UInt8
  deriving DecidableEq

namespace Dirent

/-- The bytes under the checksum. -/
def covered (b : Nat → UInt8) : List UInt8 := bytes b 0 4 ++ bytes b 8 56

def decode (b : Nat → UInt8) : Except FsError (Option Dirent) :=
  let ino := u32At b 0
  if ino = 0 then .ok none
  else if u32At b 4 ≠ (crc32 (covered b)).toNat then
    .error (.corrupted "crc de entrada de diretorio")
  else
    let len := (b 8).toNat
    if len = 0 ∨ nameMax < len then .error (.corrupted "nome de entrada")
    else .ok (some { ino, name := bytes b 9 len })

def fields (ino : Nat) (name : List UInt8) : Nat → UInt8 :=
  let b := putLe (fun _ => 0) 0 4 ino
  splice (Function.update b 8 (UInt8.ofNat name.length)) 9 name.length fun i => name.getD i 0

def encode (ino : Nat) (name : List UInt8) : Nat → UInt8 :=
  putLe (fields ino name) 4 4 (crc32 (covered (fields ino name))).toNat

theorem decode_congr {b b' : Nat → UInt8} (h : ∀ k, k < direntSize → b k = b' k) :
    decode b = decode b' := by
  have hle : ∀ o n, o + n ≤ 64 → leAt b o n = leAt b' o n := fun o n hon =>
    leAt_congr fun i hi => h _ (by unfold direntSize; omega)
  have hino : u32At b 0 = u32At b' 0 := hle 0 4 (by omega)
  have hcrc : u32At b 4 = u32At b' 4 := hle 4 4 (by omega)
  have hbytes : ∀ o n, o + n ≤ 64 → bytes b o n = bytes b' o n := fun o n hon =>
    bytes_congr fun i hi => h _ (by unfold direntSize; omega)
  have hcov : covered b = covered b' := by
    unfold covered
    rw [hbytes 0 4 (by omega), hbytes 8 56 (by omega)]
  unfold decode
  rw [hino, hcrc, hcov, h 8 (by decide)]
  dsimp only
  by_cases hlen : (b' 8).toNat = 0 ∨ nameMax < (b' 8).toNat
  · rw [if_pos hlen, if_pos hlen]
  have hname : bytes b 9 (b' 8).toNat = bytes b' 9 (b' 8).toNat := by
    unfold nameMax at hlen
    exact hbytes _ _ (by omega)
  rw [if_neg hlen, if_neg hlen, hname]

theorem decode_zero : decode (fun _ => 0) = .ok none := by
  have hzero : u32At (fun _ => 0) 0 = 0 := by decide
  unfold decode
  rw [hzero]
  rfl

end Dirent

end NexoOS.Nexofs
