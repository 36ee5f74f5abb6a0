import NexoOS.Block.BlockdevOrder
import NexoOS.Block.Nvmedev
import NexoOS.Lib.Cache

/-!
# The block device of the file system server

`ChanDisk` of `services/fs/src/main.rs`: the device of `nexofs` as a client of
a block driver, with a direct-mapped cache in front. Calls come one after the
other and each sends at most one request, so that the driver's side of a call
is one exchange of a request and its reply.

Both messages fit into the buffers `req` and `reply`, so that `encode_msg` does
not fail.
-/

namespace NexoOS.Block

def blockSize : Nat := 2048
def sectorsPerBlock : Nat := blockSize / 512
abbrev cacheBlocks : Nat := 8
/-- Sectors at the end of the disk that are not in the volume. -/
def reservedTailSectors : Nat := 256

/-- `[u8; BLOCK]`. -/
abbrev Buf := { data : List UInt8 // data.length = blockSize }

/-- How `channel_send` and the `channel_recv` that follows end. -/
inductive Exchange where
  | notSent
  | noReply
  | reply (r : Reply)
deriving DecidableEq, Repr

structure ChanDisk where
  blocks : Nat
  /-- `cache_tags` and `cache`. -/
  cache : Cache (Fin cacheBlocks) Nat Buf
  hits : Nat
  misses : Nat

namespace ChanDisk

/-- `[0; BLOCK]`. -/
def zeros : Buf := ⟨List.replicate blockSize 0, List.length_replicate⟩

section Calls

variable {D : Type} (exchange : D → Request → D × Exchange)

/-- `ChanDisk::open`. The field of the reply has 64 bits, and the subtraction
saturates. -/
def «open» (s : D) : D × Except String ChanDisk :=
  match exchange s .capacity with
  | (s, .notSent) => (s, .error "send")
  | (s, .reply (.capacity sectors)) =>
    (s, .ok
      { blocks := (sectors % 2 ^ 64 - reservedTailSectors) / sectorsPerBlock
        cache := { tags := fun _ => 2 ^ 64 - 1, lines := fun _ => zeros }
        hits := 0
        misses := 0 })
  | (s, _) => (s, .error "capacidade")

def slot (block : Nat) : Fin cacheBlocks := ⟨block % cacheBlocks, Nat.mod_lt _ (by decide)⟩

def readRequest (block : Nat) : Request :=
  .read (block * sectorsPerBlock % 2 ^ 64) sectorsPerBlock

def writeRequest (block : Nat) (buf : Buf) : Request :=
  .write (block * sectorsPerBlock % 2 ^ 64) sectorsPerBlock buf.1

/-- `read_block`; `none` is `IoError`. -/
def readBlock (s : D) (d : ChanDisk) (block : Nat) : D × ChanDisk × Option Buf :=
  if block ≥ d.blocks then (s, d, none)
  else if d.cache.tags (slot block) = block then
    (s, { d with hits := (d.hits + 1) % 2 ^ 64 }, some (d.cache.lines (slot block)))
  else
    let d := { d with misses := (d.misses + 1) % 2 ^ 64 }
    match exchange s (readRequest block) with
    | (s, .reply (.read data)) =>
      if h : data.length = blockSize then
        (s, { d with cache := d.cache.put (slot block) block ⟨data, h⟩ }, some ⟨data, h⟩)
      else (s, d, none)
    | (s, _) => (s, d, none)

def writeBlock (s : D) (d : ChanDisk) (block : Nat) (buf : Buf) : D × ChanDisk × Option Unit :=
  if block ≥ d.blocks then (s, d, none)
  else
    -- the cache has the block before the driver is asked
    let d := { d with cache := d.cache.put (slot block) block buf }
    match exchange s (writeRequest block buf) with
    | (s, .reply .write) => (s, d, some ())
    | (s, _) => (s, d, none)

inductive Call where
  | read (block : Nat)
  | write (block : Nat) (buf : Buf)

def step (st : D × ChanDisk) : Call → D × ChanDisk
  | .read block =>
    let r := readBlock exchange st.1 st.2 block
    (r.1, r.2.1)
  | .write block buf =>
    let r := writeBlock exchange st.1 st.2 block buf
    (r.1, r.2.1)

def run (st : D × ChanDisk) (calls : List Call) : D × ChanDisk := calls.foldl (step exchange) st

end Calls
end ChanDisk

/-! ## Drivers -/

/-- A read or write is turned into the command that it asks for, or refused. -/
structure Direct (plan : Except ProtoError Request → Plan) : Prop where
  read : ∀ sector count, plan (.ok (.read sector count)) =
      .io { write := false, sector, count, data := [] } ∨
    ∃ method code, plan (.ok (.read sector count)) = .reply (.error method code)
  write : ∀ sector count data, plan (.ok (.write sector count data)) =
      .io { write := true, sector, count, data } ∨
    ∃ method code, plan (.ok (.write sector count data)) = .reply (.error method code)

theorem Blockdev.direct (cfg : Blockdev.Config) : Direct (Blockdev.plan cfg) where
  read sector count := by
    unfold plan
    dsimp only
    split
    · exact .inr ⟨_, _, rfl⟩
    · exact .inl rfl
  write sector count data := by
    unfold plan
    dsimp only
    split
    · exact .inr ⟨_, _, rfl⟩
    split
    · exact .inr ⟨_, _, rfl⟩
    split
    · exact .inr ⟨_, _, rfl⟩
    · exact .inl rfl

/-- A driver with its disk, as one client sees it that waits for every reply.
Its replies are right answers for the disk as the exchange leaves it, and only
a write command changes the disk, if it is carried out or not, and only in its
own sectors. Whether a request is sent, answered and carried out is open. -/
structure Driver (D : Type) where
  plan : Except ProtoError Request → Plan
  direct : Direct plan
  disk : D → Disk
  exchange : D → Request → D × Exchange
  answers : ∀ (s : D) (rq : Request) (r : Reply), (exchange s rq).2 = .reply r →
    (plan (.ok rq)).Answers (disk (exchange s rq).1) r
  frame : ∀ (s : D) (rq : Request) (i : Nat),
    (∀ c, plan (.ok rq) = .io c → c.write = true →
      ¬ (c.sector * sectorSize ≤ i ∧ i < c.sector * sectorSize + c.bytes)) →
    disk (exchange s rq).1 i = disk s i

namespace Driver

variable {D : Type} (drv : Driver D)

theorem disk_read (s : D) (sector count : Nat) :
    drv.disk (drv.exchange s (.read sector count)).1 = drv.disk s := by
  ext i
  rw [drv.frame s _ i]
  intro c hc hw
  rcases drv.direct.read sector count with h | ⟨method, code, h⟩
  · rw [h] at hc
    cases hc
    cases hw
  · rw [h] at hc
    cases hc

theorem read_answer {s : D} {sector count : Nat} {data : List UInt8}
    (h : (drv.exchange s (.read sector count)).2 = .reply (.read data)) :
    data = bytes (drv.disk s) (sector * sectorSize) (count * sectorSize) := by
  have hans := drv.answers s _ _ h
  rw [drv.disk_read] at hans
  rcases drv.direct.read sector count with hp | ⟨method, code, hp⟩
  · rw [hp] at hans
    rcases hans with ⟨_, _, herr⟩ | ⟨_, hdata⟩ | ⟨hw, _⟩
    · cases herr
    · cases hdata
      rfl
    · cases hw
  · rw [hp] at hans
    cases hans

theorem disk_write (s : D) (sector count : Nat) (data : List UInt8) {i : Nat}
    (hi : ¬ (sector * sectorSize ≤ i ∧ i < sector * sectorSize + count * sectorSize)) :
    drv.disk (drv.exchange s (.write sector count data)).1 i = drv.disk s i := by
  refine drv.frame s _ i fun c hc _ => ?_
  rcases drv.direct.write sector count data with h | ⟨method, code, h⟩
  · rw [h] at hc
    cases hc
    exact hi
  · rw [h] at hc
    cases hc

theorem write_answer {s : D} {sector count : Nat} {data : List UInt8}
    (h : (drv.exchange s (.write sector count data)).2 = .reply .write) :
    bytes (drv.disk (drv.exchange s (.write sector count data)).1) (sector * sectorSize)
      (count * sectorSize) = data.take (count * sectorSize) := by
  have hans := drv.answers s _ _ h
  rcases drv.direct.write sector count data with hp | ⟨method, code, hp⟩
  · rw [hp] at hans
    rcases hans with ⟨_, _, herr⟩ | ⟨hw, _⟩ | ⟨_, _, hdata⟩
    · cases herr
    · cases hw
    · exact hdata
  · rw [hp] at hans
    cases hans

end Driver

namespace ChanDisk

/-! ## Blocks on the disk -/

/-- What the device holds of a block. -/
def contents (disk : Disk) (block : Nat) : Buf :=
  ⟨bytes disk (block * blockSize) blockSize, length_bytes _ _ _⟩

theorem val_contents (disk : Disk) (block : Nat) :
    (contents disk block).1 = bytes disk (block * blockSize) blockSize := by
  simp only [contents]

/-- Every block of the volume has its sectors below `2 ^ 64`. -/
def Small (d : ChanDisk) : Prop := d.blocks * sectorsPerBlock < 2 ^ 64

instance (d : ChanDisk) : Decidable d.Small := inferInstanceAs (Decidable (_ < _))

variable {block : Nat} {d : ChanDisk}

theorem sector_eq (hd : d.Small) (h : block < d.blocks) :
    block * sectorsPerBlock % 2 ^ 64 = block * sectorsPerBlock := by
  refine Nat.mod_eq_of_lt ?_
  have := Nat.mul_lt_mul_of_pos_right h (show 0 < sectorsPerBlock by decide)
  exact Nat.lt_trans this hd

theorem sectors_mul (block : Nat) : block * sectorsPerBlock * sectorSize = block * blockSize ∧
      sectorsPerBlock * sectorSize = blockSize := by
  refine ⟨?_, rfl⟩
  rw [Nat.mul_assoc]
  rfl

variable {D : Type} (drv : Driver D)

theorem contents_write (hd : d.Small) {block' : Nat} (h : block < d.blocks) (hne : block' ≠ block)
    (s : D) (buf : Buf) :
    contents (drv.disk (drv.exchange s (writeRequest block buf)).1) block' =
      contents (drv.disk s) block' := by
  rw [← Subtype.coe_inj, val_contents, val_contents]
  refine bytes_congr fun i hi => drv.disk_write s _ _ _ ?_
  rw [sector_eq hd h, (sectors_mul block).1, (sectors_mul block).2]
  intro hin
  -- both blocks are multiples of the size, so that bytes of one are not bytes of the other
  rcases Nat.lt_or_gt_of_ne hne with hlt | hlt
  · have := Nat.mul_le_mul_right blockSize (Nat.succ_le_of_lt hlt)
    rw [Nat.succ_mul] at this
    omega
  have := Nat.mul_le_mul_right blockSize (Nat.succ_le_of_lt hlt)
  rw [Nat.succ_mul] at this
  omega

theorem contents_of_ack (hd : d.Small) (h : block < d.blocks) {s : D} {buf : Buf}
    (hack : (drv.exchange s (writeRequest block buf)).2 = .reply .write) :
    contents (drv.disk (drv.exchange s (writeRequest block buf)).1) block = buf := by
  have hans := drv.write_answer hack
  rw [(sectors_mul block).2, List.take_of_length_le (Nat.le_of_eq buf.2), sector_eq hd h,
    (sectors_mul block).1] at hans
  rw [← Subtype.coe_inj, val_contents, writeRequest, sector_eq hd h]
  exact hans

theorem contents_of_read (hd : d.Small) (h : block < d.blocks) {s : D} {data : List UInt8}
    (hread : (drv.exchange s (readRequest block)).2 = .reply (.read data)) :
    data = (contents (drv.disk s) block).1 := by
  have hans := drv.read_answer hread
  rw [sector_eq hd h, (sectors_mul block).1, (sectors_mul block).2] at hans
  rw [val_contents]
  exact hans

/-! ## Coherence -/

/-- The cache gives out what is on the disk. -/
def Coherent (drv : Driver D) (s : D) (d : ChanDisk) : Prop :=
  d.cache.Coherent slot (· < d.blocks) (contents (drv.disk s))

/-- What the device holds of the block, once the driver has dealt with the
write, is what was to be written. -/
def Lands (drv : Driver D) (st : D × ChanDisk) : Call → Prop
  | .read _ => True
  | .write block buf => block < st.2.blocks →
    contents (drv.disk (drv.exchange st.1 (writeRequest block buf)).1) block = buf

def AllLand (drv : Driver D) : D × ChanDisk → List Call → Prop
  | _, [] => True
  | st, c :: calls => Lands drv st c ∧ AllLand drv (step drv.exchange st c) calls

structure Inv (drv : Driver D) (st : D × ChanDisk) : Prop where
  small : st.2.Small
  coherent : Coherent drv st.1 st.2

theorem inv_open {s s' : D} (h : «open» drv.exchange s = (s', .ok d)) : Inv drv (s', d) := by
  unfold «open» at h
  split at h
  · cases congrArg Prod.snd h
  · cases h
    rename_i sectors _
    have hlt : sectors % 2 ^ 64 < 2 ^ 64 := Nat.mod_lt _ (by decide)
    constructor
    case small =>
      simp only [Small, sectorsPerBlock, blockSize, reservedTailSectors]
      omega
    case coherent =>
      refine Cache.coherent_of_invalid fun p => ?_
      simp only [sectorsPerBlock, blockSize, reservedTailSectors]
      omega
  · cases congrArg Prod.snd h

/-- A read that succeeds gives what the device holds, and the invariant stays. -/
theorem readBlock_spec {s : D} (hi : Inv drv (s, d)) (block : Nat) :
    let r := readBlock drv.exchange s d block
    Inv drv (r.1, r.2.1) ∧ r.2.1.blocks = d.blocks ∧ drv.disk r.1 = drv.disk s ∧
      ∀ buf, r.2.2 = some buf → buf = contents (drv.disk r.1) block := by
  intro r
  have hr : r = readBlock drv.exchange s d block := rfl
  clear_value r
  unfold readBlock at hr
  split at hr
  · cases hr
    exact ⟨hi, rfl, rfl, nofun⟩
  rename_i hlt
  have hlt : block < d.blocks := Nat.lt_of_not_le hlt
  split at hr
  · rename_i htag
    cases hr
    refine ⟨⟨hi.small, hi.coherent⟩, rfl, rfl, fun buf hbuf => ?_⟩
    cases hbuf
    exact hi.coherent block hlt htag
  · dsimp only at hr
    have hdisk := drv.disk_read s (block * sectorsPerBlock % 2 ^ 64) sectorsPerBlock
    rw [← readRequest] at hdisk
    have hkept : Coherent drv (drv.exchange s (readRequest block)).1 d := by
      rw [Coherent, hdisk]
      exact hi.coherent
    split at hr
    · rename_i s' data hx
      rw [hx] at hdisk hkept
      have hdata := contents_of_read drv hi.small hlt (congrArg Prod.snd hx)
      split at hr
      · rename_i hlen
        have heq : (⟨data, hlen⟩ : Buf) = contents (drv.disk s') block := by
          rw [hdisk]
          exact Subtype.ext hdata
        cases hr
        refine ⟨⟨hi.small, ?_⟩, rfl, hdisk, fun buf hbuf => ?_⟩
        · exact (hkept.put_iff hlt fun _ _ _ => rfl).mpr heq
        · cases hbuf
          exact heq
      · cases hr
        exact ⟨⟨hi.small, hkept⟩, rfl, hdisk, nofun⟩
    · rename_i s' x _ hx
      rw [hx] at hdisk hkept
      cases hr
      exact ⟨⟨hi.small, hkept⟩, rfl, hdisk, nofun⟩

theorem writeBlock_eq (h : block < d.blocks) (s : D) (buf : Buf) :
    (writeBlock drv.exchange s d block buf).1 = (drv.exchange s (writeRequest block buf)).1 ∧
      (writeBlock drv.exchange s d block buf).2.1 =
        { d with cache := d.cache.put (slot block) block buf } := by
  unfold writeBlock
  rw [if_neg (Nat.not_le.mpr h)]
  split
  · rename_i hx
    rw [hx]
    exact ⟨rfl, rfl⟩
  rename_i hx
  rw [hx]
  exact ⟨rfl, rfl⟩

theorem coherent_writeBlock_iff {s : D} (hi : Inv drv (s, d)) (h : block < d.blocks) (buf : Buf) :
    Coherent drv (writeBlock drv.exchange s d block buf).1
        (writeBlock drv.exchange s d block buf).2.1 ↔ Lands drv (s, d) (.write block buf) := by
  obtain ⟨hs, hd⟩ := writeBlock_eq drv h s buf
  rw [hs, hd, Coherent]
  rw [hi.coherent.put_iff h fun block' hne _ => contents_write drv hi.small h hne s buf]
  exact ⟨fun heq _ => heq.symm, fun heq => (heq h).symm⟩

theorem Inv.step {st : D × ChanDisk} (hi : Inv drv st) {c : Call} (hc : Lands drv st c) :
    Inv drv (step drv.exchange st c) := by
  obtain ⟨s, d⟩ := st
  cases c with
  | read block => exact (readBlock_spec drv hi block).1
  | write block buf =>
    by_cases h : block < d.blocks
    · refine ⟨?_, (coherent_writeBlock_iff drv hi h buf).mpr hc⟩
      rw [ChanDisk.step, (writeBlock_eq drv h s buf).2]
      exact hi.small
    · rw [ChanDisk.step, writeBlock, if_pos (Nat.le_of_not_lt h)]
      exact hi

theorem Inv.run {st : D × ChanDisk} (hi : Inv drv st) {calls : List Call}
    (h : AllLand drv st calls) : Inv drv (run drv.exchange st calls) := by
  induction calls generalizing st with
  | nil => exact hi
  | cons c calls ih => exact ih (hi.step drv h.1) h.2

/-- The next read of a block that was just written comes from the cache. -/
theorem readBlock_writeBlock (h : block < d.blocks) (s : D) (buf : Buf) :
    let w := writeBlock drv.exchange s d block buf
    let r := readBlock drv.exchange w.1 w.2.1 block
    r.1 = (drv.exchange s (writeRequest block buf)).1 ∧ r.2.2 = some buf := by
  intro w r
  have hr : r = readBlock drv.exchange w.1 w.2.1 block := rfl
  obtain ⟨hs, hd⟩ := writeBlock_eq drv h s buf
  change w.1 = _ at hs
  change w.2.1 = _ at hd
  rw [hs, hd, readBlock, if_neg (Nat.not_le.mpr h), if_pos (Cache.put_tags_self _ _ _ _)] at hr
  rw [hr]
  exact ⟨rfl, congrArg some (Cache.put_lines_self _ _ _ _)⟩

theorem run_append_write (st : D × ChanDisk) (calls : List Call) (block : Nat) (buf : Buf) :
    run drv.exchange st (calls ++ [.write block buf]) =
      ((writeBlock drv.exchange (run drv.exchange st calls).1 (run drv.exchange st calls).2
          block buf).1,
        (writeBlock drv.exchange (run drv.exchange st calls).1 (run drv.exchange st calls).2
          block buf).2.1) := by
  rw [run, List.foldl_append, run]
  rfl

/-- From `open` on, over any calls whose writes all land, a read that succeeds
gives what the device holds; and one write of a block of the volume that does
not land is enough for the next read to give something else. -/
theorem cache_coherent {s₀ s : D} {d : ChanDisk} (h : «open» drv.exchange s₀ = (s, .ok d)) :
    (∀ calls block buf, AllLand drv (s, d) calls →
      (readBlock drv.exchange (run drv.exchange (s, d) calls).1
        (run drv.exchange (s, d) calls).2 block).2.2 = some buf →
      buf = contents (drv.disk (readBlock drv.exchange (run drv.exchange (s, d) calls).1
        (run drv.exchange (s, d) calls).2 block).1) block) ∧
    ∀ calls block buf, block < (run drv.exchange (s, d) calls).2.blocks →
      ¬ Lands drv (run drv.exchange (s, d) calls) (.write block buf) →
      ∃ s' d' buf', readBlock drv.exchange (run drv.exchange (s, d) (calls ++ [.write block buf])).1
          (run drv.exchange (s, d) (calls ++ [.write block buf])).2 block =
        (s', d', some buf') ∧ buf' ≠ contents (drv.disk s') block := by
  refine ⟨fun calls block buf hland hread => ?_, fun calls block buf hlt hnot => ?_⟩
  · exact (readBlock_spec drv ((inv_open drv h).run drv hland) block).2.2.2 buf hread
  rw [run_append_write]
  generalize run drv.exchange (s, d) calls = st at hlt hnot ⊢
  obtain ⟨hs, hbuf⟩ := readBlock_writeBlock drv hlt st.1 buf
  refine ⟨_, _, buf, Prod.ext rfl (Prod.ext rfl hbuf), fun heq => hnot fun _ => ?_⟩
  rw [← hs]
  exact heq.symm

/-! ## A disk that carries out every command -/

/-- The exchange of a request with this plan, when every command succeeds. -/
def carryOut (disk : Disk) : Plan → Disk × Exchange
  | .reply r => (disk, .reply r)
  | .io c =>
    if c.write then (splice disk (c.sector * sectorSize) c.bytes (bufOf c.data), .reply .write)
    else (disk, .reply (.read (bytes disk (c.sector * sectorSize) c.bytes)))

theorem answers_carryOut {disk : Disk} {p : Plan} {r : Reply}
    (hlen : ∀ c, p = .io c → c.write = true → c.bytes ≤ c.data.length)
    (h : (carryOut disk p).2 = .reply r) : p.Answers (carryOut disk p).1 r := by
  cases p with
  | reply r' =>
    cases h
    rfl
  | io c =>
    unfold carryOut at h ⊢
    dsimp only at h ⊢
    cases hw : c.write with
    | false =>
      rw [hw] at h
      cases h
      exact .inr (.inl ⟨hw, rfl⟩)
    | true =>
      rw [hw] at h
      cases h
      refine .inr (.inr ⟨hw, rfl, ?_⟩)
      rw [if_pos rfl, bytes_splice, bytes_bufOf (hlen c rfl hw)]

theorem carryOut_frame {disk : Disk} {p : Plan} {i : Nat} (h : ∀ c, p = .io c → c.write = true →
      ¬ (c.sector * sectorSize ≤ i ∧ i < c.sector * sectorSize + c.bytes)) :
    (carryOut disk p).1 i = disk i := by
  cases p with
  | reply r => rfl
  | io c =>
    unfold carryOut
    dsimp only
    split
    · rename_i hw
      exact splice_of_not_mem (h c rfl hw)
    · rfl

/-- `blockdev` with a device that never fails. -/
def plainDriver (cfg : Blockdev.Config) : Driver Disk where
  plan := Blockdev.plan cfg
  direct := Blockdev.direct cfg
  disk := id
  exchange disk rq := carryOut disk (Blockdev.plan cfg (.ok rq))
  answers _ _ _ h := answers_carryOut (fun _ hc => Blockdev.plan_io_length hc) h
  frame _ _ _ h := carryOut_frame h

theorem plainDriver_ack {cfg : Blockdev.Config} (hcfg : cfg.readOnly = false)
    (hfit : (block * sectorsPerBlock % 2 ^ 64 + sectorsPerBlock) % 2 ^ 64 ≤ cfg.capacity)
    (disk : Disk) (buf : Buf) :
    ((plainDriver cfg).exchange disk (writeRequest block buf)).2 = .reply .write := by
  have hplan : Blockdev.plan cfg (.ok (writeRequest block buf)) =
      .io { write := true, sector := block * sectorsPerBlock % 2 ^ 64, count := sectorsPerBlock,
            data := buf.1 } := by
    have hcheck : ¬ (sectorsPerBlock = 0 ∨ sectorsPerBlock > maxSectors ∨
        Blockdev.pastCapacity cfg (block * sectorsPerBlock % 2 ^ 64) sectorsPerBlock) :=
      not_or.mpr ⟨by decide, not_or.mpr ⟨by decide, Nat.not_lt.mpr hfit⟩⟩
    have hlen : ¬ buf.1.length < sectorsPerBlock * sectorSize := by
      rw [buf.2, (sectors_mul 0).2]
      exact Nat.lt_irrefl _
    simp only [writeRequest, Blockdev.plan, hcfg, if_neg hcheck, if_neg hlen, Bool.false_eq_true,
      if_false]
  simp only [plainDriver, hplan, carryOut, if_true]

theorem volume_sizeLog : 4 ≤ 6 := by decide

def volume (readOnly : Bool) : Blockdev.Config where
  capacity := 1000
  readOnly := readOnly
  serial := []
  sizeLog := 4
  sizeLog_le := volume_sizeLog
  irq := false
  crashAfter := 0

def volumeDisk : ChanDisk where
  blocks := 186
  cache := { tags := fun _ => 2 ^ 64 - 1, lines := fun _ => zeros }
  hits := 0
  misses := 0

def ones : Buf := ⟨List.replicate blockSize 1, List.length_replicate⟩

/-- On a read-only disk a write is refused, and its block then read back. -/
theorem refused_write_read_back : let drv := plainDriver (volume true)
    «open» drv.exchange (fun _ => 0) = (fun _ => 0, .ok volumeDisk) ∧
      (writeBlock drv.exchange (fun _ => 0) volumeDisk 0 ones).2.2 = none ∧
      ∃ s' d' buf, readBlock drv.exchange (writeBlock drv.exchange (fun _ => 0) volumeDisk 0 ones).1
          (writeBlock drv.exchange (fun _ => 0) volumeDisk 0 ones).2.1 0 = (s', d', some buf) ∧
        buf ≠ contents (drv.disk s') 0 := by
  intro drv
  refine ⟨rfl, rfl, ?_⟩
  have hfirst : 0 < volumeDisk.blocks := by decide
  have hbuf := (readBlock_writeBlock drv hfirst (fun _ => 0) ones).2
  refine ⟨_, _, ones, Prod.ext rfl (Prod.ext rfl hbuf), fun heq => ?_⟩
  rw [(writeBlock_eq drv hfirst _ _).1] at heq
  have hbyte : ones.1.getD 0 0 = (contents (fun _ => 0) 0).1.getD 0 0 :=
    congrArg (fun b : Buf => b.1.getD 0 0) heq
  exact absurd hbyte (by decide +kernel)

/-- A block is written and read back. -/
theorem cache_coherent_volume : let drv := plainDriver (volume false)
    let st := run drv.exchange (fun _ => 0, volumeDisk) [.write 5 ones]
    AllLand drv (fun _ => 0, volumeDisk) [.write 5 ones] ∧
      (readBlock drv.exchange st.1 st.2 5).2.2 = some ones ∧
      ones = contents (drv.disk (readBlock drv.exchange st.1 st.2 5).1) 5 := by
  generalize ones = buf
  intro drv st
  have hland : AllLand drv (fun _ => 0, volumeDisk) [.write 5 buf] := by
    refine ⟨fun h => ?_, trivial⟩
    exact contents_of_ack drv (d := volumeDisk) (by decide) h (plainDriver_ack rfl (by decide) _ _)
  have hread : (readBlock drv.exchange st.1 st.2 5).2.2 = some buf :=
    (readBlock_writeBlock drv (by decide) _ buf).2
  have hopen : «open» drv.exchange (fun _ => 0) = (fun _ => 0, .ok volumeDisk) := rfl
  exact ⟨hland, hread, (cache_coherent drv hopen).1 _ 5 buf hland hread⟩

end ChanDisk
end NexoOS.Block
