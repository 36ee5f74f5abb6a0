import NexoOS.Nexofs.Fs

/-!
# Writing to a full volume

`write` gives up with `NoSpace` where `alloc_block` does, and what it allocated
before stays allocated. So a write that runs out of space leaves no free block
behind, and it is clean exactly when there was none before.
-/

namespace NexoOS.Nexofs

open Prog

variable (sb : Superblock)

/-- The free blocks that `info` reports. -/
def infoFree (m : Mem) : Nat :=
  ((List.range' sb.dataStart (sb.totalBlocks - sb.dataStart)).filter (!m.bitmap ·)).length

/-- The same free blocks, and every file with the same size and contents. -/
structure Clean (m : Mem) (d : Disk Block) (m' : Mem) (d' : Disk Block) : Prop where
  free : infoFree sb m' = infoFree sb m
  sizes : ∀ ino, ((image sb d').inode ino).map Inode.size = ((image sb d).inode ino).map Inode.size
  contents : ∀ ino offset len, (image sb d').read ino offset len = (image sb d).read ino offset len

/-- When the program runs out of space, no block is free. -/
def Exhausts {α : Type} (p : FsM α) : Prop :=
  ∀ m d, (p.eval m d).1 = .error .noSpace → infoFree sb (p.eval m d).2.1 = 0

variable {sb} {α γ : Type} {m : Mem} {d : Disk Block}

theorem allocBlock_eq (sb : Superblock) (m : Mem) (d : Disk Block) :
    (allocBlock sb).eval m d = (.error .noSpace, m, d) ∧ infoFree sb m = 0 ∨
      infoFree sb m ≠ 0 ∧ ∃ b m', (allocBlock sb).eval m d = (.ok b, m', d) := by
  unfold allocBlock
  rw [eval_stateful]
  cases hfind : (List.range' sb.dataStart (sb.totalBlocks - sb.dataStart)).find? (!m.bitmap ·) with
  | none =>
    refine .inl ⟨rfl, ?_⟩
    rw [infoFree, List.length_eq_zero_iff, List.filter_eq_nil_iff]
    exact List.find?_eq_none.1 hfind
  | some b =>
    refine .inr ⟨fun hzero => ?_, b, _, rfl⟩
    rw [infoFree, List.length_eq_zero_iff, List.filter_eq_nil_iff] at hzero
    have hb := List.find?_some (p := fun x => !m.bitmap x) hfind
    exact hzero b (List.mem_of_find?_eq_some hfind) hb

/-! ## A write that fails -/

theorem Exhausts.bind {p : FsM γ} {f : γ → FsM α} (hp : Exhausts sb p)
    (hf : ∀ a, Exhausts sb (f a)) : Exhausts sb (p >>= f) := by
  intro m d
  have hfirst := hp m d
  rw [eval_bind]
  rcases heq : p.eval m d with ⟨_ | a, m', d'⟩
  · rw [heq] at hfirst
    exact fun h => hfirst (congrArg Except.error (Except.error.inj h))
  · exact hf a m' d'

theorem exhausts_reading {f : Disk Block → Except FsError α} (hf : ∀ d, f d ≠ .error .noSpace) :
    Exhausts sb (reading f) := fun _ d h => absurd h (hf d)

theorem exhausts_of_ok {p : FsM α} {a : α} (h : ∀ m d, (p.eval m d).1 = .ok a) : Exhausts sb p := by
  intro m d herr
  rw [h] at herr
  cases herr

theorem exhausts_pure (a : α) : Exhausts sb (pure a : FsM α) :=
  exhausts_of_ok fun _ _ => rfl

theorem exhausts_write (a : Nat) (b : Block) : Exhausts sb (Prog.write a b) :=
  exhausts_of_ok fun _ _ => rfl

theorem exhausts_allocBlock : Exhausts sb (allocBlock sb) := by
  intro m d h
  rcases allocBlock_eq sb m d with ⟨heq, hfree⟩ | ⟨-, b, m', heq⟩
  · rw [heq]
    exact hfree
  · rw [heq] at h
    cases h

theorem inode_ne_noSpace (d : Disk Block) (ino : Nat) :
    (image sb d).inode ino ≠ .error .noSpace := by
  change readInode sb d ino ≠ _
  unfold readInode Inode.decode
  dsimp only
  repeat' split
  all_goals nofun

theorem block_ne_noSpace (sb : Superblock) (d : Disk Block) (b : Nat) : (image sb d).block b ≠ .error .noSpace := by
  change readDataBlock sb d b ≠ _
  unfold readDataBlock
  split <;> nofun

theorem blockPtr_ne_noSpace (d : Disk Block) (inode : Inode) (idx : Nat) :
    (image sb d).blockPtr inode idx ≠ .error .noSpace := by
  unfold Image.blockPtr
  split
  · nofun
  split
  · nofun
  split
  · nofun
  have hne := block_ne_noSpace sb d inode.indirect
  cases hb : (image sb d).block inode.indirect with
  | error e =>
    rw [hb] at hne
    exact fun h => hne (congrArg _ (Except.error.inj h))
  | ok blk => nofun

theorem exhausts_keptBlock (inode : Inode) (idx take oldPtr : Nat) :
    Exhausts sb (keptBlock sb inode idx take oldPtr) := by
  unfold keptBlock
  split
  · exact .bind (exhausts_reading fun d => block_ne_noSpace sb d _) fun _ => exhausts_pure _
  · exact exhausts_pure _

theorem exhausts_placePtr (w : WriteState) (idx nb : Nat) : Exhausts sb (placePtr sb w idx nb) := by
  unfold placePtr loadIndirect
  split
  · exact exhausts_pure _
  refine .bind ?_ fun _ => exhausts_pure _
  split
  · exact .bind exhausts_allocBlock fun _ => .bind (exhausts_write _ _) fun _ => exhausts_pure _
  split
  · exact exhausts_pure _
  · exact .bind (exhausts_reading fun d => block_ne_noSpace sb d _) fun _ => exhausts_pure _

theorem exhausts_writeStep (offset : Nat) (data : List UInt8) (w : WriteState) :
    Exhausts sb (writeStep sb offset data w) :=
  .bind (exhausts_reading fun d => blockPtr_ne_noSpace d _ _) fun _ =>
    .bind (exhausts_keptBlock _ _ _ _) fun _ => .bind exhausts_allocBlock fun _ =>
      .bind (exhausts_write _ _) fun _ => .bind (exhausts_placePtr _ _ _) fun _ => exhausts_pure _

theorem exhausts_writeLoop (offset : Nat) (data : List UInt8) (fuel : Nat) (w : WriteState) :
    Exhausts sb (writeLoop sb offset data fuel w) := by
  induction fuel generalizing w with
  | zero => exact exhausts_pure _
  | succ fuel ih =>
    unfold writeLoop
    split
    · exact exhausts_pure _
    refine .bind (exhausts_writeStep offset data w) fun w' => ?_
    split
    · exact exhausts_pure _
    · exact ih w'

theorem exhausts_freeBlocks (bs : List Nat) : Exhausts sb (freeBlocks sb bs) := by
  induction bs with
  | nil => exact exhausts_pure _
  | cons b bs ih => exact .bind (exhausts_of_ok fun _ _ => rfl) fun _ => ih

theorem exhausts_commitWrite (ino offset : Nat) (w : WriteState) :
    Exhausts sb (commitWrite sb ino offset w) := by
  have hrest : ∀ inode, Exhausts sb (do
      writeInode sb ino inode
      freeBlocks sb w.old
      writeBitmap sb) := fun _ =>
    .bind (.bind (exhausts_reading fun d => by split <;> nofun) fun _ => exhausts_write _ _)
      fun _ => .bind (exhausts_freeBlocks _) fun _ => exhausts_of_ok fun _ _ => rfl
  unfold commitWrite
  split
  · exact .bind (exhausts_write _ _) fun _ => hrest _
  · exact hrest _

theorem exhausts_writeRounds (fuel ino offset : Nat) (data : List UInt8) :
    Exhausts sb (writeRounds sb fuel ino offset data) := by
  induction fuel generalizing offset data with
  | zero => exact nofun
  | succ fuel ih =>
    refine .bind (exhausts_reading fun d => inode_ne_noSpace d ino) fun inode => ?_
    split
    · nofun
    · nofun
    split
    · exact exhausts_pure _
    split
    · nofun
    refine .bind (exhausts_writeLoop _ _ _ _) fun w => .bind (exhausts_commitWrite _ _ _) fun _ => ?_
    split
    · exact .bind (ih _ _) fun _ => exhausts_pure _
    · exact exhausts_pure _

/-! ## A write with no free block -/

theorem keptBlock_eval (sb : Superblock) (inode : Inode) (idx take oldPtr : Nat) (m : Mem) (d : Disk Block) :
    ∃ r, (keptBlock sb inode idx take oldPtr).eval m d = (r, m, d) := by
  unfold keptBlock look
  split
  · rw [eval_bind, eval_reading]
    dsimp only
    cases (image sb d).block oldPtr with
    | error e => exact ⟨.error e, rfl⟩
    | ok blk => exact ⟨_, rfl⟩
  · exact ⟨_, rfl⟩

/-- With no free block, the first step of a write fails and changes nothing. -/
theorem writeStep_full (hm : infoFree sb m = 0) (offset : Nat) (data : List UInt8)
    (w : WriteState) (d : Disk Block) :
    ∃ e, (writeStep sb offset data w).eval m d = (.error e, m, d) := by
  have halloc : (allocBlock sb).eval m d = (.error .noSpace, m, d) := by
    rcases allocBlock_eq sb m d with ⟨heq, -⟩ | ⟨hne, -⟩
    · exact heq
    · exact absurd hm hne
  unfold writeStep look
  rw [eval_bind, eval_reading]
  dsimp only
  rcases (image sb d).blockPtr w.inode ((offset + w.done) / blockBytes) with e | oldPtr
  · exact ⟨e, rfl⟩
  dsimp only
  obtain ⟨r, hr⟩ := keptBlock_eval sb w.inode ((offset + w.done) / blockBytes)
    (min (blockBytes - (offset + w.done) % blockBytes) (data.length - w.done)) oldPtr m d
  rw [eval_bind, hr]
  cases r with
  | error e => exact ⟨e, rfl⟩
  | ok kept =>
    dsimp only
    rw [eval_bind, halloc]
    exact ⟨.noSpace, rfl⟩

theorem write_full (hm : infoFree sb m = 0) (ino offset : Nat) (data : List UInt8)
    (d : Disk Block) : ((write sb ino offset data).eval m d).2 = (m, d) := by
  unfold write writeRounds look
  simp only [eval_bind, eval_reading]
  rcases (image sb d).inode ino with e | inode
  · rfl
  dsimp only
  split
  · rfl
  · rfl
  split
  · rfl
  split
  · rfl
  obtain ⟨n, hn⟩ : ∃ n, data.length = n + 1 :=
    Nat.exists_eq_succ_of_ne_zero fun h => ‹¬ data = []› (List.length_eq_zero_iff.1 h)
  obtain ⟨e, he⟩ := writeStep_full hm offset data
    { inode, old := [], done := 0, ind := zeroBlock, indLoaded := false, indDirty := false } d
  rw [hn, writeLoop, if_neg (by simp [hn])]
  simp only [eval_bind, he]

/-- A write that runs out of space is clean exactly when no block was free. -/
theorem write_noSpace_clean_iff (sb : Superblock) (m : Mem) (d : Disk Block) (ino offset : Nat)
    (data : List UInt8) (h : ((write sb ino offset data).eval m d).1 = .error .noSpace) :
    Clean sb m d ((write sb ino offset data).eval m d).2.1
        ((write sb ino offset data).eval m d).2.2 ↔ infoFree sb m = 0 := by
  constructor
  · intro hclean
    rw [← hclean.free]
    exact exhausts_writeRounds _ _ _ _ m d h
  · intro hm
    rw [write_full hm]
    exact ⟨rfl, fun _ => rfl, fun _ _ _ => rfl⟩

/-- A volume with nine data blocks and the empty file `2`. -/
def smallVolume : Superblock :=
  { totalBlocks := 12, bitmapStart := 1, bitmapBlocks := 1, inodeStart := 2, inodeBlocks := 1,
    dataStart := 3, inodeCount := 32, generation := 0 }

def emptyFile : Inode :=
  { kind := 1, size := 0, direct := fun _ => 0, indirect := 0, generation := 0 }

def smallDisk : Disk Block := fun _ o => emptyFile.encode (o - 256)

theorem emptyFile_fits : emptyFile.Fits :=
  ⟨.inl rfl, by decide, fun _ => show 0 < 256 ^ 8 by decide, fun _ _ => rfl, by decide, by decide⟩

theorem smallDisk_inode : (image smallVolume smallDisk).inode 2 = .ok emptyFile := by
  have hwindow : window (smallDisk 2) 256 = emptyFile.encode := by
    funext i
    simp only [window, smallDisk, Nat.add_sub_cancel_left]
  have hpos : inodePos smallVolume 2 = (2, 256) := by decide
  unfold image readInode
  dsimp only
  rw [if_neg (by decide), hpos, hwindow]
  exact Inode.decode_encode emptyFile_fits

/-- The memory of a volume where at most block `b` is free. -/
def freeMem (b : Nat) : Mem := { bitmap := fun k => k ≠ b, repairs := 0 }

/-- Two bytes that go to two blocks, with no data block free and with one. -/
theorem smallDisk_write {b : Nat} (hb : b = 0 ∨ b = 5) :
    ((write smallVolume 2 4095 [1, 2]).eval (freeMem b) smallDisk).1 = .error .noSpace := by
  unfold write writeRounds look
  rw [eval_bind, eval_reading]
  dsimp only
  rw [smallDisk_inode]
  rcases hb with rfl | rfl <;> rfl

theorem write_noSpace_clean_iff_full : Clean smallVolume (freeMem 0) smallDisk
      ((write smallVolume 2 4095 [1, 2]).eval (freeMem 0) smallDisk).2.1
      ((write smallVolume 2 4095 [1, 2]).eval (freeMem 0) smallDisk).2.2 :=
  (write_noSpace_clean_iff smallVolume (freeMem 0) smallDisk 2 4095 [1, 2]
    (smallDisk_write (.inl rfl))).2 (by decide)

/-- The last free block is gone, and in no file. -/
theorem failed_write_takes_last_block :
    ((write smallVolume 2 4095 [1, 2]).eval (freeMem 5) smallDisk).1 = .error .noSpace ∧
      ¬ Clean smallVolume (freeMem 5) smallDisk
        ((write smallVolume 2 4095 [1, 2]).eval (freeMem 5) smallDisk).2.1
        ((write smallVolume 2 4095 [1, 2]).eval (freeMem 5) smallDisk).2.2 := by
  have herr := smallDisk_write (.inr rfl)
  refine ⟨herr, fun h => ?_⟩
  have hfree := h.free
  rw [write, exhausts_writeRounds _ _ _ _ _ _ herr] at hfree
  exact absurd hfree (by decide)

end NexoOS.Nexofs
