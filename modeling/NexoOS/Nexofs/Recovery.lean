import NexoOS.Nexofs.Sweep

/-!
# Recovery as a whole

`Settled` says of a disk that the walk from the root removes nothing, that every inode
in use was met and that the bitmap is the one the walk rebuilds. `check` leaves every
disk it accepts settled (`settled_of_check`), does nothing to a settled disk
(`Settled.check`), and `verifica` finds a settled disk intact (`Settled.verify`). The
walk ends on every image (`rootWalk_ne_unending`).
-/

namespace NexoOS.Nexofs

open Function List Prog

section
variable (sb : Superblock)

/-- The walk of `check` from the root: what it met and what it removes. -/
def rootWalk (v : Image) : Except FsError (Walker × List (Nat × Nat)) :=
  match v.inode rootIno with
  | .error e => .error e
  | .ok root =>
    if root.kindOf ≠ some .dir then .error (.corrupted "raiz")
    else
      match markInode sb v (metadataBits sb) (fun _ => false) rootIno root with
      | .error e => .error e
      | .ok (bm, used) => walk sb v (walkFuel sb) ⟨bm, used, [(rootIno, 0)]⟩

/-- Recovery has nothing to do on this disk; `w` is what the walk meets. -/
structure Settled (d : Disk Block) (w : Walker) : Prop where
  walk : rootWalk sb (image sb d) = .ok (w, [])
  orphans : ∀ ino, orphan sb d w.used ino = false
  beyond : ∀ ino, maxInodes ≤ ino → ino < sb.inodeCount → rawKind sb d ino = 0
  bitmap : ∀ b, b < maxBlocks → readBitmap sb d b = w.bm b

end

section
variable {sb : Superblock} {v v₀ : Image} {w w' : Walker} {cuts : List (Nat × Nat)} {m : Mem}
  {d d' : Disk Block}

/-! ## The start of the walk -/

theorem rootWalk_ok (h : rootWalk sb v = .ok (w, cuts)) :
    ∃ root bm used, v.inode rootIno = .ok root ∧ root.kindOf = some .dir ∧
      markInode sb v (metadataBits sb) (fun _ => false) rootIno root = .ok (bm, used) ∧
      walk sb v (walkFuel sb) ⟨bm, used, [(rootIno, 0)]⟩ = .ok (w, cuts) := by
  unfold rootWalk at h
  split at h
  · cases h
  rename_i root hroot
  split at h
  · cases h
  rename_i hkind
  split at h
  · cases h
  · exact ⟨root, _, _, hroot, not_not.mp hkind, ‹_›, h⟩

theorem walked_empty (g : sb.Geometry) : Walked sb v ⟨metadataBits sb, fun _ => false, []⟩ where
  known _ hx := nomatch hx
  refs _ _ hx := nomatch hx
  apart _ _ _ _ hx := nomatch hx
  inside b hb := by
    have := g.data_lt
    have : b < sb.dataStart := of_decide_eq_true hb
    omega
  frames _ hf := nomatch hf
  distinct := nodup_nil

variable {used : Nat → Bool} {m' : Mem} {ino blk : Nat} {r : Report}

theorem walked_root (g : sb.Geometry) (hv : v.Of sb) {root : Inode} {bm : Nat → Bool}
    (hroot : v.inode rootIno = .ok root)
    (hmark : markInode sb v (metadataBits sb) (fun _ => false) rootIno root = .ok (bm, used)) :
    Walked sb v ⟨bm, used, [(rootIno, 0)]⟩ := by
  have hempty := walked_empty (v := v) g
  have hmarked := hempty.mark hv hroot hmark
  obtain ⟨-, -, -, -, rfl⟩ := markInode_ok.mp hmark
  have hused : update (fun _ => false) rootIno true rootIno = true :=
    update_self ..
  exact hmarked.push hused not_mem_nil

/-! ## The walk ends -/

/-- An error passed on is not the one the part it comes from never gives. -/
theorem pass_ne {α β : Type} {x : Except FsError α} {e e' : FsError} (h : x ≠ .error e')
    (hx : x = .error e) : (.error e : Except FsError β) ≠ .error e' := by
  rw [hx] at h
  exact fun he => h (congrArg _ (Except.error.inj he))

/-- Readers whose errors are not the one of a loop that runs on. -/
structure Image.Ends (v : Image) : Prop where
  inode : ∀ x, v.inode x ≠ .error .unending
  block : ∀ b, v.block b ≠ .error .unending

theorem image_ends (sb : Superblock) (d : Disk Block) : (image sb d).Ends where
  inode x := by
    change readInode sb d x ≠ _
    unfold readInode Inode.decode
    dsimp only
    split
    · exact nofun
    split
    · exact nofun
    split
    · exact nofun
    split <;> exact nofun
  block b := by
    change readDataBlock sb d b ≠ _
    unfold readDataBlock
    split <;> exact nofun

namespace Image.Ends

theorem blockPtr (h : v.Ends) (inode : Inode) (k : Nat) :
    v.blockPtr inode k ≠ .error .unending := by
  unfold Image.blockPtr
  split
  · exact nofun
  split
  · exact nofun
  split
  · exact nofun
  cases hb : v.block inode.indirect with
  | error e => exact pass_ne (h.block inode.indirect) hb
  | ok blk => exact nofun

theorem decode (b : Nat → UInt8) : Dirent.decode b ≠ .error .unending := by
  unfold Dirent.decode
  dsimp only
  split
  · exact nofun
  split
  · exact nofun
  split <;> exact nofun

theorem slotAt (h : v.Ends) (inode : Inode) (j : Nat) : v.slotAt inode j ≠ .error .unending := by
  unfold Image.slotAt
  split
  · exact pass_ne (h.blockPtr inode _) ‹_›
  · exact nofun
  split
  · exact pass_ne (h.block _) ‹_›
  · exact decode _

theorem collect {g : Nat → Except FsError (Option Dirent)} (hg : ∀ j, g j ≠ .error .unending)
    (n j : Nat) : (collect g n j).2 ≠ some .unending := by
  induction n generalizing j with
  | zero => exact nofun
  | succ n ih =>
    rw [Image.collect]
    have hj := hg j
    rcases hgj : g j with e | _ | e
    · rw [hgj] at hj
      exact fun he => hj (congrArg _ (Option.some.inj he))
    · exact ih (j + 1)
    · exact ih (j + 1)

theorem firstEntry (h : v.Ends) (dir : Inode) (p : Nat → Dirent → Bool) :
    v.firstEntry dir p ≠ .error .unending := by
  rw [firstEntry_eq, entries_eq]
  split
  · exact nofun
  have := collect (h.slotAt dir) (dir.size / direntSize) 0
  split
  · rename_i he
    rw [he] at this
    exact fun he => this (congrArg _ (Except.error.inj he))
  · exact nofun

end Image.Ends

variable (bm : Nat → Bool)

theorem markBlock_ends (b : Nat) : markBlock sb bm b ≠ .error .unending := by
  unfold markBlock
  split
  · exact nofun
  split <;> exact nofun

theorem markBlocks_ends (bs : List Nat) : markBlocks sb bm bs ≠ .error .unending := by
  induction bs generalizing bm with
  | nil => exact nofun
  | cons b bs ih =>
    rw [markBlocks]
    split
    · exact pass_ne (markBlock_ends bm b) ‹_›
    · exact ih _

theorem markRefs_ends (hv : v.Ends) (bm : Nat → Bool) (inode : Inode) :
    markRefs sb v bm inode ≠ .error .unending := by
  unfold markRefs
  split
  · exact pass_ne (markBlocks_ends bm _) ‹_›
  split
  · exact nofun
  split
  · exact pass_ne (markBlock_ends _ _) ‹_›
  split
  · exact pass_ne (hv.block _) ‹_›
  · exact markBlocks_ends _ _

theorem markInode_ends (hv : v.Ends) (bm used : Nat → Bool) (ino : Nat) (inode : Inode) :
    markInode sb v bm used ino inode ≠ .error .unending := by
  unfold markInode
  split
  · exact nofun
  split
  · exact nofun
  split
  · exact nofun
  split
  · exact pass_ne (markRefs_ends hv bm inode) ‹_›
  · exact nofun

theorem turn_ends (hv : v.Ends) (w : Walker) : turn sb v w ≠ .error .unending := by
  unfold turn
  split
  · exact nofun
  split
  · exact pass_ne (hv.inode _) ‹_›
  split
  · exact pass_ne (hv.firstEntry _ _) ‹_›
  · exact nofun
  unfold enter
  split
  · exact pass_ne (hv.inode _) ‹_›
  split
  · exact nofun
  split
  · exact nofun
  split
  · exact pass_ne (markInode_ends hv _ _ _ _) ‹_›
  split
  · split <;> exact nofun
  · exact nofun

/-- The walk of `check` comes to an end, whatever the directories refer to. -/
theorem rootWalk_ne_unending (g : sb.Geometry) (hv : v.Of sb) (he : v.Ends) :
    rootWalk sb v ≠ .error .unending := by
  unfold rootWalk
  split
  · exact pass_ne (he.inode _) ‹_›
  rename_i root hroot
  split
  · exact nofun
  split
  · exact pass_ne (markInode_ends he _ _ _ _) ‹_›
  rename_i bm used hmark
  refine walk_ne_unending (walked_root g hv hroot hmark) hv (turn_ends he) ?_
  have hunmet : unmet sb used ≤ sb.inodeCount := by
    unfold unmet
    exact (length_filter_le _ _).trans (by rw [length_range])
  have hmul := Nat.mul_le_mul_left (maxSlots + 2) hunmet
  unfold Walker.rounds walkFuel
  rw [map_cons, map_nil, sum_cons, sum_nil, Nat.mul_add]
  dsimp only
  omega

/-! ## The bitmap -/

theorem testBit_packByte (f : Nat → Bool) {k : Nat} (hk : k < 8) :
    (packByte f).toNat.testBit k = f k := by
  have hlt : Nat.ofBits (fun k : Fin 8 => f k) < 2 ^ 8 := Nat.ofBits_lt_two_pow _
  unfold packByte
  rw [UInt8.toNat_ofNat', Nat.mod_eq_of_lt hlt, Nat.testBit_ofBits_lt _ _ hk]

theorem readBitmap_write (b : Nat) : readBitmap sb (d.writeAll
      ((List.range sb.bitmapBlocks).map fun i => (sb.bitmapStart + i, bitmapBlock bm i))) b =
      (decide (b < bitsPerBlock * sb.bitmapBlocks) && bm b) := by
  unfold readBitmap
  by_cases hb : b < bitsPerBlock * sb.bitmapBlocks
  · have hblk : b / bitsPerBlock < sb.bitmapBlocks := Nat.div_lt_of_lt_mul hb
    have hpos : bitsPerBlock * (b / bitsPerBlock) + 8 * (b % bitsPerBlock / 8) + b % 8 = b := by
      unfold bitsPerBlock blockBytes
      omega
    rw [Disk.writeAll_range, if_pos ⟨Nat.le_add_right _ _, Nat.add_lt_add_left hblk _⟩,
      Nat.add_sub_cancel_left, bitmapBlock,
      testBit_packByte _ (Nat.mod_lt b (by decide)), hpos]
  · simp [hb]

theorem eval_mendBitmap (disk : Nat → Bool) : (mendBitmap sb disk).eval m d =
    if ∀ b < maxBlocks, disk b = m.bitmap b then (.ok (), m, d)
    else (.ok (), { m with repairs := m.repairs + 1 }, d.writeAll
      ((List.range sb.bitmapBlocks).map fun i => (sb.bitmapStart + i, bitmapBlock m.bitmap i))) := by
  by_cases hsame : ∀ b < maxBlocks, disk b = m.bitmap b
  · have h : mendBitmap sb disk m d = (.ok (), m, []) := if_pos hsame
    rw [if_pos hsame, Prog.eval, h]
    rfl
  have h : mendBitmap sb disk m d = (do addRepairs 1; writeBitmap sb : FsM Unit) m d :=
    if_neg hsame
  rw [if_neg hsame, Prog.eval, h]
  rfl

theorem total_le_bits (g : sb.Geometry) : sb.totalBlocks ≤ bitsPerBlock * sb.bitmapBlocks := by
  have hbits := g.bits
  unfold Superblock.divCeil at hbits
  unfold bitsPerBlock
  unfold blockBytes at *
  omega

/-- After the last step of `check` the bitmap on disk is the one in memory. -/
theorem mendBitmap_ok (g : sb.Geometry) {disk : Nat → Bool}
    (hdisk : ∀ b, readBitmap sb d b = disk b) (hin : ∀ b, m.bitmap b = true → b < sb.totalBlocks)
    (h : (mendBitmap sb disk).eval m d = (.ok (), m', d')) :
    (∀ b, b < maxBlocks → readBitmap sb d' b = m.bitmap b) ∧
      ∀ b, ¬ (sb.bitmapStart ≤ b ∧ b < sb.bitmapStart + sb.bitmapBlocks) → d' b = d b := by
  rw [eval_mendBitmap] at h
  split at h
  · rename_i hsame
    cases h
    exact ⟨fun b hb => (hdisk b).trans (hsame b hb), fun _ _ => rfl⟩
  cases h
  refine ⟨fun b _ => ?_, fun b hb => by rw [Disk.writeAll_range, if_neg hb]⟩
  rw [readBitmap_write]
  cases hbm : m.bitmap b with
  | false => exact Bool.and_false _
  | true =>
    have := hin b hbm
    have := total_le_bits g
    rw [Bool.and_true, decide_eq_true (by omega)]

/-! ## The inodes the walk did not meet -/

theorem rawKind_congr (h : ∀ o, o < blockBytes →
      d' (sb.inodeStart + ino / inodesPerBlock) o = d (sb.inodeStart + ino / inodesPerBlock) o) :
    rawKind sb d' ino = rawKind sb d ino := by
  unfold rawKind u32At
  refine leAt_congr fun i hi => h _ ?_
  unfold inodesPerBlock inodeSize blockBytes
  omega

/-- An inode in use past the array of the inodes met. -/
def pastArray (sb : Superblock) (d : Disk Block) (blk : Nat) : Bool :=
  (inodesOf blk).any fun ino =>
    decide (maxInodes ≤ ino) && decide (ino < sb.inodeCount) && rawKind sb d ino != 0

theorem pastArray_eq_false : pastArray sb d blk = false ↔
    ∀ ino ∈ inodesOf blk, maxInodes ≤ ino → ino < sb.inodeCount → rawKind sb d ino = 0 := by
  unfold pastArray
  rw [any_eq_false]
  refine forall_congr' fun ino => forall_congr' fun _ => ?_
  rw [Bool.and_eq_true, Bool.and_eq_true, decide_eq_true_eq, decide_eq_true_eq, bne_iff_ne]
  exact ⟨fun h hmax hlt => by_contra fun hne => h ⟨⟨hmax, hlt⟩, hne⟩,
    fun h ⟨⟨hmax, hlt⟩, hne⟩ => hne (h hmax hlt)⟩

theorem eval_freeOrphans_cons (used : Nat → Bool) (blk : Nat) (blks : List Nat) :
    (freeOrphans sb used (blk :: blks)).eval m d = if pastArray sb d blk then (.error .panic, m, d)
      else if ((inodesOf blk).filter (orphan sb d used)).length = 0 then
        (freeOrphans sb used blks).eval m d else (freeOrphans sb used blks).eval
        { m with repairs := m.repairs + ((inodesOf blk).filter (orphan sb d used)).length }
        (d.write (sb.inodeStart + blk) (withoutOrphans sb d used blk)) := by
  conv_lhs => unfold freeOrphans
  simp only [eval_bind, eval_reading]
  unfold pastArray
  by_cases hpast : ((inodesOf blk).any fun ino =>
      decide (maxInodes ≤ ino) && decide (ino < sb.inodeCount) && rawKind sb d ino != 0) = true
  · rw [if_pos hpast, if_pos hpast]
  rw [if_neg hpast, if_neg hpast]
  dsimp only
  by_cases hn : ((inodesOf blk).filter (orphan sb d used)).length = 0
  · rw [if_neg (not_not.mpr hn), if_pos hn]
  · rw [if_pos hn, if_neg hn]
    rfl

theorem freeOrphans_idle (blks : List Nat) (horphan : ∀ ino, orphan sb d used ino = false)
    (hbeyond : ∀ ino, maxInodes ≤ ino → ino < sb.inodeCount → rawKind sb d ino = 0) :
    (freeOrphans sb used blks).eval m d = (.ok (), m, d) := by
  induction blks with
  | nil => rfl
  | cons blk blks ih =>
    have hnone : ((inodesOf blk).filter (orphan sb d used)).length = 0 := by
      rw [length_eq_zero_iff, filter_eq_nil_iff]
      intro ino _
      rw [horphan ino]
      exact nofun
    have hpast : pastArray sb d blk = false := pastArray_eq_false.mpr fun ino _ => hbeyond ino
    rw [eval_freeOrphans_cons, hpast, if_neg Bool.false_ne_true, if_pos hnone]
    exact ih

/-- One block of the table after the scan. -/
structure FreedAt (sb : Superblock) (used : Nat → Bool) (d d' : Disk Block) (blk : Nat) : Prop where
  bytes : ∀ o, o < blockBytes → d' (sb.inodeStart + blk) o = withoutOrphans sb d used blk o
  beyond : ∀ ino ∈ inodesOf blk, maxInodes ≤ ino → ino < sb.inodeCount → rawKind sb d ino = 0

theorem mem_inodesOf : ino ∈ inodesOf blk ↔ ino / inodesPerBlock = blk := by
  unfold inodesOf
  rw [mem_range'_1]
  unfold inodesPerBlock blockBytes inodeSize
  omega

theorem slot_div {o : Nat} (ho : o < blockBytes) :
    (blk * inodesPerBlock + o / inodeSize) / inodesPerBlock = blk := by
  unfold inodesPerBlock inodeSize
  unfold blockBytes at *
  omega

theorem withoutOrphans_congr (h : d' (sb.inodeStart + blk) = d (sb.inodeStart + blk)) {o : Nat}
    (ho : o < blockBytes) : withoutOrphans sb d' used blk o = withoutOrphans sb d used blk o := by
  have horphan : orphan sb d' used (blk * inodesPerBlock + o / inodeSize) =
      orphan sb d used (blk * inodesPerBlock + o / inodeSize) := by
    unfold orphan
    rw [rawKind_congr fun o _ => by rw [slot_div ho, h]]
  unfold withoutOrphans
  rw [horphan, h]

theorem freeOrphans_ok {blks : List Nat} (hnodup : blks.Nodup)
    (h : (freeOrphans sb used blks).eval m d = (.ok (), m', d')) :
    m'.bitmap = m.bitmap ∧ (∀ b, (∀ blk ∈ blks, b ≠ sb.inodeStart + blk) → d' b = d b) ∧
      ∀ blk ∈ blks, FreedAt sb used d d' blk := by
  induction blks generalizing m d with
  | nil =>
    cases h
    exact ⟨rfl, fun _ _ => rfl, fun _ hb => nomatch hb⟩
  | cons blk blks ih =>
    obtain ⟨hnot, hnodup⟩ := nodup_cons.mp hnodup
    rw [eval_freeOrphans_cons] at h
    cases hpast : pastArray sb d blk with
    | true =>
      rw [hpast, if_pos rfl] at h
      cases (Prod.mk.inj h).1
    | false =>
    rw [hpast, if_neg Bool.false_ne_true] at h
    have hbeyond := pastArray_eq_false.mp hpast
    -- the block as the rest of the scan finds it, whether it was written or not
    obtain ⟨m₁, d₁, hrest, hbm, hother, hblk⟩ : ∃ m₁ d₁,
        (freeOrphans sb used blks).eval m₁ d₁ = (.ok (), m', d') ∧ m₁.bitmap = m.bitmap ∧
        (∀ b, b ≠ sb.inodeStart + blk → d₁ b = d b) ∧
        ∀ o, o < blockBytes → d₁ (sb.inodeStart + blk) o = withoutOrphans sb d used blk o := by
      split at h
      · rename_i hn
        refine ⟨m, d, h, rfl, fun _ _ => rfl, fun o ho => ?_⟩
        rw [length_eq_zero_iff, filter_eq_nil_iff] at hn
        rw [withoutOrphans, if_neg (hn _ (mem_inodesOf.mpr (slot_div ho)))]
      · refine ⟨_, _, h, rfl, fun b hb => Disk.write_of_ne hb, fun o _ => ?_⟩
        rw [Disk.write_self]
    obtain ⟨hbm', hout, hfreed⟩ := ih hnodup hrest
    have hne : ∀ blk' ∈ blks, sb.inodeStart + blk' ≠ sb.inodeStart + blk := fun blk' hb heq =>
      hnot (Nat.add_left_cancel heq ▸ hb)
    refine ⟨hbm'.trans hbm, fun b hb => ?_, fun blk' hb => ?_⟩
    · rw [hout b fun blk' hb' => hb blk' (mem_cons_of_mem _ hb'),
        hother b (hb blk mem_cons_self)]
    rcases mem_cons.mp hb with rfl | hb
    · refine ⟨fun o ho => ?_, hbeyond⟩
      rw [hout _ fun blk' hb' => (hne blk' hb').symm, hblk o ho]
    have hsame := hother _ (hne blk' hb)
    refine ⟨fun o ho => ?_, fun ino hino hmax hlt => ?_⟩
    · rw [(hfreed blk' hb).bytes o ho, withoutOrphans_congr hsame ho]
    · rw [← (hfreed blk' hb).beyond ino hino hmax hlt]
      have hdiv := mem_inodesOf.mp hino
      exact (rawKind_congr fun o _ => by rw [hdiv, hsame]).symm

/-- The inodes of a block after the scan: an orphan is free, the others are as before. -/
theorem FreedAt.rawKind (h : FreedAt sb used d d' (ino / inodesPerBlock)) :
    rawKind sb d' ino = if orphan sb d used ino then 0 else rawKind sb d ino := by
  have hbyte : ∀ i, i < inodeSize →
      d' (sb.inodeStart + ino / inodesPerBlock) (ino % inodesPerBlock * inodeSize + i) =
        if orphan sb d used ino then 0
        else d (sb.inodeStart + ino / inodesPerBlock) (ino % inodesPerBlock * inodeSize + i) := by
    intro i hi
    have hpos : ino / inodesPerBlock * inodesPerBlock +
        (ino % inodesPerBlock * inodeSize + i) / inodeSize = ino := by
      unfold inodesPerBlock blockBytes
      unfold inodeSize at *
      omega
    rw [h.bytes _ (by unfold inodesPerBlock blockBytes; unfold inodeSize at *; omega),
      withoutOrphans, hpos]
  unfold Nexofs.rawKind u32At
  split
  · rename_i ho
    have hzero : leAt (fun _ => 0) 0 4 = 0 := by decide
    rw [← hzero]
    refine leAt_congr fun i hi => ?_
    rw [hbyte i (by unfold inodeSize; omega), if_pos ho]
  · rename_i ho
    refine leAt_congr fun i hi => ?_
    rw [hbyte i (by unfold inodeSize; omega), if_neg ho]

theorem FreedAt.readInode (h : FreedAt sb used d d' (ino / inodesPerBlock))
    (ho : orphan sb d used ino = false) : readInode sb d' ino = readInode sb d ino := by
  have hblk : ino * inodeSize / blockBytes = ino / inodesPerBlock := by
    unfold inodesPerBlock inodeSize blockBytes
    omega
  have hoff : ∀ k, k < inodeSize →
      ino / inodesPerBlock * inodesPerBlock + (ino * inodeSize % blockBytes + k) / inodeSize = ino ∧
        ino * inodeSize % blockBytes + k < blockBytes := by
    intro k hk
    unfold inodesPerBlock blockBytes
    unfold inodeSize at *
    omega
  unfold Nexofs.readInode inodePos
  split
  · rfl
  refine Inode.decode_congr fun k hk => ?_
  obtain ⟨hpos, hlt⟩ := hoff k hk
  unfold window
  rw [hblk, h.bytes _ hlt, withoutOrphans, hpos, ho]
  rfl

theorem inode_block_lt (g : sb.Geometry) (h : ino < sb.inodeCount) :
    ino / inodesPerBlock < sb.inodeBlocks := by
  have hblocks := g.inodes
  unfold Superblock.divCeil at hblocks
  unfold inodesPerBlock
  unfold inodeSize blockBytes at *
  omega

/-! ## What `check` leaves -/

theorem Trimmed.refl (v : Image) (w : Walker) : Trimmed v v w [] where
  inode _ := rfl
  clean _ _ := rfl
  indirect _ _ _ _ _ := rfl
  slot _ _ _ _ _ := by rw [if_neg not_mem_nil]
  past _ hc := absurd hc not_mem_nil

/-- `check` up to the end of its loop. -/
theorem check_walk (g : sb.Geometry) (m : Mem) (d : Disk Block) :
    match rootWalk sb (image sb d) with
    | .error e => ((check sb).eval m d).1 = .error e
    | .ok (w, cuts) => ∃ d₁, (check sb).eval m d = (do
            freeOrphans sb w.used (List.range sb.inodeBlocks)
            mendBitmap sb (readBitmap sb d) : FsM Unit).eval
            { bitmap := w.bm, repairs := m.repairs + cuts.length } d₁ ∧
        Trimmed (image sb d) (image sb d₁) w cuts ∧ (∀ b, ¬ InData sb b → d₁ b = d b) ∧
        (cuts = [] → d₁ = d) := by
  unfold rootWalk check
  simp only [eval_bind, eval_reading, setBitmap, eval_stateful, eval_look]
  rcases hroot : (image sb d).inode rootIno with e | root
  · rfl
  dsimp only
  by_cases hkind : root.kindOf ≠ some .dir
  · rw [if_pos hkind, if_pos hkind]
    rfl
  rw [if_neg hkind, if_neg hkind]
  simp only [eval_bind, eval_mark]
  rcases hmark : markInode sb (image sb d) (metadataBits sb) (fun _ => false) rootIno root with
    e | ⟨bm, used⟩
  · rfl
  have hwalked := walked_root g (image_of sb d) hroot hmark
  have hloop := checkLoop_eq (n := walkFuel sb) (m := { bitmap := bm, repairs := m.repairs })
    g (image_of sb d) hwalked (Trimmed.refl _ _) rfl
  dsimp only
  rcases hwalk : walk sb (image sb d) (walkFuel sb) ⟨bm, used, [(rootIno, 0)]⟩ with e | ⟨w, cuts⟩
  · rw [hwalk] at hloop
    rcases heval : (checkLoop sb (walkFuel sb) used [(rootIno, 0)]).eval
      { bitmap := bm, repairs := m.repairs } d with ⟨_ | _, m', d'⟩
    · rw [heval] at hloop
      cases hloop
      rfl
    · rw [heval] at hloop
      cases hloop
  · rw [hwalk] at hloop
    obtain ⟨d₁, heval, htrim, hout, hsame⟩ := hloop
    rw [append_nil] at htrim
    refine ⟨d₁, ?_, htrim, hout, hsame⟩
    rw [heval]

/-- Images with the same blocks read the same slots. -/
theorem slotAt_of_blocks (h : ∀ b, v.block b = v₀.block b) (inode : Inode) (j : Nat) :
    v.slotAt inode j = v₀.slotAt inode j :=
  Trimmed.slotAt_same (fun _ => h _) (fun b _ => h b) j

/-- The disk at the end of `check` is the one it started from without the entries the
walk lists, as far as the inodes met are concerned. -/
theorem swept_of_freed (g : sb.Geometry) {d₁ d₂ : Disk Block}
    (hw : Walked sb (image sb d) w) (htrim : Trimmed (image sb d) (image sb d₁) w cuts)
    (hfreed : ∀ blk, blk < sb.inodeBlocks → FreedAt sb w.used d₁ d₂ blk)
    (htable : ∀ b, sb.inodeStart ≤ b → b < sb.dataStart → d' b = d₂ b)
    (hdata : ∀ b, sb.dataStart ≤ b → d' b = d₁ b) :
    Swept (image sb d) (image sb d') w.used cuts := by
  have hblocks : ∀ b, (image sb d').block b = (image sb d₁).block b := fun b => by
    change readDataBlock sb d' b = readDataBlock sb d₁ b
    unfold readDataBlock
    split
    · rename_i hb
      rw [hdata b hb.1]
    · rfl
  refine ⟨fun x hx => ?_, fun x dir hx hdir hne => ?_, fun x dir j hx hdir => ?_⟩
  · obtain ⟨-, i, hi, -⟩ := hw.known x hx
    have hlt := ((image_of sb d).inode x i hi).2
    have horphan : orphan sb d₁ w.used x = false := by
      unfold orphan
      rw [hx]
      exact Bool.and_false _
    rw [← htrim.inode x]
    exact (readInode_congr g htable x).trans
      ((hfreed _ (inode_block_lt g hlt)).readInode horphan)
  · rw [hblocks]
    exact htrim.indirect x dir hx hdir hne
  · rw [slotAt_of_blocks hblocks]
    exact htrim.slot x dir j hx hdir

/-- The walk of `check` on what a `check` has left. -/
theorem Swept.rootWalk (g : sb.Geometry) {all : List (Nat × Nat)} (hv₀ : v₀.Of sb)
    (h : rootWalk sb v₀ = .ok (w, all)) (hswept : Swept v₀ v w.used all) :
    rootWalk sb v = .ok (w, []) := by
  obtain ⟨root, bm, used, hroot, hkind, hmark, hwalk⟩ := rootWalk_ok h
  have hused : w.used rootIno = true := by
    refine walk_used hv₀ hwalk rootIno ?_
    obtain ⟨-, -, -, -, rfl⟩ := markInode_ok.mp hmark
    change update (fun _ => false) rootIno true rootIno = true
    exact update_self ..
  have hwalked := walked_root g hv₀ hroot hmark
  have hagain : walk sb v (walkFuel sb) ⟨bm, used, [(rootIno, 0)]⟩ = .ok (w, []) :=
    rewalk hv₀ hwalked hwalk (fun _ hc => .inr hc) (fun _ => id) hswept
  obtain ⟨hk, hmax, hfresh, hrefs, hupd⟩ := markInode_ok.mp hmark
  have hmark' : markInode sb v (metadataBits sb) (fun _ => false) rootIno root = .ok (bm, used) :=
    markInode_ok.mpr
      ⟨hk, hmax, hfresh, (markRefs_congr (hswept.indirect _ _ hused hroot) _).trans hrefs, hupd⟩
  unfold Nexofs.rootWalk
  rw [hswept.inode _ hused, hroot]
  dsimp only
  rw [if_neg (not_not.mpr hkind), hmark']
  exact hagain

/-- Whatever disk `check` accepts, it leaves one on which it has nothing to do. -/
theorem settled_of_check (g : sb.Geometry) (h : (check sb).eval m d = (.ok (), m', d')) :
    ∃ w, Settled sb d' w ∧ ∀ b, b < sb.bitmapStart → d' b = d b := by
  have hcheck := check_walk g m d
  rcases hwalk : rootWalk sb (image sb d) with e | ⟨w, cuts⟩
  · rw [hwalk, h] at hcheck
    cases hcheck
  rw [hwalk] at hcheck
  obtain ⟨d₁, heval, htrim, hout, -⟩ := hcheck
  rw [h, eval_bind] at heval
  rcases hfree : (freeOrphans sb w.used (List.range sb.inodeBlocks)).eval
    { bitmap := w.bm, repairs := m.repairs + cuts.length } d₁ with ⟨e | u, m₂, d₂⟩
  · rw [hfree] at heval
    cases (Prod.mk.inj heval).1
  rw [hfree] at heval
  obtain ⟨hbm, hother, hfreed⟩ := freeOrphans_ok nodup_range hfree
  replace hfreed : ∀ blk, blk < sb.inodeBlocks → FreedAt sb w.used d₁ d₂ blk :=
    fun blk hb => hfreed blk (mem_range.mpr hb)
  have hw : Walked sb (image sb d) w := by
    obtain ⟨root, bm, used, hroot, -, hmark, hwalk'⟩ := rootWalk_ok hwalk
    exact (walked_root g (image_of sb d) hroot hmark).walk (image_of sb d) hwalk'
  have hgeo := g.inode
  have hgeo' := g.data
  -- the bitmap is before the table and the table before the data
  have hbitmap : ∀ b, readBitmap sb d₂ b = readBitmap sb d b := fun b => by
    unfold readBitmap
    by_cases hb : b < bitsPerBlock * sb.bitmapBlocks
    · have hlt : b / bitsPerBlock < sb.bitmapBlocks := Nat.div_lt_of_lt_mul hb
      rw [hother _ fun blk _ => by omega, hout _ fun hin => by have := hin.1; omega]
    · rw [decide_eq_false hb, Bool.false_and, Bool.false_and]
  have hin : ∀ b, m₂.bitmap b = true → b < sb.totalBlocks := by
    rw [hbm]
    exact hw.inside
  obtain ⟨hmend, hrest⟩ := mendBitmap_ok g hbitmap hin heval.symm
  rw [hbm] at hmend
  have htable : ∀ b, sb.inodeStart ≤ b → d' b = d₂ b := fun b hb => hrest b (by omega)
  have hdata : ∀ b, sb.dataStart ≤ b → d' b = d₁ b := fun b hb => by
    rw [htable b (by omega), hother b fun blk hblk => by have := mem_range.mp hblk; omega]
  have hswept : Swept (image sb d) (image sb d') w.used cuts :=
    swept_of_freed g hw htrim hfreed (fun b hb _ => htable b hb) hdata
  have hraw : ∀ ino, rawKind sb d' ino = rawKind sb d₂ ino := fun ino =>
    rawKind_congr fun o _ => by rw [htable _ (Nat.le_add_right _ _)]
  refine ⟨w, ⟨hswept.rootWalk g (image_of sb d) hwalk, fun ino => ?_, fun ino hmax hlt => ?_,
    hmend⟩, fun b hb => ?_⟩
  · by_cases hlt : ino < sb.inodeCount
    · have hkind := (hfreed _ (inode_block_lt g hlt)).rawKind
      unfold orphan
      rw [hraw ino, hkind]
      by_cases ho : orphan sb d₁ w.used ino = true
      · simp [ho]
      · unfold orphan at ho ⊢
        simp [ho]
    · unfold orphan
      simp [hlt]
  · have hfreed' := hfreed _ (inode_block_lt g hlt)
    rw [hraw ino, hfreed'.rawKind, hfreed'.beyond ino (mem_inodesOf.mpr rfl) hmax hlt, ite_self]
  · have := g.data
    rw [hrest b (by omega), hother b fun blk _ => by omega, hout b fun hd => by have := hd.1; omega]

theorem Settled.check (g : sb.Geometry) (h : Settled sb d w) (m : Mem) :
    (check sb).eval m d = (.ok (), { bitmap := w.bm, repairs := m.repairs }, d) := by
  have hcheck := check_walk g m d
  rw [h.walk] at hcheck
  obtain ⟨d₁, heval, -, -, hsame⟩ := hcheck
  obtain rfl := hsame rfl
  rw [heval, eval_bind, freeOrphans_idle _ h.orphans h.beyond]
  dsimp only
  rw [eval_mendBitmap, if_pos h.bitmap]
  rfl

/-! ## What `verifica` finds -/

/-- No fault was counted on the way. -/
structure Report.Clean (r : Report) : Prop where
  dangling : r.dangling = 0
  duplicate : r.duplicate = 0
  shared : r.sharedBlocks = 0
  range : r.outOfRange = 0

theorem countBlock_ok {seen seen' : Nat → Bool} {b : Nat} (hr : r.Clean)
    (h : markBlock sb seen b = .ok seen') :
    ∃ r', countBlock sb r seen b = (r', seen') ∧ r'.Clean := by
  obtain ⟨hin, hfree, rfl⟩ := markBlock_ok.mp h
  unfold countBlock
  rw [if_neg (not_not.mpr hin), hfree]
  exact ⟨_, rfl, hr.dangling, hr.duplicate, hr.shared, hr.range⟩

theorem countBlocks_ok {seen seen' : Nat → Bool} {bs : List Nat} (hr : r.Clean)
    (h : markBlocks sb seen bs = .ok seen') :
    ∃ r', countBlocks sb r seen bs = (r', seen') ∧ r'.Clean := by
  induction bs generalizing r seen with
  | nil =>
    cases h
    exact ⟨r, rfl, hr⟩
  | cons b bs ih =>
    rw [markBlocks] at h
    split at h
    · cases h
    rename_i seen₁ hm
    obtain ⟨r₁, hcount, hr₁⟩ := countBlock_ok hr hm
    obtain ⟨r', hrest, hr'⟩ := ih hr₁ h
    refine ⟨r', ?_, hr'⟩
    unfold countBlocks at hrest ⊢
    rw [foldl_cons, hcount]
    exact hrest

/-- Where `mark_inode` succeeds, `conta_inode` counts no fault and sees the same blocks. -/
theorem countInode_ok {bm bm' used' : Nat → Bool} {inode : Inode} (hr : r.Clean)
    (h : markInode sb v bm used ino inode = .ok (bm', used')) :
    ∃ r', countInode sb v r bm used ino inode = .ok (r', bm', used') ∧ r'.Clean := by
  obtain ⟨-, hmax, -, hrefs, rfl⟩ := markInode_ok.mp h
  have hr₀ : Report.Clean { r with inodesReached := r.inodesReached + 1 } :=
    ⟨hr.dangling, hr.duplicate, hr.shared, hr.range⟩
  unfold markRefs at hrefs
  unfold countInode
  rw [if_neg (Nat.not_le.mpr hmax)]
  dsimp only
  split at hrefs
  · cases hrefs
  obtain ⟨r₁, hcount, hr₁⟩ := countBlocks_ok hr₀ ‹_›
  rw [hcount]
  by_cases hind : inode.indirect = 0
  · rw [if_pos hind] at hrefs ⊢
    cases hrefs
    exact ⟨r₁, rfl, hr₁⟩
  rw [if_neg hind] at hrefs ⊢
  split at hrefs
  · cases hrefs
  obtain ⟨r₂, hcount₂, hr₂⟩ := countBlock_ok hr₁ ‹_›
  rw [hcount₂]
  split at hrefs
  · cases hrefs
  obtain ⟨r₃, hcount₃, hr₃⟩ := countBlocks_ok hr₂ hrefs
  rw [hcount₃]
  exact ⟨r₃, rfl, hr₃⟩

/-- The loop of `verifica` follows a walk that removes nothing. -/
theorem verifyLoop_ok {n : Nat} (h : walk sb v n w = .ok (w', [])) (hr : r.Clean) :
    ∃ r', verifyLoop sb v n r w.bm w.used w.stack = .ok (r', w'.bm, w'.used) ∧ r'.Clean := by
  refine walk_induction (P := fun n w w' cuts => cuts = [] → ∀ r : Report, r.Clean → ∃ r',
    verifyLoop sb v n r w.bm w.used w.stack = .ok (r', w'.bm, w'.used) ∧ r'.Clean)
    ?_ ?_ ?_ h rfl r hr
  · intro n w hm _ r hr
    cases hm with
    | empty hs =>
      rw [hs]
      exact ⟨r, rfl, hr⟩
    | last hs hdir hfound =>
      rw [hs]
      exact ⟨r, by simp only [verifyLoop, hdir, hfound, if_true], hr⟩
  · intro n w w₁ w' cuts hm _ ih hcuts r hr
    cases hm with
    | pop hs hrest hdir hfound =>
      rw [hs]
      simp only [verifyLoop, hdir, hfound, if_neg hrest]
      exact ih hcuts r hr
    | file hs hdir hfound hino hmark hkind =>
      obtain ⟨hk, hmax, hfresh, -, -⟩ := markInode_ok.mp hmark
      obtain ⟨r₁, hcount, hr₁⟩ := countInode_ok hr hmark
      rw [hs]
      simp only [verifyLoop, hdir, hfound, hino, if_neg hk, if_neg (Nat.not_le.mpr hmax), hfresh,
        Bool.false_eq_true, if_false, hcount, if_neg hkind]
      exact ih hcuts r₁ hr₁
    | dir hs hdir hfound hino hmark hkind hdepth =>
      obtain ⟨hk, hmax, hfresh, -, -⟩ := markInode_ok.mp hmark
      obtain ⟨r₁, hcount, hr₁⟩ := countInode_ok hr hmark
      rw [hs]
      simp only [verifyLoop, hdir, hfound, hino, if_neg hk, if_neg (Nat.not_le.mpr hmax), hfresh,
        Bool.false_eq_true, if_false, hcount, if_pos hkind, if_neg (Nat.not_le.mpr hdepth)]
      exact ih hcuts r₁ hr₁
  · intro n w w₁ x i w' cuts _ _ _ hcuts
    cases hcuts

theorem Settled.verify (g : sb.Geometry) (h : Settled sb d w) :
    ∃ r, verify sb d = .ok r ∧ r.Intact := by
  obtain ⟨root, bm, used, hroot, hkind, hmark, hwalk⟩ := rootWalk_ok h.walk
  have hzero : Report.zero.Clean := ⟨rfl, rfl, rfl, rfl⟩
  obtain ⟨r₀, hcount, hr₀⟩ := countInode_ok hzero hmark
  obtain ⟨r, hloop, hr⟩ := verifyLoop_ok hwalk hr₀
  have hany : ¬ ((List.range sb.inodeCount).any fun ino =>
      decide (maxInodes ≤ ino) && rawKind sb d ino != 0) = true := by
    rw [any_eq_true]
    rintro ⟨ino, hmem, hino⟩
    rw [Bool.and_eq_true, decide_eq_true_eq, bne_iff_ne] at hino
    exact hino.2 (h.beyond ino hino.1 (mem_range.mp hmem))
  have horphans : ((List.range sb.inodeCount).filter (orphan sb d w.used)).length = 0 := by
    rw [length_eq_zero_iff, filter_eq_nil_iff]
    intro ino _
    rw [h.orphans ino]
    exact nofun
  have hbits : bitsDiffer sb (readBitmap sb d) w.bm = 0 := by
    unfold bitsDiffer
    rw [length_eq_zero_iff, filter_eq_nil_iff]
    intro b hb
    have htotal := g.total_le
    have hlt : b < maxBlocks := by
      rw [mem_range] at hb
      unfold Superblock.divCeil at hb
      unfold maxBlocks at *
      omega
    rw [h.bitmap b hlt, bne_self_eq_false]
    exact nofun
  refine ⟨{ r with orphans := 0, bitmapDiffers := 0 }, ?_,
    hr.dangling, hr.duplicate, rfl, hr.shared, hr.range, rfl⟩
  unfold Nexofs.verify
  simp only [hroot, if_neg (not_not.mpr hkind), hcount, hloop, if_neg hany, horphans, hbits]

/-! ## Mounting twice -/

theorem decode_geometry {b : Block} (h : Superblock.decode b = .ok sb) : sb.Geometry := by
  unfold Superblock.decode at h
  dsimp only at h
  split at h
  · cases h
  split at h
  · cases h
  split at h
  · cases h
  split at h
  · rename_i g
    exact Except.ok.inj h ▸ g
  · cases h

end

end NexoOS.Nexofs
