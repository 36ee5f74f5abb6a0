import NexoOS.Nexofs.Scan
import NexoOS.Nexofs.Mount

/-!
# The blocks an inode refers to

`refs` lists the pointers of an inode: the direct ones, the indirect block and the
ones in it. `mark_inode` succeeds exactly when they are in the data area, different
from each other and not marked before.
-/

namespace NexoOS.Nexofs

open List Disk Function

namespace Image

/-- Inode numbers and block numbers that can be read are those of the volume. -/
structure Of (sb : Superblock) (v : Image) : Prop where
  inode : ∀ ino i, v.inode ino = .ok i → 0 < ino ∧ ino < sb.inodeCount
  block : ∀ b, InData sb b → ∃ blk, v.block b = .ok blk
  data : ∀ b blk, v.block b = .ok blk → InData sb b

variable (v : Image)

/-- The pointers in the indirect block. -/
def listed (inode : Inode) : List Nat :=
  match v.block inode.indirect with
  | .ok ind => wordsFrom ind 0
  | .error _ => []

def refs (inode : Inode) : List Nat :=
  directFrom inode 0 ++ if inode.indirect = 0 then [] else inode.indirect :: v.listed inode

variable {v} {v' : Image} {inode : Inode} {i p k : Nat}

theorem mem_nonzero {f : Nat → Nat} {n : Nat} :
    p ∈ ((List.range' i (n - i)).map f).filter (· ≠ 0) ↔
      p ≠ 0 ∧ ∃ k, i ≤ k ∧ k < n ∧ f k = p := by
  simp only [mem_filter, mem_map, mem_range'_1, decide_eq_true_eq]
  constructor
  · rintro ⟨⟨k, hk, rfl⟩, hp⟩
    exact ⟨hp, k, hk.1, by omega, rfl⟩
  · rintro ⟨hp, k, hik, hk, rfl⟩
    exact ⟨⟨k, ⟨hik, by omega⟩, rfl⟩, hp⟩

theorem mem_directFrom :
    p ∈ directFrom inode i ↔ p ≠ 0 ∧ ∃ k, i ≤ k ∧ k < ndirect ∧ inode.direct k = p := mem_nonzero

theorem mem_wordsFrom {b : Block} :
    p ∈ wordsFrom b i ↔ p ≠ 0 ∧ ∃ k, i ≤ k ∧ k < ptrsPerBlock ∧ u64At b (k * 8) = p := mem_nonzero

/-- Two indices of a list without repetitions among the chosen values are the same. -/
theorem eq_of_nodup_filter_map {α β : Type} {l : List α} {f : α → β} {p : β → Bool}
    (h : ((l.map f).filter p).Nodup) {a b : α} (ha : a ∈ l) (hb : b ∈ l) (hab : f a = f b)
    (hp : p (f a) = true) : a = b := by
  induction l with
  | nil => cases ha
  | cons x l ih =>
    have htail : ((l.map f).filter p).Nodup :=
      h.sublist ((sublist_cons_self _ _).filter p)
    have hfresh : p (f x) = true → f x ∉ (l.map f).filter p := fun hx => by
      rw [map_cons, filter_cons_of_pos hx] at h
      exact (nodup_cons.mp h).1
    rcases mem_cons.mp ha with rfl | ha'
    · rcases mem_cons.mp hb with rfl | hb'
      · rfl
      · exact absurd (mem_filter.mpr ⟨hab ▸ mem_map_of_mem hb', hp⟩) (hfresh hp)
    rcases mem_cons.mp hb with rfl | hb'
    · exact absurd (mem_filter.mpr ⟨hab ▸ mem_map_of_mem ha', hab ▸ hp⟩)
        (hfresh (hab ▸ hp))
    · exact ih htail ha' hb'

/-- The pointer to a block, direct or through the indirect block. -/
theorem blockPtr_cases (h : v.blockPtr inode k = .ok p) (hp : p ≠ 0) :
    (k < ndirect ∧ inode.direct k = p) ∨
      ∃ ind, ndirect ≤ k ∧ k - ndirect < ptrsPerBlock ∧ inode.indirect ≠ 0 ∧
        v.block inode.indirect = .ok ind ∧ u64At ind ((k - ndirect) * 8) = p := by
  unfold blockPtr at h
  split at h
  · rename_i hk
    exact Or.inl ⟨hk, Except.ok.inj h⟩
  split at h
  · cases h
  split at h
  · exact absurd (Except.ok.inj h).symm hp
  rename_i hk hk' hind
  cases hb : v.block inode.indirect with
  | error e =>
    rw [hb] at h
    cases h
  | ok ind =>
    rw [hb] at h
    exact Or.inr ⟨ind, by omega, by omega, hind, rfl, Except.ok.inj h⟩

theorem listed_eq {ind : Block} (h : v.block inode.indirect = .ok ind) :
    v.listed inode = wordsFrom ind 0 := by
  unfold listed
  rw [h]

theorem blockPtr_mem (h : v.blockPtr inode k = .ok p) (hp : p ≠ 0) :
    p ∈ directFrom inode 0 ∨ inode.indirect ≠ 0 ∧ p ∈ v.listed inode := by
  rcases blockPtr_cases h hp with ⟨hk, hd⟩ | ⟨ind, hk, hk', hind, hb, hw⟩
  · exact Or.inl (mem_directFrom.mpr ⟨hp, k, Nat.zero_le k, hk, hd⟩)
  refine Or.inr ⟨hind, ?_⟩
  rw [listed_eq hb]
  exact mem_wordsFrom.mpr ⟨hp, k - ndirect, Nat.zero_le _, hk', hw⟩

theorem mem_refs_of_blockPtr (h : v.blockPtr inode k = .ok p) (hp : p ≠ 0) : p ∈ v.refs inode := by
  unfold refs
  rcases blockPtr_mem h hp with hd | ⟨hind, hl⟩
  · exact mem_append_left _ hd
  · rw [if_neg hind]
    exact mem_append_right _ (mem_cons_of_mem _ hl)

theorem mem_refs_indirect (h : inode.indirect ≠ 0) : inode.indirect ∈ v.refs inode := by
  unfold refs
  rw [if_neg h]
  exact mem_append_right _ mem_cons_self

section
variable (h : (v.refs inode).Nodup)
include h

/-- The three parts of the references of an inode are apart. -/
theorem refs_parts (hind : inode.indirect ≠ 0) :
    (directFrom inode 0).Nodup ∧ (v.listed inode).Nodup ∧
      inode.indirect ∉ directFrom inode 0 ∧ inode.indirect ∉ v.listed inode ∧
      ∀ p ∈ directFrom inode 0, p ∉ v.listed inode := by
  unfold refs at h
  rw [if_neg hind] at h
  obtain ⟨hd, hrest, hdis⟩ := nodup_append.mp h
  obtain ⟨hnot, hl⟩ := nodup_cons.mp hrest
  refine ⟨hd, hl, fun hm => hdis _ hm _ mem_cons_self rfl, hnot, fun p hp hp' => ?_⟩
  exact hdis p hp p (mem_cons_of_mem _ hp') rfl

theorem directFrom_nodup : (directFrom inode 0).Nodup :=
  (nodup_append.mp h).1

theorem blockPtr_inj {k' : Nat} (hk : v.blockPtr inode k = .ok p)
    (hk' : v.blockPtr inode k' = .ok p) (hp : p ≠ 0) : k = k' := by
  have hdirect := directFrom_nodup h
  rcases blockPtr_cases hk hp with ⟨hlt, hd⟩ | ⟨ind, hle, hlt, hind, hb, hw⟩
  · rcases blockPtr_cases hk' hp with ⟨hlt', hd'⟩ | ⟨ind, hle', hlt', hind, hb, hw'⟩
    · refine eq_of_nodup_filter_map hdirect ?_ ?_ (hd.trans hd'.symm) ?_
      · exact mem_range'_1.mpr ⟨Nat.zero_le k, by unfold ndirect at hlt ⊢; omega⟩
      · exact mem_range'_1.mpr ⟨Nat.zero_le k', by unfold ndirect at hlt' ⊢; omega⟩
      · rw [hd]
        exact decide_eq_true hp
    · have hm := mem_directFrom.mpr ⟨hp, k, Nat.zero_le k, hlt, hd⟩
      have hm' := mem_wordsFrom.mpr ⟨hp, k' - ndirect, Nat.zero_le _, hlt', hw'⟩
      exact absurd (listed_eq hb ▸ hm') ((refs_parts h hind).2.2.2.2 p hm)
  · rcases blockPtr_cases hk' hp with ⟨hlt', hd'⟩ | ⟨ind', hle', hlt', _, hb', hw'⟩
    · have hm := mem_directFrom.mpr ⟨hp, k', Nat.zero_le k', hlt', hd'⟩
      have hm' := mem_wordsFrom.mpr ⟨hp, k - ndirect, Nat.zero_le _, hlt, hw⟩
      exact absurd (listed_eq hb ▸ hm') ((refs_parts h hind).2.2.2.2 p hm)
    obtain rfl : ind = ind' := Except.ok.inj (hb.symm.trans hb')
    have hlisted := (refs_parts h hind).2.1
    rw [listed_eq hb] at hlisted
    have := eq_of_nodup_filter_map hlisted
      (mem_range'_1.mpr ⟨Nat.zero_le (k - ndirect), by unfold ptrsPerBlock at hlt ⊢; omega⟩)
      (mem_range'_1.mpr ⟨Nat.zero_le (k' - ndirect), by unfold ptrsPerBlock at hlt' ⊢; omega⟩)
      (hw.trans hw'.symm) (by rw [hw]; exact decide_eq_true hp)
    omega

theorem blockPtr_ne_indirect (hk : v.blockPtr inode k = .ok p)
    (hp : p ≠ 0) : p ≠ inode.indirect := by
  rintro rfl
  obtain ⟨-, -, hnd, hnl, -⟩ := refs_parts h hp
  rcases blockPtr_mem hk hp with hd | ⟨-, hl⟩
  · exact hnd hd
  · exact hnl hl

end

/-! ## Readers that only look at the indirect block -/

/-- Both images read the indirect block of the inode alike. -/
def SameIndirect (v v' : Image) (inode : Inode) : Prop :=
  inode.indirect ≠ 0 → v.block inode.indirect = v'.block inode.indirect

theorem SameIndirect.blockPtr (h : SameIndirect v v' inode) (k : Nat) :
    v.blockPtr inode k = v'.blockPtr inode k := by
  unfold Image.blockPtr
  by_cases hind : inode.indirect = 0
  · rw [if_pos hind, if_pos hind]
  · rw [h hind]

theorem SameIndirect.refs (h : SameIndirect v v' inode) : v.refs inode = v'.refs inode := by
  unfold Image.refs
  by_cases hind : inode.indirect = 0
  · rw [if_pos hind, if_pos hind]
  · rw [if_neg hind, if_neg hind, listed, listed, h hind]

/-! ## Writing one block of the data area -/

structure Wrote (v v' : Image) (ptr : Nat) (blk : Block) : Prop where
  inode : ∀ x, v'.inode x = v.inode x
  block : v'.block ptr = .ok blk
  other : ∀ b, b ≠ ptr → v'.block b = v.block b

variable {ptr : Nat} {blk : Block}

theorem Wrote.sameIndirect (h : Wrote v v' ptr blk) (hne : inode.indirect ≠ ptr) :
    SameIndirect v' v inode := fun _ => h.other _ hne

theorem Wrote.slotAt_of_not_mem (h : Wrote v v' ptr blk) (hptr : ptr ∉ v.refs inode) (j : Nat) :
    v'.slotAt inode j = v.slotAt inode j := by
  have hind : SameIndirect v' v inode := fun hne =>
    h.other _ fun heq => hptr (heq ▸ mem_refs_indirect hne)
  unfold slotAt
  rw [hind.blockPtr]
  rcases hp : v.blockPtr inode (j / perBlock) with e | _ | q
  · rfl
  · rfl
  dsimp only
  rw [h.other]
  rintro rfl
  exact hptr (mem_refs_of_blockPtr hp (Nat.succ_ne_zero q))

/-- Writing a slot of a directory changes what is read in that slot only. -/
theorem Wrote.slotAt {new : Nat → UInt8} {old : Block}
    (h : Wrote v v' ptr (splice old (i % perBlock * direntSize) direntSize new))
    (hnodup : (v.refs inode).Nodup) (hptr : v.blockPtr inode (i / perBlock) = .ok ptr)
    (hne : ptr ≠ 0) (hold : v.block ptr = .ok old) (j : Nat) :
    v'.slotAt inode j = if j = i then Dirent.decode new else v.slotAt inode j := by
  have hind : SameIndirect v' v inode :=
    h.sameIndirect fun heq => blockPtr_ne_indirect hnodup hptr hne heq.symm
  obtain ⟨q, rfl⟩ := Nat.exists_eq_succ_of_ne_zero hne
  by_cases hk : j / perBlock = i / perBlock
  · unfold Image.slotAt
    rw [hind.blockPtr, hk, hptr]
    simp only [h.block, hold]
    by_cases hji : j = i
    · subst hji
      rw [if_pos rfl]
      exact Dirent.decode_congr fun k hk => window_splice hk
    rw [if_neg hji]
    refine Dirent.decode_congr fun k hk => window_splice_of_disjoint hk ?_
    unfold perBlock at *
    unfold direntSize at *
    omega
  · have hji : j ≠ i := fun h => hk (h ▸ rfl)
    rw [if_neg hji]
    unfold Image.slotAt
    rw [hind.blockPtr]
    rcases hp : v.blockPtr inode (j / perBlock) with e | _ | q'
    · rfl
    · rfl
    dsimp only
    rw [h.other]
    intro heq
    rw [heq] at hp
    exact hk (blockPtr_inj hnodup hp hptr hne)

end Image

section
variable {sb : Superblock}

theorem image_of (sb : Superblock) (d : Nat → Block) : (image sb d).Of sb where
  inode ino i h := by
    unfold image readInode at h
    dsimp only at h
    split at h
    · cases h
    · rename_i hne
      omega
  block b hb := ⟨d b, if_pos hb⟩
  data b blk h := by
    unfold image readDataBlock at h
    dsimp only at h
    split at h
    · assumption
    · cases h

theorem inodePos_lt (g : sb.Geometry) {ino : Nat} (h : ino < sb.inodeCount) :
    sb.inodeStart ≤ (inodePos sb ino).1 ∧ (inodePos sb ino).1 < sb.dataStart := by
  have hblocks := g.inodes
  have hdata := g.data
  unfold Superblock.divCeil inodeSize blockBytes at hblocks
  unfold inodePos inodeSize blockBytes
  omega

theorem readInode_congr (g : sb.Geometry) {d d' : Nat → Block}
    (h : ∀ b, sb.inodeStart ≤ b → b < sb.dataStart → d' b = d b) (ino : Nat) :
    readInode sb d' ino = readInode sb d ino := by
  unfold readInode
  split
  · rfl
  · have hpos := inodePos_lt g (show ino < sb.inodeCount by omega)
    rw [h _ hpos.1 hpos.2]

theorem image_write (g : sb.Geometry) (d : Nat → Block) {ptr : Nat} (hptr : InData sb ptr)
    (blk : Block) : Image.Wrote (image sb d) (image sb (Disk.write d ptr blk)) ptr blk where
  inode x := by
    have hsame : ∀ b, sb.inodeStart ≤ b → b < sb.dataStart → Disk.write d ptr blk b = d b :=
      fun b _ hb => Disk.write_of_ne (by have := hptr.1; omega)
    exact readInode_congr g hsame x
  block := by
    change readDataBlock sb (Disk.write d ptr blk) ptr = _
    rw [readDataBlock, if_pos hptr, write_self]
  other b hb := by
    unfold image readDataBlock
    dsimp only
    rw [write_of_ne hb]

end

/-! ## Marking -/

section
variable {sb : Superblock} {v v' : Image} {bm bm' : Nat → Bool} {inode : Inode}

theorem markBlock_ok {b : Nat} : markBlock sb bm b = .ok bm' ↔
    InData sb b ∧ bm b = false ∧ bm' = update bm b true := by
  unfold markBlock
  by_cases hd : InData sb b
  · rw [if_neg (not_not.2 hd)]
    cases hb : bm b with
    | true => exact ⟨nofun, fun h => absurd h.2.1 nofun⟩
    | false => exact ⟨fun h => ⟨hd, rfl, (Except.ok.inj h).symm⟩, fun h => by rw [h.2.2]; rfl⟩
  · simp [hd]

theorem markBlocks_ok {bs : List Nat} : markBlocks sb bm bs = .ok bm' ↔
    (∀ b ∈ bs, InData sb b ∧ bm b = false) ∧ bs.Nodup ∧ bm' = fun b => bm b || decide (b ∈ bs) := by
  induction bs generalizing bm with
  | nil =>
    rw [markBlocks, Except.ok.injEq, eq_comm]
    simp
  | cons b bs ih =>
    rw [markBlocks]
    constructor
    · intro h
      split at h
      · cases h
      rename_i bm₁ hm
      obtain ⟨hd, hb, rfl⟩ := markBlock_ok.mp hm
      obtain ⟨hall, hnd, rfl⟩ := ih.mp h
      have hne : ∀ c ∈ bs, c ≠ b := fun c hc hcb => by
        have := (hall c hc).2
        rw [hcb, update_self] at this
        cases this
      refine ⟨?_, nodup_cons.mpr ⟨fun hm => hne b hm rfl, hnd⟩, ?_⟩
      · intro c hc
        rcases mem_cons.mp hc with rfl | hc
        · exact ⟨hd, hb⟩
        · have := hall c hc
          rwa [update_of_ne (hne c hc)] at this
      · funext c
        by_cases hcb : c = b
        · simp [hcb]
        · simp [hcb]
    · rintro ⟨hall, hnd, rfl⟩
      obtain ⟨hnot, hnd⟩ := nodup_cons.mp hnd
      have hb := hall b mem_cons_self
      rw [markBlock_ok.mpr ⟨hb.1, hb.2, rfl⟩]
      refine ih.mpr ⟨fun c hc => ?_, hnd, ?_⟩
      · have hne : c ≠ b := fun hcb => hnot (hcb ▸ hc)
        rw [update_of_ne hne]
        exact hall c (mem_cons_of_mem _ hc)
      · funext c
        by_cases hcb : c = b
        · simp [hcb]
        · simp [hcb]

theorem markBlocks_append {bs cs : List Nat} : markBlocks sb bm (bs ++ cs) =
      match markBlocks sb bm bs with
      | .error e => .error e
      | .ok bm => markBlocks sb bm cs := by
  induction bs generalizing bm with
  | nil => rfl
  | cons b bs ih =>
    simp only [cons_append, markBlocks]
    cases markBlock sb bm b with
    | error e => rfl
    | ok bm => exact ih

theorem markRefs_ok (hv : v.Of sb) : markRefs sb v bm inode = .ok bm' ↔
    markBlocks sb bm (v.refs inode) = .ok bm' := by
  unfold markRefs Image.refs
  rw [markBlocks_append]
  rcases markBlocks sb bm (directFrom inode 0) with e | bm₁
  · rfl
  dsimp only
  by_cases hind : inode.indirect = 0
  · rw [if_pos hind, if_pos hind]
    rfl
  rw [if_neg hind, if_neg hind, markBlocks]
  cases hm : markBlock sb bm₁ inode.indirect with
  | error e => rfl
  | ok bm₂ =>
    obtain ⟨ind, hb⟩ := hv.block _ (markBlock_ok.mp hm).1
    simp only [hb, Image.listed_eq hb]

end

end NexoOS.Nexofs
