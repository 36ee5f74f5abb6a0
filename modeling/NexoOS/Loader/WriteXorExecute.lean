import NexoOS.Loader.Spawn
import NexoOS.Paging.Walk

/-!
# No page both writable and executable

Every way a page gets into the lower half of a space sets its flags once, and
none sets the write flag without the no-execute flag. What the loader copies
into the pages goes into frames that are not tables, so it cannot change the
flags of another page.
-/

namespace NexoOS.Loader

open UInt64 (toNat_add toNat_and le_iff_toNat_le lt_iff_toNat_lt)
open List Option Paging TableTree UInt64

def WriteXor (f : PageFlags) : Prop :=
  f.contains .writable = true → f.contains .noExecute = true

theorem writeXor_bits {f : PageFlags} (h : WriteXor f) : WriteXor ⟨f.bits⟩ := by
  have key : ∀ bit : UInt64, bit &&& ~~~addrMask = bit →
      (f.raw &&& ~~~addrMask) &&& bit = f.raw &&& bit := by
    intro bit hb
    rw [UInt64.and_assoc, UInt64.and_comm (~~~addrMask), hb]
  intro hw
  have hwr : f.raw &&& 2 = 2 := by
    rw [← key 2 (by decide)]
    exact beq_iff_eq.1 hw
  have hx : f.raw &&& PageFlags.noExecute.raw = PageFlags.noExecute.raw :=
    beq_iff_eq.1 (h (beq_iff_eq.2 hwr))
  show ((f.raw &&& ~~~addrMask) &&& PageFlags.noExecute.raw == PageFlags.noExecute.raw) = true
  rw [key PageFlags.noExecute.raw (by decide), hx, beq_self_eq_true]

/-! ## The lower half -/

/-- The paths of the lower half, with the frames that pages are kept in. -/
def lowerHalf (D : PhysAddr → Prop) : Region where
  holds := fun p => p.length ≤ 3 ∧ ∀ i ∈ p.head?, i < 256
  reserved := D
  closed := by
    rintro p i ⟨hlen, hhead⟩
    rw [length_append] at hlen
    refine ⟨Nat.le_of_succ_le hlen, ?_⟩
    cases p with
    | nil => exact nofun
    | cons j p => exact hhead
  short := fun _ h => h.1

theorem covers_lowerHalf {v : VirtAddr} (D : PhysAddr → Prop) (h : v < userAddressLimit) :
    (lowerHalf D).Covers v := by
  refine ⟨by simp, ?_⟩
  intro i hi
  have hi4 : v.tableIndex 4 = i := some.inj hi
  rw [← hi4, tableIndex_eq v (by decide) (by decide)]
  have hlt : v.toNat < 2 ^ 47 := lt_iff_toNat_lt.1 h
  omega

/-- The tables of the lower half are in order and every page there has the
property. -/
structure Kept (D : PhysAddr → Prop) (P : VirtAddr → Translation → Prop) (root : PhysAddr)
    (s : Machine) : Prop where
  good : Good (lowerHalf D) root s
  pages : ∀ v, (lowerHalf D).Covers v → ∀ t, Paging.translate root s.mem v = some t → P v t

section
variable {D D' : PhysAddr → Prop} {P : VirtAddr → Translation → Prop} {root : PhysAddr}
  {s : Machine}

section
variable (h : Kept D P root s)
include h

theorem Kept.mono {Q : VirtAddr → Translation → Prop}
    (hPQ : ∀ v t, P v t → Q v t) : Kept D Q root s :=
  ⟨h.good, fun v hv t ht => hPQ v t (h.pages v hv t ht)⟩

theorem Kept.leafOp {β : Type} {s' : Machine}
    (hg : Good (lowerHalf D) root s') {virt : VirtAddr} {res : Except MapError β}
    {old new : PageTableEntry} (hop : LeafOp (lowerHalf D) root 3 virt s.mem s'.mem res old new)
    (hnew : ∀ v t, leaf v 1 new = some t → P v t) : Kept D P root s' := by
  refine ⟨hg, ?_⟩
  intro v hvc t ht
  by_cases hp : path v 4 = path virt 4
  · rcases hr : res with err | u
    · rw [hop.failed err hr v hvc] at ht
      exact h.pages v hvc t ht
    · rw [(hop.here u hr v hvc hp).2] at ht
      exact hnew v t ht
  · rw [hop.others v hvc hp] at ht
    exact h.pages v hvc t ht

theorem Kept.map4k {virt : VirtAddr} (hv : (lowerHalf D).Covers virt)
    {phys : PhysAddr} {flags : PageFlags}
    (hnew : ∀ v t, leaf v 1 (.new phys (flags ||| .present)) = some t → P v t) :
    Kept D P root (map4k root virt phys flags s).2 := by
  obtain ⟨hg, old, -, hop⟩ := map4k_spec h.good hv phys flags
  exact h.leafOp hg hop hnew

theorem Kept.unmap4k {virt : VirtAddr} (hv : (lowerHalf D).Covers virt) :
    Kept D P root { s with mem := (unmap4k root virt s.mem).2 } := by
  obtain ⟨hg, old, hop, -⟩ := unmap4k_spec h.good hv
  refine h.leafOp hg hop fun v t ht => ?_
  rw [leaf_of_not_present _ _ empty_not_present] at ht
  cases ht

theorem Kept.agreeOff {f : PhysAddr} (hf : D f) {mem' : Memory}
    (hag : AgreeOff f s.mem mem') : Kept D P root { s with mem := mem' } := by
  have hfresh := (h.good.reserved f hf).1
  have htables : ∀ q, (lowerHalf D).holds q →
      tableAt child mem' root q = tableAt child s.mem root q :=
    fun q hq => hag.tableAt (lowerHalf D).closed hfresh hq
  have hkeep : ∀ g, Fresh (lowerHalf D).holds child s.mem root g →
      Fresh (lowerHalf D).holds child mem' root g := by
    intro g hg q hq
    rw [htables q hq]
    exact hg q hq
  have hgood : Good (lowerHalf D) root { s with mem := mem' } := by
    constructor
    case separated => exact hag.separated (lowerHalf D).closed h.good.separated hfresh
    case plain =>
      intro i hi
      have hroot : root ≠ f := by
        intro he
        exact hfresh [] ⟨by decide, nofun⟩ (congrArg some he)
      show (mem' root i).isHuge = false
      rw [hag root hroot i]
      exact h.good.plain i hi
    case fresh => exact fun g hg => hkeep g (h.good.fresh g hg)
    case nodup => exact h.good.nodup
    case frame => exact h.good.frame
    case reserved => exact fun g hg => ⟨hkeep g (h.good.reserved g hg).1, (h.good.reserved g hg).2⟩
  refine ⟨hgood, ?_⟩
  intro v hv t ht
  have hstop : stop root mem' v = stop root s.mem v :=
    hag.descend (lowerHalf D).closed hfresh hv
  rw [show Paging.translate root mem' v = _ from hgood.translate_eq hv, hstop,
    ← h.good.translate_eq hv] at ht
  exact h.pages v hv t ht

theorem Kept.take {f : PhysAddr} {fs : List (Option PhysAddr)} (hf : s.frames = some f :: fs) :
    Kept (fun g => D g ∨ g = f) P root { mem := fill s.mem f .empty, frames := fs } := by
  have hmem : some f ∈ s.frames := hf ▸ mem_cons_self
  have hnot : some f ∉ fs := by
    have hn := h.good.nodup
    rw [hf] at hn
    exact fun hm => (nodup_cons.1 hn).1 (mem_filterMap.2 ⟨some f, hm, rfl⟩)
  have hdrop := h.good.dropFrame hf
  have htaken : Kept (fun g => D g ∨ g = f) P root { s with frames := fs } := by
    refine ⟨?_, h.pages⟩
    constructor
    case separated => exact hdrop.separated
    case plain => exact hdrop.plain
    case fresh => exact hdrop.fresh
    case nodup => exact hdrop.nodup
    case frame => exact hdrop.frame
    case reserved =>
      rintro g (hg | rfl)
      · exact hdrop.reserved g hg
      · exact ⟨h.good.fresh g hmem, hnot⟩
  exact htaken.agreeOff (.inr rfl) (fill_agreeOff _ _ _)

end

end

/-! ## Pages with frames of their own -/

/-- Properties of pages that may speak of the frames kept for pages: more
frames do not hurt, and a page in a kept frame with sound flags has them. -/
structure Family (P : (PhysAddr → Prop) → VirtAddr → Translation → Prop) : Prop where
  mono : ∀ {D D' : PhysAddr → Prop}, (∀ f, D f → D' f) → ∀ {v t}, P D v t → P D' v t
  new : ∀ {D : PhysAddr → Prop} {f : PhysAddr} {flags : PageFlags}, D f → f &&& addrMask = f →
    WriteXor flags → ∀ v, P D v { phys := f + v.pageOffset, flags := flags, pageSize := pageSize }

/-- The property holds in the lower half, for some set of kept frames. -/
def Sound (P : (PhysAddr → Prop) → VirtAddr → Translation → Prop) (root : PhysAddr)
    (s : Machine) : Prop :=
  ∃ D, Kept D (P D) root s

/-- Sound flags alone. -/
def Plain (_ : PhysAddr → Prop) (_ : VirtAddr) (t : Translation) : Prop := WriteXor t.flags

/-- Sound flags, in a frame kept for pages. -/
def Private (D : PhysAddr → Prop) (v : VirtAddr) (t : Translation) : Prop :=
  WriteXor t.flags ∧ ∃ f, D f ∧ f &&& addrMask = f ∧ t.phys = f + v.pageOffset

theorem family_plain : Family Plain where
  mono := fun _ _ _ h => h
  new := fun _ _ h _ => h

theorem family_private : Family Private where
  mono := by
    rintro D D' hD v t ⟨hw, f, hf, hmask, hphys⟩
    exact ⟨hw, f, hD f hf, hmask, hphys⟩
  new := fun hf hmask hw _ => ⟨hw, _, hf, hmask, rfl⟩

section
variable {P : (PhysAddr → Prop) → VirtAddr → Translation → Prop} {root : PhysAddr} {s : Machine}

variable {f : PhysAddr} {flags : PageFlags} {v : VirtAddr} {elf : ElfFile} {base lo hi : UInt64}
  {rnd : Randoms} {sp : Space}

theorem leaf_new {t : Translation} (h : leaf v 1 (.new f (flags ||| .present)) = some t) :
    t = { phys := (f &&& addrMask) + v.pageOffset, flags := ⟨(flags ||| .present).bits⟩,
          pageSize := pageSize } := by
  have hp := new_isPresent f (union_and flags .present)
  simp only [leaf, hp, new_addr, new_flags] at h
  exact (some.inj h).symm

theorem sound_dropFrame (h : Sound P root s) {f : Option PhysAddr} {fs : List (Option PhysAddr)}
    (hf : s.frames = f :: fs) : Sound P root { s with frames := fs } := by
  obtain ⟨D, hD⟩ := h
  exact ⟨D, hD.good.dropFrame hf, hD.pages⟩

/-- A user page with sound flags. If it is mapped, its frame is one of those
kept for pages. -/
theorem sound_mapUserPage (hP : Family P) (h : Sound P root s) (virt : VirtAddr)
    (hw : WriteXor (flags ||| .user ||| .present ||| .present)) :
    Sound P root (mapUserPage root virt flags s).2 ∧
      ∀ f, (mapUserPage root virt flags s).1 = .ok f →
        ∃ D, D f ∧ Kept D (P D) root (mapUserPage root virt flags s).2 := by
  unfold mapUserPage
  split
  · exact ⟨h, fun _ hr => by cases hr⟩
  rename_i hlt
  rcases hfs : s.frames with _ | ⟨_ | f, fs⟩
  · simp only [allocateZeroedFrame, allocateFrame, hfs]
    refine ⟨?_, fun _ hr => by cases hr⟩
    rwa [← hfs]
  · simp only [allocateZeroedFrame, allocateFrame, hfs]
    exact ⟨sound_dropFrame h hfs, fun _ hr => by cases hr⟩
  simp only [allocateZeroedFrame, allocateFrame, hfs]
  obtain ⟨D, hD⟩ := h
  have hmask : f &&& addrMask = f := hD.good.frame f (hfs ▸ mem_cons_self)
  have htaken : Kept (fun g => D g ∨ g = f) (P fun g => D g ∨ g = f) root
      { mem := fill s.mem f .empty, frames := fs } :=
    (hD.take hfs).mono fun _ _ ht => hP.mono (fun _ hg => .inl hg) ht
  have hnew : ∀ v t, leaf v 1 (.new f (flags ||| .user ||| .present ||| .present)) = some t →
      P (fun g => D g ∨ g = f) v t := by
    intro v t ht
    rw [leaf_new ht, hmask]
    exact hP.new (.inr rfl) hmask (writeXor_bits hw) v
  have hmapped := htaken.map4k (covers_lowerHalf _ (UInt64.not_le.1 hlt)) hnew
  refine ⟨⟨_, hmapped⟩, ?_⟩
  intro g hg
  refine ⟨_, .inr ?_, hmapped⟩
  rcases hr : (map4k root virt f (flags ||| .user ||| .present)
    { mem := fill s.mem f .empty, frames := fs }).1 with err | u
  · rw [hr] at hg
    cases hg
  · rw [hr] at hg
    exact (Except.ok.inj hg).symm

theorem sound_mapSegmentPages (hP : Family P)
    (hw : WriteXor (flags ||| .user ||| .present ||| .present)) (n : Nat) (v : VirtAddr)
    (h : Sound P root s) : Sound P root (mapSegmentPages root flags n v s).2 := by
  induction n generalizing v s with
  | zero => exact h
  | succ n ih =>
    have hpage := (sound_mapUserPage hP h v hw).1
    rw [mapSegmentPages]
    generalize mapUserPage root v flags s = r at hpage ⊢
    split
    · exact ih _ hpage
    · exact ih _ hpage
    · exact hpage

theorem writeXor_kernelRw : WriteXor (PageFlags.kernelRw ||| .user ||| .present ||| .present) := by
  unfold WriteXor
  decide

theorem sound_mapStack (hP : Family P) (error : String) (n : Nat) (v : VirtAddr)
    (h : Sound P root s) : Sound P root (mapStack error root n v s).2 := by
  induction n generalizing v s with
  | zero => exact h
  | succ n ih =>
    have hpage := (sound_mapUserPage hP h v writeXor_kernelRw).1
    rw [mapStack]
    generalize mapUserPage root v .kernelRw s = r at hpage ⊢
    split
    · exact ih _ hpage
    · exact hpage

/-! ## Copying into pages -/

theorem frame_bounds (h : f &&& addrMask = f) : f.toNat % 4096 = 0 ∧ f.toNat < 2 ^ 52 := by
  constructor
  · rw [← isAligned_pageSize, isAligned, ← h, UInt64.and_assoc,
      show addrMask &&& (pageSize - 1) = 0 by decide, UInt64.and_zero, beq_self_eq_true]
  have hle : (f &&& addrMask).toNat ≤ addrMask.toNat := by
    rw [toNat_and]
    exact Nat.and_le_right
  rw [h] at hle
  exact Nat.lt_of_le_of_lt hle (by decide)

theorem frameOf_add (h : f &&& addrMask = f) {p : PhysAddr} {o : Nat} (ho : o < 4096)
    (hp : p.toNat = f.toNat + o) : frameOf p = f := by
  obtain ⟨hal, -⟩ := frame_bounds h
  have hq : p.toNat / 4096 * 4096 = f.toNat := by omega
  rw [frameOf, hq]
  exact UInt64.ofNat_toNat

theorem writeBytes_agreeOff (h : f &&& addrMask = f) (data : List UInt8) {p : PhysAddr} {o : Nat}
    (ho : o + data.length ≤ 4096) (hp : p.toNat = f.toNat + o) (mem : Memory) :
    AgreeOff f mem (writeBytes mem p data) := by
  induction data generalizing mem p o with
  | nil => exact fun _ _ _ => rfl
  | cons b bs ih =>
    rw [length_cons] at ho
    have hlt := (frame_bounds h).2
    have hp1 : (p + 1).toNat = f.toNat + (o + 1) := by
      rw [toNat_add, hp, show (1 : UInt64).toNat = 1 from rfl]
      omega
    have hrest := ih (o := o + 1) (by omega) hp1 (writeByte mem p b)
    intro a ha j
    rw [writeBytes, hrest a ha j]
    have hframe := frameOf_add h (o := o) (by omega) hp
    show TableTree.write mem (frameOf p) _ _ a j = mem a j
    rw [hframe, TableTree.write, if_neg fun hc => ha hc.1]

theorem sound_writeUser (n : Nat) {data : List UInt8}
    (hrange : v.toNat + data.length ≤ userAddressLimit.toNat) (h : Sound Private root s) :
    Sound Private root { s with mem := (writeUser root n v data s.mem).2 } := by
  induction n generalizing v data s with
  | zero => exact h
  | succ n ih =>
    rw [writeUser]
    split
    · exact h
    rename_i hne
    split
    · exact h
    rename_i t ht
    have hpos : 0 < data.length := length_pos_iff.2 hne
    have hlimit : userAddressLimit.toNat = 2 ^ 47 := by decide
    have hv : v < userAddressLimit := by
      rw [lt_iff_toNat_lt]
      omega
    obtain ⟨D, hD⟩ := h
    obtain ⟨-, f, hf, hmask, hphys⟩ := hD.pages v (covers_lowerHalf D hv) t ht
    have hoff : v.pageOffset.toNat = v.toNat % 4096 := by
      rw [VirtAddr.pageOffset, toNat_and,
        show (pageSize - 1).toNat = 2 ^ 12 - 1 by decide, Nat.and_two_pow_sub_one_eq_mod]
    obtain ⟨hal, hflt⟩ := frame_bounds hmask
    have hmod : v.toNat % 4096 < 4096 := Nat.mod_lt _ (by decide)
    have hpn : t.phys.toNat = f.toNat + v.toNat % 4096 := by
      rw [hphys, toNat_add, hoff]
      omega
    have hchunk : (pageSize - v.pageOffset).toNat = 4096 - v.toNat % 4096 := by
      rw [UInt64.toNat_sub_of_le _ _ (by rw [le_iff_toNat_le, hoff]; exact hmod.le), hoff]
      rfl
    rw [hchunk]
    have hk : min (4096 - v.toNat % 4096) data.length ≤ data.length := Nat.min_le_right _ _
    have hk' : min (4096 - v.toNat % 4096) data.length ≤ 4096 - v.toNat % 4096 :=
      Nat.min_le_left _ _
    generalize min (4096 - v.toNat % 4096) data.length = k at hk hk'
    have hag : AgreeOff f s.mem (writeBytes s.mem t.phys (data.take k)) := by
      apply writeBytes_agreeOff hmask (data.take k) (o := v.toNat % 4096) ?_ hpn
      rw [length_take]
      omega
    have hstep : Sound Private root { s with mem := writeBytes s.mem t.phys (data.take k) } :=
      ⟨D, hD.agreeOff hf hag⟩
    refine ih (s := { s with mem := writeBytes s.mem t.phys (data.take k) }) ?_ hstep
    rw [length_drop, toNat_add, toNat_ofNat']
    omega

theorem sound_writeOr (error : String) {data : List UInt8}
    (hrange : v.toNat + data.length ≤ userAddressLimit.toNat) (h : Sound Private root s) :
    Sound Private root (writeOr error root v data s).2 := by
  have hw := sound_writeUser data.length hrange h
  unfold writeOr
  split
  · rename_i heq
    rw [show writeUser root data.length v data s.mem = _ from heq] at hw
    exact hw
  rename_i heq
  rw [show writeUser root data.length v data s.mem = _ from heq] at hw
  exact hw

/-! ## Loading -/

theorem sound_andThen {β : Type} {r : Except String Unit × Machine}
    {f : Machine → Except String β × Machine} (hr : Sound P root r.2)
    (hf : ∀ s, Sound P root s → Sound P root (f s).2) : Sound P root (andThen r f).2 := by
  rcases r with ⟨e | a, s⟩
  · exact hr
  · exact hf s hr

theorem segmentFlags_writeXor {ph : ProgramHeader} (h : (ph.writable && ph.executable) = false) :
    WriteXor (segmentFlags ph ||| .user ||| .present ||| .present) := by
  unfold segmentFlags WriteXor
  cases hw : ph.writable <;> cases hx : ph.executable <;> simp [hw, hx] at h ⊢ <;> decide

/-- The segment ends in user memory. -/
def InRange (base : UInt64) (ph : ProgramHeader) : Prop :=
  (ph.pVaddr + base).toNat + ph.pMemsz.toNat ≤ userAddressLimit.toNat

theorem sound_loadSegment {ph : ProgramHeader} (hin : InRange base ph) (h : Sound Private root s) :
    Sound Private root (loadSegment elf root base ph s).2 := by
  unfold loadSegment
  split
  · exact h
  rename_i hwx
  split
  · exact h
  rename_i data hdata
  simp only [Bool.not_eq_true] at hwx
  apply sound_andThen (sound_mapSegmentPages family_private (segmentFlags_writeXor hwx) _ _ h)
  intro s hs
  refine sound_writeOr _ ?_ hs
  have hlen : data.length ≤ ph.pMemsz.toNat := by
    unfold ElfFile.segmentData at hdata
    split at hdata
    · cases hdata
    rename_i hsz
    split at hdata
    · cases hdata
    cases hdata
    rw [length_take]
    exact (Nat.min_le_left _ _).trans (le_iff_toNat_le.1 (UInt64.not_lt.1 hsz))
  unfold InRange at hin
  omega

theorem sound_loadAll (phs : List ProgramHeader) (hin : ∀ ph ∈ phs, InRange base ph)
    (h : Sound Private root s) : Sound Private root (loadAll elf root base phs s).2 := by
  induction phs generalizing s with
  | nil => exact h
  | cons ph phs ih =>
    obtain ⟨hph, hrest⟩ := forall_mem_cons.1 hin
    exact sound_andThen (sound_loadSegment hph h) fun s hs => ih hrest hs

theorem sound_relocateAll (hhi : hi.toNat ≤ userAddressLimit.toNat) (rs : List Rela)
    (h : Sound Private root s) : Sound Private root (relocateAll root base lo hi rs s).2 := by
  induction rs generalizing s with
  | nil => exact h
  | cons r rs ih =>
    apply sound_andThen _ fun s hs => ih hs
    unfold relocate
    split
    · exact h
    dsimp only
    split
    · exact h
    rename_i hat
    refine sound_writeOr _ ?_ h
    simp only [not_or, Nat.not_le, UInt64.not_lt] at hat
    have hend := le_iff_toNat_le.1 hat.2.2
    rw [toNat_add, show (8 : UInt64).toNat = 8 from rfl] at hend
    simp only [leWord, length_map, length_range]
    omega

theorem widen_covers (phs : List ProgramHeader) {range : Option (UInt64 × UInt64)}
    (h : phs.foldl ElfFile.widen range = some (lo, hi)) :
    (∃ lo' hi', range = some (lo', hi') ∧ hi' ≤ hi) ∧
      ∀ ph ∈ phs, ph.pVaddr.toNat + ph.pMemsz.toNat ≤ hi.toNat := by
  induction phs generalizing range with
  | nil =>
    refine ⟨⟨lo, hi, h, UInt64.le_refl hi⟩, ?_⟩
    intro ph hph
    exact absurd hph not_mem_nil
  | cons ph phs ih =>
    obtain ⟨⟨lo', hi', hrange, hle⟩, hrest⟩ := ih h
    obtain ⟨⟨lo0, hi0⟩, rfl, hw⟩ := bind_eq_some_iff.1 hrange
    dsimp only at hw
    split at hw
    · rename_i hfit
      cases hw
      rw [le_iff_toNat_le] at hle
      have hmax : (max hi0 (ph.pVaddr + ph.pMemsz)).toNat =
          max hi0.toNat (ph.pVaddr + ph.pMemsz).toNat := by
        rw [UInt64.max_def, Nat.max_def]
        simp only [le_iff_toNat_le]
        split <;> rfl
      have hsum : (ph.pVaddr + ph.pMemsz).toNat = ph.pVaddr.toNat + ph.pMemsz.toNat := by
        rw [toNat_add, Nat.mod_eq_of_lt hfit]
      refine ⟨⟨lo0, hi0, rfl, ?_⟩, ?_⟩
      · rw [le_iff_toNat_le]
        omega
      · rintro q (_ | ⟨_, hq⟩)
        · omega
        · exact hrest q hq
    · cases hw

theorem userRange_spec (h : userRange elf base = .ok (lo, hi)) :
    hi.toNat ≤ userAddressLimit.toNat ∧ ∀ ph ∈ elf.loadSegments, InRange base ph := by
  unfold userRange at h
  split at h
  · cases h
  rename_i lo0 hi0 hr
  split at h
  · cases h
  rename_i hover
  split at h
  · cases h
  rename_i hbounds
  cases h
  simp only [not_or, Nat.not_le] at hover
  simp only [not_or, UInt64.not_lt] at hbounds
  have hend := le_iff_toNat_le.1 hbounds.2
  have htop : (userStackTop - userStackWindow - userStackSize - pageSize).toNat ≤
      userAddressLimit.toNat := by decide
  have hsum : (hi0 + base).toNat = hi0.toNat + base.toNat := by
    rw [toNat_add, Nat.mod_eq_of_lt hover.2]
  refine ⟨hend.trans htop, ?_⟩
  obtain ⟨⟨lo1, hi1⟩, hfold, hif⟩ := bind_eq_some_iff.1 hr
  dsimp only at hif
  split at hif
  · cases hif
    intro ph hph
    have hcover := (widen_covers _ hfold).2 ph hph
    unfold InRange
    have hlt := ph.pVaddr.toNat_lt
    rw [toNat_add]
    omega
  · cases hif

theorem sound_mapMainStack (rnd : Randoms) (h : Sound Private root s) :
    Sound Private root (mapMainStack rnd root s).2 := by
  unfold mapMainStack
  exact sound_mapStack family_private _ _ _ h

theorem sound_placeStack (rnd : Randoms) (h : Sound Private root s) :
    Sound Private root (placeStack rnd root s).2 :=
  sound_andThen (sound_mapMainStack rnd h) fun _ hs => hs

theorem sound_finishSpace (elf : ElfFile) (rnd : Randoms)
    (hhi : hi.toNat ≤ userAddressLimit.toNat) (h : Sound Private root s) :
    Sound Private root (finishSpace elf rnd root lo hi s).2 := by
  unfold finishSpace
  split
  · exact h
  refine sound_andThen ?_ ?_
  · unfold applyRelocations
    split
    · split
      · exact h
      · exact sound_relocateAll hhi _ h
    · exact h
  · intro s hs
    exact sound_placeStack rnd hs

theorem sound_fillSpace (elf : ElfFile) (rnd : Randoms) (h : Sound Private root s) :
    Sound Private root (fillSpace elf rnd root s).2 := by
  unfold fillSpace
  split
  · exact h
  rename_i lo hi hrange
  obtain ⟨hhi, hin⟩ := userRange_spec hrange
  exact sound_andThen (sound_loadAll _ hin h) fun s hs => sound_finishSpace elf rnd hhi hs

theorem andThen_ok {β : Type} {r : Except String Unit × Machine}
    {f : Machine → Except String β × Machine} {b : β} (h : (andThen r f).1 = .ok b) :
    ∃ s, (f s).1 = .ok b := by
  rcases r with ⟨e | a, s⟩
  · cases h
  · exact ⟨s, h⟩

theorem placeStack_root (h : (placeStack rnd root s).1 = .ok sp) : sp.root = root := by
  obtain ⟨s1, h1⟩ := andThen_ok h
  rw [← Except.ok.inj h1]

theorem finishSpace_root (h : (finishSpace elf rnd root lo hi s).1 = .ok sp) : sp.root = root := by
  unfold finishSpace at h
  split at h
  · cases h
  obtain ⟨s1, h1⟩ := andThen_ok h
  exact placeStack_root h1

theorem fillSpace_root (h : (fillSpace elf rnd root s).1 = .ok sp) : sp.root = root := by
  unfold fillSpace at h
  split at h
  · cases h
  obtain ⟨s1, h1⟩ := andThen_ok h
  exact finishSpace_root h1

end

/-- The allocator hands out each frame once, and frames an entry can hold. -/
structure AllocOk (frames : List (Option PhysAddr)) : Prop where
  nodup : (frames.filterMap id).Nodup
  frame : ∀ f, some f ∈ frames → isAligned f pageSize = true ∧ f.toNat < 2 ^ 52

variable {root : PhysAddr} {s : Machine}

theorem sound_newSpace {kernelRoot : PhysAddr} (ha : AllocOk s.frames)
    (h : (newSpace kernelRoot s).1 = some root) : Sound Private root (newSpace kernelRoot s).2 := by
  rcases hfs : s.frames with _ | ⟨_ | f, fs⟩
  · simp [newSpace, allocateZeroedFrame, allocateFrame, hfs] at h
  · simp [newSpace, allocateZeroedFrame, allocateFrame, hfs] at h
  simp only [newSpace, allocateZeroedFrame, allocateFrame, hfs, some.injEq] at h ⊢
  subst h
  rw [hfs] at ha
  obtain ⟨hnot, hnodup⟩ : f ∉ fs.filterMap id ∧ (fs.filterMap id).Nodup :=
    nodup_cons.1 ha.nodup
  refine ⟨fun _ => False, ?_⟩
  generalize hmem : (fun a i => if a = f ∧ 256 ≤ i then fill s.mem f .empty kernelRoot i
    else fill s.mem f .empty a i) = mem
  have hempty : ∀ i, i < 256 → mem f i = .empty := by
    intro i hi
    rw [← hmem]
    simp [fill, Nat.not_le.2 hi]
  have htable : ∀ p t, (lowerHalf fun _ => False).holds p →
      tableAt child mem f p = some t → p = [] ∧ t = f := by
    intro p t hp ht
    cases p with
    | nil =>
      cases ht
      exact ⟨rfl, rfl⟩
    | cons i p =>
      have hi : i < 256 := hp.2 i rfl
      simp [tableAt, hempty i hi, child_empty] at ht
  refine ⟨?_, ?_⟩
  · constructor
    case separated =>
      intro p q t hp hq htp htq
      rw [(htable p t hp htp).1, (htable q t hq htq).1]
    case plain =>
      intro i hi
      show (mem f i).isHuge = false
      rw [hempty i (hi.2 i rfl)]
      decide
    case fresh =>
      intro g hg p hp hpg
      have := (htable p g hp hpg).2
      subst this
      exact hnot (mem_filterMap.2 ⟨some g, hg, rfl⟩)
    case nodup => exact hnodup
    case frame =>
      intro g hg
      obtain ⟨hal, hlt⟩ := ha.frame g (mem_cons_of_mem _ hg)
      exact addr_of_aligned hal hlt
    case reserved => exact fun _ hf => hf.elim
  · intro v hv t ht
    have hi : v.tableIndex 4 < 256 := hv.2 _ rfl
    change translateFrom mem v 4 f = some t at ht
    rw [translateFrom, hempty _ hi] at ht
    cases ht

theorem sound_spawnElf {image : List UInt8} {kernelRoot : PhysAddr} {rnd : Randoms}
    (ha : AllocOk s.frames) {sp : Space} (h : (spawnElf image kernelRoot rnd s).1 = .ok sp) :
    Sound Private sp.root (spawnElf image kernelRoot rnd s).2 := by
  unfold spawnElf at h ⊢
  split at h
  · cases h
  rename_i elf helf
  split at h
  · cases h
  rename_i root s1 hnew
  have hroot : (newSpace kernelRoot s).1 = some root := by rw [hnew]
  have hs := sound_newSpace ha hroot
  rw [hnew] at hs
  rw [fillSpace_root h]
  exact sound_fillSpace elf rnd hs

/-! ## Later calls -/

section
variable {root : PhysAddr} {s : Machine}

theorem Sound.plain (h : Sound Private root s) : Sound Plain root s := by
  obtain ⟨D, hD⟩ := h
  exact ⟨D, hD.mono fun _ _ ht => ht.1⟩

theorem sound_mapForeign {flags : PageFlags} (hw : WriteXor (flags ||| .present))
    (h : Sound Plain root s) (virt : VirtAddr) (phys : PhysAddr) :
    Sound Plain root (mapForeign flags root virt phys s).2 := by
  unfold mapForeign
  split
  · exact h
  rename_i hlt
  obtain ⟨D, hD⟩ := h
  refine ⟨D, hD.map4k (covers_lowerHalf D (UInt64.not_le.1 hlt)) ?_⟩
  intro v t ht
  rw [leaf_new ht]
  exact writeXor_bits hw

theorem sound_mapFrames {map : VirtAddr → PhysAddr → Machine → Except MapError Unit × Machine}
    (hmap : ∀ v f s, Sound Plain root s → Sound Plain root (map v f s).2) (fs : List PhysAddr)
    (v : VirtAddr) (h : Sound Plain root s) : Sound Plain root (mapFrames map v fs s) := by
  induction fs generalizing v s with
  | nil => exact h
  | cons f fs ih =>
    have hpage := hmap v f s h
    rw [mapFrames]
    generalize map v f s = r at hpage ⊢
    split
    · exact ih _ hpage
    · exact hpage

theorem sound_unmapPages (n : Nat) (v : VirtAddr)
    (hrange : v.toNat + 4096 * n ≤ userAddressLimit.toNat) (h : Sound Plain root s) :
    Sound Plain root { s with mem := (unmapPages root n v s.mem).2 } := by
  induction n generalizing v s with
  | zero => exact h
  | succ n ih =>
    have hlimit : userAddressLimit.toNat = 2 ^ 47 := by decide
    have hv : v < userAddressLimit := by
      rw [lt_iff_toNat_lt]
      omega
    obtain ⟨D, hD⟩ := h
    have hpage : Sound Plain root { s with mem := (unmap4k root v s.mem).2 } :=
      ⟨D, hD.unmap4k (covers_lowerHalf D hv)⟩
    have hnext : (v + pageSize).toNat + 4096 * n ≤ userAddressLimit.toNat := by
      rw [toNat_add, show pageSize.toNat = 4096 from rfl]
      omega
    rw [unmapPages]
    generalize unmap4k root v s.mem = r at hpage ⊢
    split
    · exact ih _ hnext hpage
    · exact ih _ hnext hpage
    · exact hpage

theorem sound_unmapUserShared {base len : UInt64} (hlen : len % pageSize = 0)
    (hrange : base.toNat + len.toNat ≤ userAddressLimit.toNat) (h : Sound Plain root s) :
    Sound Plain root { s with mem := (unmapUserShared root base len s.mem).2 } := by
  unfold unmapUserShared
  split
  · exact h
  refine sound_unmapPages _ _ ?_ h
  have hlimit : userAddressLimit.toNat = 2 ^ 47 := by decide
  have hmod : len.toNat % 4096 = 0 := by
    have := congrArg UInt64.toNat hlen
    rwa [UInt64.toNat_mod] at this
  have hal : isAligned len pageSize = true := (isAligned_pageSize len).2 hmod
  have hup : (alignUp len pageSize).toNat ≤ len.toNat + 4095 := by
    unfold alignUp
    have hm1 : (pageSize - 1).toNat = 4095 := by decide
    rw [if_pos (by rw [hm1]; omega), toNat_and]
    refine Nat.and_le_left.trans ?_
    rw [toNat_add, hm1]
    omega
  rw [UInt64.toNat_div, show pageSize.toNat = 4096 from rfl]
  omega

theorem writeXor_shared : WriteXor (PageFlags.kernelRw ||| .user ||| .present) := by
  unfold WriteXor
  decide

theorem writeXor_mmio :
    WriteXor (PageFlags.kernelRw ||| .user ||| .noCache ||| .writeThrough ||| .present) := by
  unfold WriteXor
  decide

end

@[simp] theorem reserve_root (sp : Space) (len : UInt64) : (sp.reserve len).root = sp.root := by
  simp only [Space.reserve]

theorem MemCall.exec_root (x : Space × Machine) (c : MemCall) : (c.exec x).1.root = x.1.root := by
  cases c with
  | memoryMap frames len | dmaAlloc => exact reserve_root _ _
  | mmioMap phys len =>
    simp only [MemCall.exec, Loader.mmioMap]
    split
    · rfl
    · exact reserve_root _ _
  | threadCreate entry =>
    simp only [MemCall.exec, createUserThread]
    split
    · rfl
    · exact reserve_root _ _
  | memoryUnmap base len =>
    simp only [MemCall.exec, Loader.memoryUnmap]
    split <;> rfl

theorem sound_dmaPage (h : Sound Plain root s) (base : VirtAddr) :
    Sound Plain root (dmaPage root base s) := by
  obtain ⟨hs, hframe⟩ := sound_mapUserPage family_plain h base writeXor_kernelRw
  unfold dmaPage
  split
  · rename_i phys s1 heq
    obtain ⟨D, hphys, hD⟩ := hframe phys (by rw [heq])
    rw [heq] at hD
    exact ⟨D, hD.agreeOff hphys (fill_agreeOff _ _ _)⟩
  · rename_i s1 heq
    rw [heq] at hs
    exact hs

theorem sound_mapThreadStack (h : Sound Plain root s) (base : VirtAddr) :
    Sound Plain root (mapThreadStack root base s) := by
  unfold mapThreadStack
  exact sound_mapStack family_plain _ _ _ h

theorem sound_exec {x : Space × Machine} (h : Sound Plain x.1.root x.2) (c : MemCall) :
    Sound Plain x.1.root (c.exec x).2 := by
  cases c with
  | memoryMap frames len =>
    exact sound_mapFrames (fun v f s hs => sound_mapForeign writeXor_shared hs v f) _ _ h
  | mmioMap phys len =>
    simp only [MemCall.exec, Loader.mmioMap]
    split
    · exact h
    · exact sound_mapFrames (fun v f s hs => sound_mapForeign writeXor_mmio hs v f) _ _ h
  | dmaAlloc => exact sound_dmaPage h _
  | threadCreate entry =>
    simp only [MemCall.exec, createUserThread]
    split
    · exact h
    · dsimp only
      exact sound_mapThreadStack h x.1.deviceNext
  | memoryUnmap base len =>
    simp only [MemCall.exec, Loader.memoryUnmap]
    split
    · exact h
    rename_i hargs
    simp only [not_or, Decidable.not_not, Nat.not_lt] at hargs
    exact sound_unmapUserShared hargs.2.2.2.1 hargs.2.2.2.2.2 h

theorem sound_runCalls {x : Space × Machine} (h : Sound Plain x.1.root x.2) (calls : List MemCall) :
    (runCalls x calls).1.root = x.1.root ∧ Sound Plain x.1.root (runCalls x calls).2 := by
  induction calls generalizing x with
  | nil => exact ⟨rfl, h⟩
  | cons c calls ih =>
    have hroot := c.exec_root x
    have hc := sound_exec h c
    rw [← hroot] at hc
    obtain ⟨hr, hs⟩ := ih hc
    rw [hroot] at hr hs
    exact ⟨hr, hs⟩

/-- For every image that is accepted, whatever its segments and relocations,
and every sequence of later mapping calls: no page of the lower half is
writable and executable. -/
theorem no_page_writable_and_executable {image : List UInt8} {kernelRoot : PhysAddr}
    {rnd : Randoms} {s s' : Machine} {sp : Space} (ha : AllocOk s.frames)
    (hspawn : spawnElf image kernelRoot rnd s = (.ok sp, s')) (calls : List MemCall)
    {v : VirtAddr} (hv : v < userAddressLimit) {t : Translation}
    (ht : Paging.translate sp.root (runCalls (sp, s') calls).2.mem v = some t) :
    ¬ (t.flags.contains .writable = true ∧ t.flags.contains .noExecute = false) := by
  have hloaded : Sound Private sp.root s' := by
    have hok : (spawnElf image kernelRoot rnd s).1 = .ok sp := by rw [hspawn]
    have hsound := sound_spawnElf ha hok
    rwa [hspawn] at hsound
  obtain ⟨D, hD⟩ := (sound_runCalls (x := (sp, s')) hloaded.plain calls).2
  have hflags : WriteXor t.flags := hD.pages v (covers_lowerHalf D hv) t ht
  rintro ⟨hw, hx⟩
  rw [hflags hw] at hx
  exact absurd hx.symm Bool.false_ne_true

/-- A loadable segment of one byte at `0x400000 + 256 * high`, with nothing in the file. -/
def loadHeader (flags high : UInt8) : List UInt8 :=
  [1, 0, 0, 0, flags, 0, 0, 0, 0, 0, 0, 0, 0, 0, 0, 0,
    0, high, 0x40, 0, 0, 0, 0, 0, 0, 0, 0, 0, 0, 0, 0, 0,
    0, 0, 0, 0, 0, 0, 0, 0, 1, 0, 0, 0, 0, 0, 0, 0,
    0, 0, 0, 0, 0, 0, 0, 0]

/-- An executable and a writable segment in the same page. -/
def codeImage : List UInt8 :=
  [0x7f, 0x45, 0x4c, 0x46, 2, 1, 0, 0, 0, 0, 0, 0, 0, 0, 0, 0,
    2, 0, 0x3e, 0, 0, 0, 0, 0, 0, 0, 0x40, 0, 0, 0, 0, 0,
    0x40, 0, 0, 0, 0, 0, 0, 0, 0, 0, 0, 0, 0, 0, 0, 0,
    0, 0, 0, 0, 0, 0, 0x38, 0, 2, 0, 0, 0, 0, 0, 0, 0] ++ loadHeader 5 0 ++ loadHeader 6 8

/-- Cleared memory and enough frames. -/
def loaderMachine : Machine :=
  { mem := fun _ _ => .empty,
    frames := (List.range 80).map fun i => some (ofNat (0x100000 + 4096 * i)) }

theorem loaderMachine_allocOk : AllocOk loaderMachine.frames where
  nodup := by decide +kernel
  frame := by
    intro f hf
    have hall : loaderMachine.frames.all
        (fun x => x.all fun f => isAligned f pageSize && decide (f.toNat < 2 ^ 52)) = true := by
      decide +kernel
    simpa using all_eq_true.1 hall (some f) hf

def loadedSpace : Space := { root := 0x100000, deviceNext := userDeviceRegion }

def loadedMachine : Machine := (spawnElf codeImage 0 ⟨0, 0, 0⟩ loaderMachine).2

theorem spawnElf_codeImage :
    spawnElf codeImage 0 ⟨0, 0, 0⟩ loaderMachine = (.ok loadedSpace, loadedMachine) := by
  have hok : (spawnElf codeImage 0 ⟨0, 0, 0⟩ loaderMachine).1 = .ok loadedSpace := by
    decide +kernel
  rw [← hok]
  unfold loadedMachine
  exact Prod.mk.eta.symm

/-- The page of both segments is executable, and not writable. -/
theorem no_page_writable_and_executable_sample : Paging.translate loadedSpace.root
        (runCalls (loadedSpace, loadedMachine) [.dmaAlloc]).2.mem 0x400800 =
        some { phys := 0x101800, flags := .present ||| .user, pageSize := 4096 } ∧
      ¬ ((PageFlags.present ||| .user).contains .writable = true ∧
        (PageFlags.present ||| .user).contains .noExecute = false) := by
  have ht : Paging.translate loadedSpace.root
      (runCalls (loadedSpace, loadedMachine) [.dmaAlloc]).2.mem 0x400800 =
      some { phys := 0x101800, flags := .present ||| .user, pageSize := 4096 } := by
    decide +kernel
  exact ⟨ht, no_page_writable_and_executable loaderMachine_allocOk spawnElf_codeImage [.dmaAlloc]
    (by decide) ht⟩

end NexoOS.Loader
