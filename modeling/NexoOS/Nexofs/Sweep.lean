import NexoOS.Nexofs.Walk

/-!
# The recovery loop on a disk that it changes

The loop of `check` clears the slot of a second name and goes on with the changed
disk. What it changed is behind it: a slot before the next one of a directory it has
met, in a block no other inode refers to. So each round is the round of `walk` on the
image the loop started from (`Trimmed.turn`), and the loop as a whole is the walk
(`checkLoop_eq`). A walk on the image it leaves meets the same inodes and finds
nothing to remove (`rewalk`).
-/

namespace NexoOS.Nexofs

open List Except Function Prod Prog

/-- An entry the walk has removed: it was read in a directory that was met, and the
search of that directory is past it. -/
structure Past (v₀ : Image) (w : Walker) (c : Nat × Nat) : Prop where
  met : w.used c.1 = true
  entry : ∃ dir e, v₀.inode c.1 = .ok dir ∧ v₀.slotAt dir c.2 = .ok (some e)
  behind : ∀ next, (c.1, next) ∈ w.stack → c.2 < next

/-- `v` is `v₀` without the entries `cuts`, all of them behind the walk. -/
structure Trimmed (v₀ v : Image) (w : Walker) (cuts : List (Nat × Nat)) : Prop where
  inode : ∀ x, v.inode x = v₀.inode x
  clean : ∀ b, w.bm b = false → v.block b = v₀.block b
  indirect : ∀ x dir, w.used x = true → v₀.inode x = .ok dir → Image.SameIndirect v v₀ dir
  slot : ∀ x dir j, w.used x = true → v₀.inode x = .ok dir →
    v.slotAt dir j = if (x, j) ∈ cuts then .ok none else v₀.slotAt dir j
  past : ∀ c ∈ cuts, Past v₀ w c

section
variable {sb : Superblock} {v₀ : Image} {w w' : Walker} {c : Nat × Nat} {t : Turn}

theorem Past.advance (h : Past v₀ w c) {dino next i : Nat} {rest : List (Nat × Nat)}
    (hs : w.stack = (dino, next) :: rest) (hi : next ≤ i) :
    ∀ n, (c.1, n) ∈ (dino, i + 1) :: rest → c.2 < n := by
  intro n hn
  have hbehind := h.behind
  rw [hs] at hbehind
  rcases mem_cons.mp hn with heq | hn
  · obtain ⟨hc, rfl⟩ := mk.inj heq
    have := hbehind next (hc ▸ mem_cons_self)
    omega
  · exact hbehind n (mem_cons_of_mem _ hn)

theorem Past.of_found (hw : Walked sb v₀ w) {dino next i child : Nat} {dir : Inode}
    {rest : List (Nat × Nat)} (hs : w.stack = (dino, next) :: rest) (hdir : v₀.inode dino = .ok dir)
    (hfound : (v₀.firstEntry dir fun i _ => decide (next ≤ i)) = .ok (some (i, child))) :
    Past v₀ { w with stack := (dino, i + 1) :: rest } (dino, i) := by
  obtain ⟨-, -, ⟨e, he, -⟩, -⟩ := hw.found hs hdir hfound
  refine ⟨(hw.frames (dino, next) (hs ▸ mem_cons_self)).1, ⟨dir, e, hdir, he⟩, fun n hn => ?_⟩
  rcases mem_cons.mp hn with heq | hn
  · rw [(mk.inj heq).2]
    exact Nat.lt_succ_self i
  -- a directory is on the stack once
  have hdist := hw.distinct
  rw [hs, map_cons] at hdist
  exact absurd (mem_map_of_mem hn) (nodup_cons.mp hdist).1

theorem Past.moves (h : Past v₀ w c) (hw : Walked sb v₀ w) (hv : v₀.Of sb) (hm : Moves sb v₀ w t)
    (ht : t.after = some w') : Past v₀ w' c := by
  refine ⟨(hm.mono hv ht).2 c.1 h.met, h.entry, ?_⟩
  cases hm with
  | empty | last => cases ht
  | pop hs =>
    cases ht
    exact fun n hn => h.behind n (hs ▸ mem_cons_of_mem _ hn)
  | cut hs hdir hfound | file hs hdir hfound =>
    cases ht
    exact h.advance hs (hw.found hs hdir hfound).1
  | dir hs hdir hfound _ hmark =>
    cases ht
    intro n hn
    rcases mem_cons.mp hn with heq | hn
    · -- the directory just met has no removed entry
      have hmet := h.met
      rw [(mk.inj heq).1, (markInode_ok.mp hmark).2.2.1] at hmet
      cases hmet
    · exact h.advance hs (hw.found hs hdir hfound).1 n hn

end

namespace Trimmed

variable {sb : Superblock} {v₀ v v' : Image} {w w' : Walker} {cuts : List (Nat × Nat)} {t : Turn}

/-! ## A round on the changed image -/

section
variable (h : Trimmed v₀ v w cuts)
include h

theorem readable {x next : Nat} {dir : Inode} (hx : w.used x = true) (hdir : v₀.inode x = .ok dir)
    (hread : ∀ j, j < next → ∃ o, v₀.slotAt dir j = .ok o) :
    ∀ j, j < next → ∃ o, v.slotAt dir j = .ok o := by
  intro j hj
  rw [h.slot x dir j hx hdir]
  split
  · exact ⟨none, rfl⟩
  · exact hread j hj

theorem firstEntry_eq (hw : Walked sb v₀ w) {dino next : Nat}
    {dir : Inode} {rest : List (Nat × Nat)} (hs : w.stack = (dino, next) :: rest)
    (hdir : v₀.inode dino = .ok dir) : (v.firstEntry dir fun i _ => decide (next ≤ i)) =
      v₀.firstEntry dir fun i _ => decide (next ≤ i) := by
  have hmem : (dino, next) ∈ w.stack := hs ▸ mem_cons_self
  have hused := (hw.frames _ hmem).1
  have hread := hw.readable hs hdir
  rw [v.firstEntry_from (h.readable hused hdir hread), v₀.firstEntry_from hread]
  refine Image.search_congr fun k hk _ => ?_
  rw [h.slot dino dir k hused hdir, if_neg]
  intro hcut
  exact absurd ((h.past _ hcut).behind next hmem) (Nat.not_lt.mpr hk)

theorem markRefs_eq (inode : Inode) : markRefs sb v w.bm inode = markRefs sb v₀ w.bm inode := by
  unfold markRefs
  rcases hd : markBlocks sb w.bm (directFrom inode 0) with e | bm₁
  · rfl
  dsimp only
  by_cases hind : inode.indirect = 0
  · rw [if_pos hind, if_pos hind]
  rw [if_neg hind, if_neg hind]
  cases hm : markBlock sb bm₁ inode.indirect with
  | error e => rfl
  | ok bm₂ =>
    -- the indirect block was not marked, so the loop has not written it
    obtain ⟨-, -, rfl⟩ := markBlocks_ok.mp hd
    have hfree := (markBlock_ok.mp hm).2.1
    rw [h.clean _ (Bool.or_eq_false_iff.mp hfree).1]

theorem enter_eq (dino i child : Nat) (rest : List (Nat × Nat)) :
    enter sb v w dino i child rest = enter sb v₀ w dino i child rest := by
  unfold enter markInode
  rw [h.inode child]
  cases v₀.inode child with
  | error e => rfl
  | ok inode => simp only [h.markRefs_eq]

/-- A round on the changed image is the round on the image at the start. -/
theorem turn (hw : Walked sb v₀ w) : turn sb v w = turn sb v₀ w := by
  unfold Nexofs.turn
  rcases hs : w.stack with _ | ⟨⟨dino, next⟩, rest⟩
  · rfl
  dsimp only
  rw [h.inode dino]
  cases hdir : v₀.inode dino with
  | error e => rfl
  | ok dir => simp only [h.firstEntry_eq hw hs hdir, h.enter_eq]

end

/-! ## The next round -/

theorem slotAt_same {inode : Inode} (hind : Image.SameIndirect v v₀ inode)
    (hblk : ∀ b ∈ v₀.refs inode, v.block b = v₀.block b) (j : Nat) :
    v.slotAt inode j = v₀.slotAt inode j := by
  unfold Image.slotAt
  rw [hind.blockPtr]
  rcases hp : v₀.blockPtr inode (j / perBlock) with e | _ | ptr
  · rfl
  · rfl
  · dsimp only
    rw [hblk _ (Image.mem_refs_of_blockPtr hp (Nat.succ_ne_zero ptr))]

/-- Marking an inode keeps the relation: its blocks were not written. -/
theorem mark (h : Trimmed v₀ v w cuts) (hv : v₀.Of sb) {ino : Nat} {inode : Inode}
    {bm used : Nat → Bool} {stack : List (Nat × Nat)} (hino : v₀.inode ino = .ok inode)
    (hmark : markInode sb v₀ w.bm w.used ino inode = .ok (bm, used))
    (hpast : ∀ c ∈ cuts, Past v₀ ⟨bm, used, stack⟩ c) : Trimmed v₀ v ⟨bm, used, stack⟩ cuts := by
  obtain ⟨-, -, hfresh, hrefs, rfl⟩ := markInode_ok.mp hmark
  obtain ⟨hall, -, rfl⟩ := markBlocks_ok.mp ((markRefs_ok hv).mp hrefs)
  have hblk : ∀ b ∈ v₀.refs inode, v.block b = v₀.block b := fun b hb => h.clean b (hall b hb).2
  have hind : Image.SameIndirect v v₀ inode := fun hne => hblk _ (Image.mem_refs_indirect hne)
  have hnew : ∀ x dir, x = ino → v₀.inode x = .ok dir → dir = inode := fun x dir hx hdir =>
    ok.inj ((hx ▸ hdir).symm.trans hino)
  have hold : ∀ x, update w.used ino true x = true → x ≠ ino → w.used x = true :=
    fun x hx hne => by rwa [update_of_ne hne] at hx
  refine ⟨h.inode, fun b hb => h.clean b (Bool.or_eq_false_iff.mp hb).1, fun x dir hx hdir => ?_,
    fun x dir j hx hdir => ?_, hpast⟩
  · by_cases hxi : x = ino
    · rwa [hnew x dir hxi hdir]
    · exact h.indirect x dir (hold x hx hxi) hdir
  by_cases hxi : x = ino
  · rw [hnew x dir hxi hdir, slotAt_same hind hblk, if_neg]
    intro hcut
    have hmet : w.used x = true := (h.past _ hcut).met
    rw [hxi, hfresh] at hmet
    cases hmet
  · exact h.slot x dir j (hold x hx hxi) hdir

/-- Another stack on which the removed entries are behind. -/
theorem restack (h : Trimmed v₀ v w cuts) {stack : List (Nat × Nat)}
    (hpast : ∀ c ∈ cuts, Past v₀ { w with stack := stack } c) :
    Trimmed v₀ v { w with stack := stack } cuts :=
  ⟨h.inode, h.clean, h.indirect, h.slot, hpast⟩

theorem next (h : Trimmed v₀ v w cuts) (hw : Walked sb v₀ w) (hv : v₀.Of sb)
    (hm : Moves sb v₀ w (.next w')) : Trimmed v₀ v w' cuts := by
  have hpast : ∀ c ∈ cuts, Past v₀ w' c := fun c hc => (h.past c hc).moves hw hv hm rfl
  cases hm with
  | pop => exact h.restack hpast
  | file _ _ _ hino hmark | dir _ _ _ hino hmark => exact h.mark hv hino hmark hpast

theorem entry_block {inode : Inode} {i : Nat} {e : Dirent} (h : v.slotAt inode i = .ok (some e)) :
    ∃ ptr blk, v.blockPtr inode (i / perBlock) = .ok ptr ∧ ptr ≠ 0 ∧ v.block ptr = .ok blk := by
  unfold Image.slotAt at h
  split at h
  · cases h
  · cases h
  rename_i q hp
  split at h
  · cases h
  · exact ⟨q + 1, _, hp, Nat.succ_ne_zero q, ‹_›⟩

/-- Clearing the slot of the entry found. -/
theorem cut (h : Trimmed v₀ v w cuts) (hw : Walked sb v₀ w) {dino next i child ptr : Nat}
    {dir : Inode} {rest : List (Nat × Nat)} {old : Block} (hs : w.stack = (dino, next) :: rest)
    (hdir : v₀.inode dino = .ok dir)
    (hfound : (v₀.firstEntry dir fun i _ => decide (next ≤ i)) = .ok (some (i, child)))
    (hptr : v.blockPtr dir (i / perBlock) = .ok ptr) (hne : ptr ≠ 0) (hold : v.block ptr = .ok old)
    (hwrote : Image.Wrote v v' ptr (splice old (i % perBlock * direntSize) direntSize zeroBlock)) :
    Trimmed v₀ v' { w with stack := (dino, i + 1) :: rest } ((dino, i) :: cuts) := by
  have hdino := (hw.frames (dino, next) (hs ▸ mem_cons_self)).1
  have hind := h.indirect dino dir hdino hdir
  obtain ⟨hnodup, hin⟩ := hw.refs dino dir hdino hdir
  have hmem : ptr ∈ v₀.refs dir := Image.mem_refs_of_blockPtr (hind.blockPtr _ ▸ hptr) hne
  have hle := (hw.found hs hdir hfound).1
  -- the block is not one of another inode
  have hother : ∀ x inode, w.used x = true → v₀.inode x = .ok inode → x ≠ dino →
      ptr ∉ v.refs inode := fun x inode hx hi hxd => by
    rw [(h.indirect x inode hx hi).refs]
    exact fun hm => hw.apart dino x dir inode hdino hx (Ne.symm hxd) hdir hi ptr hmem hm
  refine ⟨fun x => (hwrote.inode x).trans (h.inode x), fun b hb => ?_, fun x inode hx hi hne' => ?_,
    fun x inode j hx hi => ?_, fun c hc => ?_⟩
  · have hbp : b ≠ ptr := fun hbp => by
      rw [hbp, (hin ptr hmem).2] at hb
      cases hb
    rw [hwrote.other b hbp, h.clean b hb]
  · have hip : inode.indirect ≠ ptr := fun hip => by
      by_cases hxd : x = dino
      · obtain rfl : dir = inode := ok.inj (hdir.symm.trans (hxd ▸ hi))
        exact Image.blockPtr_ne_indirect hnodup (hind.blockPtr _ ▸ hptr) hne hip.symm
      · exact hother x inode hx hi hxd (hip ▸ Image.mem_refs_indirect hne')
    rw [hwrote.other _ hip, h.indirect x inode hx hi hne']
  · by_cases hxd : x = dino
    · obtain rfl : dir = inode := ok.inj (hdir.symm.trans (hxd ▸ hi))
      subst hxd
      rw [hwrote.slotAt (hind.refs.symm ▸ hnodup) hptr hne hold, h.slot x dir j hx hdir]
      by_cases hji : j = i
      · simp only [hji, mem_cons, true_or, if_true]
        exact Dirent.decode_zero
      · simp [hji]
    · rw [hwrote.slotAt_of_not_mem (hother x inode hx hi hxd), h.slot x inode j hx hi]
      simp [hxd]
  · rcases mem_cons.mp hc with rfl | hc
    · exact Past.of_found hw hs hdir hfound
    · exact ⟨(h.past c hc).met, (h.past c hc).entry, (h.past c hc).advance hs hle⟩

theorem congr (h : Trimmed v₀ v w cuts) {cuts' : List (Nat × Nat)}
    (hmem : ∀ c, c ∈ cuts' ↔ c ∈ cuts) : Trimmed v₀ v w cuts' where
  __ := h
  slot x dir j hx hdir := by simp only [hmem, h.slot x dir j hx hdir]
  past c hc := h.past c ((hmem c).mp hc)

end Trimmed

/-! ## The loop of `check` -/

section
variable {sb : Superblock} {v₀ v : Image} {w w' : Walker} {cuts : List (Nat × Nat)} {m : Mem}
  {d d' : Disk Block} {n : Nat}

@[simp] theorem eval_look {α : Type} (f : Image → Except FsError α) :
    (look sb f).eval m d = (f (image sb d), m, d) := rfl

theorem eval_mark (used : Nat → Bool) (ino : Nat) (inode : Inode) :
    (mark sb used ino inode).eval m d = match markInode sb (image sb d) m.bitmap used ino inode with
      | .error e => (.error e, m, d)
      | .ok (bm, used) => (.ok used, { m with bitmap := bm }, d) := by
  unfold Prog.eval mark
  rcases markInode sb (image sb d) m.bitmap used ino inode with e | ⟨bm, used⟩ <;> rfl

theorem eval_writeEntry {dir : Inode} {i ino ptr : Nat} {name : Name} {blk : Block}
    (hptr : (image sb d).blockPtr dir (i / perBlock) = .ok ptr) (hne : ptr ≠ 0)
    (hblk : (image sb d).block ptr = .ok blk) : (writeEntry sb dir i ino name).eval m d =
      (.ok (), m, d.write ptr (splice blk (i % perBlock * direntSize) direntSize
        (if ino = 0 then zeroBlock else Dirent.encode ino name))) := by
  unfold writeEntry
  simp only [eval_bind, eval_look, hptr]
  rw [if_neg hne]
  simp only [eval_bind, eval_look, hblk, eval_write]

variable (sb) in
/-- One round of the loop, by the round of the walk on the disk as it is. -/
theorem eval_checkLoop (hm : m.bitmap = w.bm) : match turn sb (image sb d) w with
    | .error e => ∃ m', (checkLoop sb (n + 1) w.used w.stack).eval m d = (.error e, m', d)
    | .ok .stop => (checkLoop sb (n + 1) w.used w.stack).eval m d = (.ok w.used, m, d)
    | .ok (.next w') => (checkLoop sb (n + 1) w.used w.stack).eval m d =
        (checkLoop sb n w'.used w'.stack).eval { m with bitmap := w'.bm } d
    | .ok (.cut x i w') => ∀ dir m' d', (image sb d).inode x = .ok dir →
        (writeEntry sb dir i 0 []).eval m d = (.ok (), m', d') →
        (checkLoop sb (n + 1) w.used w.stack).eval m d =
          (checkLoop sb n w'.used w'.stack).eval { m' with repairs := m'.repairs + 1 } d' := by
  rcases hs : w.stack with _ | ⟨⟨dino, next⟩, rest⟩
  · simp only [turn, hs]
    rfl
  simp only [checkLoop, turn, hs, eval_bind, eval_look]
  rcases hdir : (image sb d).inode dino with e | dir
  · exact ⟨m, rfl⟩
  dsimp only
  rcases hfound : (image sb d).firstEntry dir fun i _ => decide (next ≤ i) with e | _ | ⟨i, child⟩
  · exact ⟨m, rfl⟩
  · dsimp only
    by_cases hrest : rest = []
    · rw [if_pos hrest, if_pos hrest]
      rfl
    · rw [if_neg hrest, if_neg hrest, ← hm]
  simp only [enter, eval_bind, eval_look]
  rcases hino : (image sb d).inode child with e | inode
  · exact ⟨m, rfl⟩
  dsimp only
  by_cases hpanic : inode.kind ≠ 0 ∧ maxInodes ≤ child
  · rw [if_pos hpanic, if_pos hpanic]
    exact ⟨m, rfl⟩
  rw [if_neg hpanic, if_neg hpanic]
  by_cases hcut : inode.kind ≠ 0 ∧ w.used child = true
  · rw [if_pos hcut, if_pos hcut]
    intro dir' m' d' hdir' hwrite
    obtain rfl : dir = dir' := ok.inj (hdir.symm.trans hdir')
    simp only [eval_bind, hwrite, addRepairs, eval_stateful]
  rw [if_neg hcut, if_neg hcut]
  simp only [eval_bind, eval_mark, hm]
  rcases markInode sb (image sb d) w.bm w.used child inode with e | ⟨bm, used⟩
  · exact ⟨m, rfl⟩
  dsimp only
  by_cases hkind : inode.kindOf = some .dir
  · rw [if_pos hkind, if_pos hkind]
    by_cases hdepth : maxDepth ≤ rest.length + 1
    · rw [if_pos hdepth, if_pos hdepth]
      exact ⟨{ m with bitmap := bm }, rfl⟩
    · rw [if_neg hdepth, if_neg hdepth]
  · rw [if_neg hkind, if_neg hkind]

/-- The loop of `check` is the walk on the image it starts from: it fails as the walk
does, and otherwise leaves that image without the entries the walk lists. -/
theorem checkLoop_eq (g : sb.Geometry) (hv : v₀.Of sb) (hw : Walked sb v₀ w)
    (h : Trimmed v₀ (image sb d) w cuts) (hm : m.bitmap = w.bm) : match walk sb v₀ n w with
    | .error e => ((checkLoop sb n w.used w.stack).eval m d).1 = .error e
    | .ok (w', more) => ∃ d', (checkLoop sb n w.used w.stack).eval m d =
          (.ok w'.used, { bitmap := w'.bm, repairs := m.repairs + more.length }, d') ∧
        Trimmed v₀ (image sb d') w' (more ++ cuts) ∧ (∀ b, ¬ InData sb b → d' b = d b) ∧
        (more = [] → d' = d) := by
  induction n generalizing w cuts m d with
  | zero => rfl
  | succ n ih =>
    have hround := eval_checkLoop sb (n := n) (d := d) hm
    rw [h.turn hw] at hround
    rw [walk]
    rcases ht : turn sb v₀ w with e | _ | ⟨x, i, w₁⟩ | w₁
    · rw [ht] at hround
      obtain ⟨m', hround⟩ := hround
      rw [hround]
    · rw [ht] at hround
      refine ⟨d, ?_, h.restack fun c hc => ?_, fun _ _ => rfl, fun _ => rfl⟩
      · rw [hround, ← hm]
        rfl
      · exact ⟨(h.past c hc).met, (h.past c hc).entry, fun _ hn => absurd hn not_mem_nil⟩
    · simp only [ht] at hround ⊢
      have hmoves := turn_eq_ok.mp ht
      cases hmoves with
      | cut hs hdir hfound hino hkind hmax hused =>
        rename_i next child dir inode rest
        obtain ⟨-, -, ⟨e, he, -⟩, -⟩ := hw.found hs hdir hfound
        have hdino := (hw.frames _ (hs ▸ mem_cons_self)).1
        have hentry : (image sb d).slotAt dir i = .ok (some e) := by
          rw [h.slot x dir i hdino hdir, if_neg, he]
          intro hcut
          have := (h.past _ hcut).behind next (hs ▸ mem_cons_self)
          have := (hw.found hs hdir hfound).1
          omega
        obtain ⟨ptr, old, hptr, hne, hold⟩ := Trimmed.entry_block hentry
        have hin : InData sb ptr := (image_of sb d).data ptr old hold
        have hwrite : (writeEntry sb dir i 0 []).eval m d = _ := eval_writeEntry hptr hne hold
        rw [if_pos rfl] at hwrite
        have hnext := hround dir _ _ ((h.inode x).trans hdir) hwrite
        have htrim := h.cut hw hs hdir hfound hptr hne hold (image_write g d hin _)
        have hih := ih (m := { m with repairs := m.repairs + 1 })
          (hw.moves hv (turn_eq_ok.mp ht) rfl) htrim hm
        rcases hrest : walk sb v₀ n _ with e | ⟨w', more⟩
        · rw [hrest] at hih
          rw [hnext]
          exact hih
        rw [hrest] at hih
        obtain ⟨d', heval, htrim', hout, -⟩ := hih
        refine ⟨d', ?_, htrim'.congr fun c => ?_, fun b hb => ?_, fun hnil => by cases hnil⟩
        · rw [hnext, heval, length_cons, Nat.add_assoc, Nat.add_comm 1]
        · simp [or_left_comm]
        · rw [hout b hb, Disk.write_of_ne]
          rintro rfl
          exact hb hin
    · simp only [ht] at hround ⊢
      have hmoves := turn_eq_ok.mp ht
      have hih := ih (m := { m with bitmap := w₁.bm }) (hw.moves hv hmoves rfl)
        (h.next hw hv hmoves) rfl
      rw [hround]
      exact hih

/-! ## A second walk -/

/-- Entries still to be removed are in directories not met yet, or ahead of the search. -/
theorem walk_ahead (hv : v₀.Of sb) (hw : Walked sb v₀ w) (h : walk sb v₀ n w = .ok (w', cuts)) :
    ∀ c ∈ cuts, w.used c.1 = true → ∃ next, (c.1, next) ∈ w.stack ∧ next ≤ c.2 := by
  -- a frame of the advanced stack is one of the stack before, further on
  have hback : ∀ {w : Walker} {dino next i child dir rest}, Walked sb v₀ w →
      w.stack = (dino, next) :: rest → v₀.inode dino = .ok dir →
      (v₀.firstEntry dir fun i _ => decide (next ≤ i)) = .ok (some (i, child)) →
      ∀ c : Nat × Nat, (∃ n, (c.1, n) ∈ (dino, i + 1) :: rest ∧ n ≤ c.2) →
        ∃ n, (c.1, n) ∈ w.stack ∧ n ≤ c.2 := by
    intro w dino next i child dir rest hw hs hdir hfound c ⟨n, hn, hle⟩
    rw [hs]
    rcases mem_cons.mp hn with heq | hn
    · obtain ⟨hc, rfl⟩ := mk.inj heq
      have := (hw.found hs hdir hfound).1
      exact ⟨next, hc ▸ mem_cons_self, by omega⟩
    · exact ⟨n, mem_cons_of_mem _ hn, hle⟩
  refine walk_induction (P := fun _ w _ cuts => Walked sb v₀ w → ∀ c ∈ cuts, w.used c.1 = true →
    ∃ next, (c.1, next) ∈ w.stack ∧ next ≤ c.2) ?_ ?_ ?_ h hw
  · exact fun _ _ _ _ c hc => absurd hc not_mem_nil
  · intro n w w₁ w' cuts hm _ ih hw c hc hused
    have hnext := ih (hw.moves hv hm rfl) c hc ((hm.mono hv rfl).2 c.1 hused)
    cases hm with
    | pop hs =>
      obtain ⟨k, hk, hle⟩ := hnext
      exact ⟨k, hs ▸ mem_cons_of_mem _ hk, hle⟩
    | file hs hdir hfound => exact hback hw hs hdir hfound c hnext
    | dir hs hdir hfound _ hmark =>
      obtain ⟨k, hk, hle⟩ := hnext
      rcases mem_cons.mp hk with heq | hk
      · rw [(mk.inj heq).1, (markInode_ok.mp hmark).2.2.1] at hused
        cases hused
      · exact hback hw hs hdir hfound c ⟨k, hk, hle⟩
  · intro n w w₁ x i w' cuts hm _ ih hw c hc hused
    have hmono := (hm.mono hv rfl).2
    have hmoves := hw.moves hv hm rfl
    cases hm with
    | cut hs hdir hfound =>
      rcases mem_cons.mp hc with rfl | hc
      · exact ⟨_, hs ▸ mem_cons_self, (hw.found hs hdir hfound).1⟩
      · exact hback hw hs hdir hfound c (ih hmoves c hc (hmono c.1 hused))

/-- `v` reads as `v₀` without the entries `cuts` in the inodes `used`. -/
structure Swept (v₀ v : Image) (used : Nat → Bool) (cuts : List (Nat × Nat)) : Prop where
  inode : ∀ x, used x = true → v.inode x = v₀.inode x
  indirect : ∀ x dir, used x = true → v₀.inode x = .ok dir → Image.SameIndirect v v₀ dir
  slot : ∀ x dir j, used x = true → v₀.inode x = .ok dir →
    v.slotAt dir j = if (x, j) ∈ cuts then .ok none else v₀.slotAt dir j

theorem markRefs_congr {inode : Inode} (h : Image.SameIndirect v v₀ inode) (bm : Nat → Bool) :
    markRefs sb v bm inode = markRefs sb v₀ bm inode := by
  unfold markRefs
  by_cases hind : inode.indirect = 0
  · simp only [if_pos hind]
  · simp only [if_neg hind, h hind]

variable {used : Nat → Bool}

/-- A search from `next` on, when what it passes over may be gone. -/
theorem Swept.search {x next : Nat} {dir : Inode}
    (h : Swept v₀ v used cuts) (hx : used x = true) (hdir : v₀.inode x = .ok dir)
    (hread : ∀ j, j < next → ∃ o, v₀.slotAt dir j = .ok o) :
    (v.firstEntry dir fun i _ => decide (next ≤ i)) =
      Image.search (v.slotAt dir) (dir.size / direntSize - next) next := by
  refine v.firstEntry_from fun j hj => ?_
  rw [h.slot x dir j hx hdir]
  split
  · exact ⟨none, rfl⟩
  · exact hread j hj

theorem Swept.slot_none {x j : Nat} {dir : Inode} (h : Swept v₀ v used cuts)
    (hx : used x = true) (hdir : v₀.inode x = .ok dir) (hnone : v₀.slotAt dir j = .ok none) :
    v.slotAt dir j = .ok none := by
  rw [h.slot x dir j hx hdir, hnone, ite_self]

variable {rest : List (Nat × Nat)}

section
variable {dino next i child : Nat} {dir : Inode} (h : Swept v₀ v used cuts) (hw : Walked sb v₀ w)
  (hs : w.stack = (dino, next) :: rest) (hdino : used dino = true) (hdir : v₀.inode dino = .ok dir)
include h hw hs hdino hdir

/-- A round that removes an entry is none on the swept image: the search goes on. -/
theorem Swept.turn_skip
    (hfound : (v₀.firstEntry dir fun i _ => decide (next ≤ i)) = .ok (some (i, child)))
    (hcut : (dino, i) ∈ cuts) :
    turn sb v w = turn sb v { w with stack := (dino, i + 1) :: rest } := by
  obtain ⟨hle, hlt, -, hnone⟩ := hw.found hs hdir hfound
  have hskip : ∀ k, next ≤ k → k < i + 1 → v.slotAt dir k = .ok none := fun k hk hki => by
    rcases Nat.eq_or_lt_of_le (Nat.le_of_lt_succ hki) with rfl | hki
    · rw [h.slot dino dir k hdino hdir, if_pos hcut]
    · exact h.slot_none hdino hdir (hnone k hk hki)
  have hsearch : (v.firstEntry dir fun j _ => decide (next ≤ j)) =
      v.firstEntry dir fun j _ => decide (i + 1 ≤ j) := by
    rw [h.search hdino hdir (hw.readable hs hdir),
      h.search hdino hdir (hw.readable_succ hs hdir hfound),
      Image.search_skip (c := i + 1 - next) fun k hk hki _ => hskip k hk (by omega),
      Nat.sub_sub, Nat.add_sub_cancel' (by omega)]
  unfold turn
  rw [hs]
  dsimp only
  rw [h.inode dino hdino, hdir]
  dsimp only
  rw [hsearch]
  rfl

theorem Swept.found
    (hfound : (v₀.firstEntry dir fun i _ => decide (next ≤ i)) = .ok (some (i, child)))
    (hcut : (dino, i) ∉ cuts) :
    (v.firstEntry dir fun i _ => decide (next ≤ i)) = .ok (some (i, child)) := by
  obtain ⟨hle, hlt, ⟨e, he, rfl⟩, hnone⟩ := hw.found hs hdir hfound
  rw [h.search hdino hdir (hw.readable hs hdir)]
  refine Image.search_found hle (by omega) ?_ fun k hk hki => ?_
  · rw [h.slot dino dir i hdino hdir, if_neg hcut, he]
  · exact h.slot_none hdino hdir (hnone k hk hki)

theorem Swept.missing
    (hfound : (v₀.firstEntry dir fun i _ => decide (next ≤ i)) = .ok none) :
    (v.firstEntry dir fun i _ => decide (next ≤ i)) = .ok none := by
  rw [hw.firstEntry_eq hs hdir] at hfound
  rw [h.search hdino hdir (hw.readable hs hdir)]
  exact Image.search_missing fun k hk hk' =>
    h.slot_none hdino hdir (Image.search_none hfound k hk hk')

end

variable {all : List (Nat × Nat)}

/-- An entry the search has just passed is not removed later. -/
theorem stays {dino next i : Nat}
    (hs : w.stack = (dino, next) :: rest) (hi : next ≤ i) (hw' : Walked sb v₀ w')
    (hmem : (dino, i + 1) ∈ w'.stack) (hall : ∀ c ∈ all,
      Past v₀ w c ∨ (w'.used c.1 = true → ∃ next, (c.1, next) ∈ w'.stack ∧ next ≤ c.2)) :
    (dino, i) ∉ all := by
  intro hcut
  rcases hall _ hcut with hpast | hahead
  · have := hpast.behind next (hs ▸ mem_cons_self)
    omega
  obtain ⟨k, hk, hle⟩ := hahead (hw'.frames _ hmem).1
  have heq := inj_on_of_nodup_map hw'.distinct hk hmem rfl
  rw [mk.injEq] at heq
  have : k ≤ i := hle
  omega

theorem Swept.moves (h : Swept v₀ v used all)
    (hv : v₀.Of sb) (hw : Walked sb v₀ w) (hm : Moves sb v₀ w (.next w')) (hall : ∀ c ∈ all,
      Past v₀ w c ∨ (w'.used c.1 = true → ∃ next, (c.1, next) ∈ w'.stack ∧ next ≤ c.2))
    (hused : ∀ x, w'.used x = true → used x = true) : Moves sb v w (.next w') := by
  have hmono := (hm.mono hv rfl).2
  have hw' := hw.moves hv hm rfl
  have hframe : ∀ {dino next rest}, w.stack = (dino, next) :: rest → used dino = true :=
    fun hs => hused _ (hmono _ (hw.frames _ (hs ▸ mem_cons_self)).1)
  have hmarked : ∀ {child inode bm used'}, used child = true → v₀.inode child = .ok inode →
      markInode sb v₀ w.bm w.used child inode = .ok (bm, used') →
      markInode sb v w.bm w.used child inode = .ok (bm, used') := fun hchild hino hmark => by
    obtain ⟨hkind, hmax, hfresh, hrefs, hupd⟩ := markInode_ok.mp hmark
    refine markInode_ok.mpr ⟨hkind, hmax, hfresh, ?_, hupd⟩
    rw [markRefs_congr (h.indirect _ _ hchild hino)]
    exact hrefs
  cases hm with
  | pop hs hrest hdir hfound =>
    have hd := hframe hs
    exact .pop hs hrest ((h.inode _ hd).trans hdir) (h.missing hw hs hd hdir hfound)
  | file hs hdir hfound hino hmark hkind =>
    have hd := hframe hs
    have hstay := stays hs (hw.found hs hdir hfound).1 hw' mem_cons_self hall
    obtain ⟨-, -, -, -, rfl⟩ := markInode_ok.mp hmark
    have hc := hused _ (update_self ..)
    exact .file hs ((h.inode _ hd).trans hdir) (h.found hw hs hd hdir hfound hstay)
      ((h.inode _ hc).trans hino) (hmarked hc hino hmark) hkind
  | dir hs hdir hfound hino hmark hkind hdepth =>
    have hd := hframe hs
    have hstay := stays hs (hw.found hs hdir hfound).1 hw'
      (mem_cons_of_mem _ mem_cons_self) hall
    obtain ⟨-, -, -, -, rfl⟩ := markInode_ok.mp hmark
    have hc := hused _ (update_self ..)
    exact .dir hs ((h.inode _ hd).trans hdir) (h.found hw hs hd hdir hfound hstay)
      ((h.inode _ hc).trans hino) (hmarked hc hino hmark) hkind hdepth

/-- A walk on the swept image meets what the first one met and removes nothing. -/
theorem rewalk {more : List (Nat × Nat)} (hv : v₀.Of sb) (hw : Walked sb v₀ w)
    (h : walk sb v₀ n w = .ok (w', more)) (hall : ∀ c ∈ all, Past v₀ w c ∨ c ∈ more)
    (hmore : ∀ c ∈ more, c ∈ all) (hswept : Swept v₀ v w'.used all) :
    walk sb v n w = .ok (w', []) := by
  refine walk_induction (P := fun n w w' more => Walked sb v₀ w →
    (∀ c ∈ all, Past v₀ w c ∨ c ∈ more) → (∀ c ∈ more, c ∈ all) → Swept v₀ v w'.used all →
    walk sb v n w = .ok (w', [])) ?_ ?_ ?_ h hw hall hmore hswept
  · intro n w hm hw _ _ hswept
    have hstop : Moves sb v w .stop := by
      cases hm with
      | empty hs => exact .empty hs
      | last hs hdir hfound =>
        have hd := (hw.frames _ (hs ▸ mem_cons_self)).1
        exact .last hs ((hswept.inode _ hd).trans hdir) (hswept.missing hw hs hd hdir hfound)
    rw [walk, turn_of_moves hstop]
  · intro n w w₁ w' more hm hwalk ih hw hall hmore hswept
    have hw₁ := hw.moves hv hm rfl
    have hnext := hswept.moves hv hw hm
      (fun c hc => (hall c hc).imp_right fun hc' hused => walk_ahead hv hw₁ hwalk c hc' hused)
      (walk_used hv hwalk)
    rw [walk, turn_of_moves hnext]
    exact ih hw₁ (fun c hc => (hall c hc).imp_left fun hp => hp.moves hw hv hm rfl) hmore hswept
  · intro n w w₁ x i w' more hm hwalk ih hw hall hmore hswept
    have hw₁ := hw.moves hv hm rfl
    have hpast : ∀ c, Past v₀ w c → Past v₀ w₁ c := fun c hp => hp.moves hw hv hm rfl
    cases hm with
    | cut hs hdir hfound =>
      have hrest := ih hw₁ (fun c hc => ?_) (fun c hc => hmore c (mem_cons_of_mem _ hc)) hswept
      · have hd := walk_used hv hwalk _ (hw.frames _ (hs ▸ mem_cons_self)).1
        have hskip := hswept.turn_skip hw hs hd hdir hfound (hmore _ mem_cons_self)
        rcases n with _ | n
        · cases hrest
        have hsame : walk sb v (n + 1) w = .ok (w', []) := by
          rw [walk] at hrest ⊢
          rw [hskip]
          exact hrest
        exact walk_mono (k := 1) hsame
      · rcases hall c hc with hp | hp
        · exact .inl (hpast c hp)
        · rcases mem_cons.mp hp with rfl | hp
          · exact .inl (Past.of_found hw hs hdir hfound)
          · exact .inr hp

end

end NexoOS.Nexofs
