import NexoOS.Nexofs.Refs

/-!
# The recovery walk on a fixed image

`checkLoop` removes entries while it walks. `walk` makes the same rounds on an image
that does not change and lists the entries to remove. Here: one round and what it can
do (`Moves`), that the rounds come to an end, and what holds of the inodes met
(`Walked`). That the loop on the disk is this walk is in `Nexofs.Sweep`.
-/

namespace NexoOS.Nexofs

open Function List

/-- The state of the walk: blocks marked, inodes met, and the stack of directories with
the slot the next search of each starts at. -/
structure Walker where
  bm : Nat → Bool
  used : Nat → Bool
  stack : List (Nat × Nat)

/-- The outcome of a round: the walk is over, an entry is to be removed, or neither. -/
inductive Turn where
  | stop
  | cut (dino slot : Nat) (w : Walker)
  | next (w : Walker)

section
variable (sb : Superblock) (v : Image)

/-- A round that met the entry of `child` in slot `i` of `dino`. -/
def enter (w : Walker) (dino i child : Nat) (rest : List (Nat × Nat)) : Except FsError Turn :=
  match v.inode child with
  | .error e => .error e
  | .ok inode =>
    if inode.kind ≠ 0 ∧ maxInodes ≤ child then .error .panic
    else if inode.kind ≠ 0 ∧ w.used child = true then
      .ok (.cut dino i { w with stack := (dino, i + 1) :: rest })
    else
      match markInode sb v w.bm w.used child inode with
      | .error e => .error e
      | .ok (bm, used) =>
        if inode.kindOf = some .dir then
          if maxDepth ≤ rest.length + 1 then .error (.corrupted "diretorios profundos demais")
          else .ok (.next ⟨bm, used, (child, 0) :: (dino, i + 1) :: rest⟩)
        else .ok (.next ⟨bm, used, (dino, i + 1) :: rest⟩)

def turn (w : Walker) : Except FsError Turn :=
  match w.stack with
  | [] => .ok .stop
  | (dino, next) :: rest =>
    match v.inode dino with
    | .error e => .error e
    | .ok dir =>
      match v.firstEntry dir fun i _ => next ≤ i with
      | .error e => .error e
      | .ok none => .ok (if rest = [] then .stop else .next { w with stack := rest })
      | .ok (some (i, child)) => enter sb v w dino i child rest

/-- The rounds, at most `n` of them: the state at the end and the entries to remove. -/
def walk : Nat → Walker → Except FsError (Walker × List (Nat × Nat))
  | 0, _ => .error .unending
  | n + 1, w =>
    match turn sb v w with
    | .error e => .error e
    | .ok .stop => .ok ({ w with stack := [] }, [])
    | .ok (.next w') => walk n w'
    | .ok (.cut x i w') => (walk n w').map fun r => (r.1, (x, i) :: r.2)

/-! ## What a round can do -/

/-- The rounds that do not fail. -/
inductive Moves (w : Walker) : Turn → Prop where
  | empty (hs : w.stack = []) : Moves w .stop
  | last {dino next : Nat} {dir : Inode} (hs : w.stack = [(dino, next)])
      (hdir : v.inode dino = .ok dir)
      (hfound : (v.firstEntry dir fun i _ => next ≤ i) = .ok none) : Moves w .stop
  | pop {dino next : Nat} {dir : Inode} {rest : List (Nat × Nat)}
      (hs : w.stack = (dino, next) :: rest) (hrest : rest ≠ []) (hdir : v.inode dino = .ok dir)
      (hfound : (v.firstEntry dir fun i _ => next ≤ i) = .ok none) :
      Moves w (.next { w with stack := rest })
  | cut {dino next i child : Nat} {dir inode : Inode} {rest : List (Nat × Nat)}
      (hs : w.stack = (dino, next) :: rest) (hdir : v.inode dino = .ok dir)
      (hfound : (v.firstEntry dir fun i _ => next ≤ i) = .ok (some (i, child)))
      (hino : v.inode child = .ok inode) (hkind : inode.kind ≠ 0) (hmax : child < maxInodes)
      (hused : w.used child = true) :
      Moves w (.cut dino i { w with stack := (dino, i + 1) :: rest })
  | file {dino next i child : Nat} {dir inode : Inode} {rest : List (Nat × Nat)}
      {bm used : Nat → Bool} (hs : w.stack = (dino, next) :: rest) (hdir : v.inode dino = .ok dir)
      (hfound : (v.firstEntry dir fun i _ => next ≤ i) = .ok (some (i, child)))
      (hino : v.inode child = .ok inode)
      (hmark : markInode sb v w.bm w.used child inode = .ok (bm, used))
      (hkind : inode.kindOf ≠ some .dir) :
      Moves w (.next ⟨bm, used, (dino, i + 1) :: rest⟩)
  | dir {dino next i child : Nat} {dir inode : Inode} {rest : List (Nat × Nat)}
      {bm used : Nat → Bool} (hs : w.stack = (dino, next) :: rest) (hdir : v.inode dino = .ok dir)
      (hfound : (v.firstEntry dir fun i _ => next ≤ i) = .ok (some (i, child)))
      (hino : v.inode child = .ok inode)
      (hmark : markInode sb v w.bm w.used child inode = .ok (bm, used))
      (hkind : inode.kindOf = some .dir) (hdepth : rest.length + 1 < maxDepth) :
      Moves w (.next ⟨bm, used, (child, 0) :: (dino, i + 1) :: rest⟩)

end

section
variable {sb : Superblock} {v : Image} {w w' : Walker} {t : Turn}

theorem markInode_ok {bm bm' used used' : Nat → Bool} {ino : Nat} {inode : Inode} :
    markInode sb v bm used ino inode = .ok (bm', used') ↔
      inode.kind ≠ 0 ∧ ino < maxInodes ∧ used ino = false ∧ markRefs sb v bm inode = .ok bm' ∧
        used' = update used ino true := by
  unfold markInode
  by_cases hkind : inode.kind = 0
  · simp [hkind]
  by_cases hmax : maxInodes ≤ ino
  · simp [hkind, hmax, not_lt.mpr hmax]
  cases hused : used ino with
  | true => simp [hkind, hmax]
  | false =>
    cases hm : markRefs sb v bm inode with
    | error e => simp [hkind, hmax]
    | ok bm₁ => simp [hkind, hmax, Nat.lt_of_not_le hmax, eq_comm]

theorem moves_of_enter {dino next i child : Nat} {dir : Inode} {rest : List (Nat × Nat)}
    (hs : w.stack = (dino, next) :: rest) (hdir : v.inode dino = .ok dir)
    (hfound : (v.firstEntry dir fun i _ => next ≤ i) = .ok (some (i, child)))
    (h : enter sb v w dino i child rest = .ok t) : Moves sb v w t := by
  unfold enter at h
  split at h
  · cases h
  rename_i inode hino
  split at h
  · cases h
  rename_i hpanic
  split at h
  · rename_i hcut
    cases h
    have hmax : child < maxInodes := by
      by_contra hge
      exact hpanic ⟨hcut.1, Nat.le_of_not_lt hge⟩
    exact .cut hs hdir hfound hino hcut.1 hmax hcut.2
  split at h
  · cases h
  rename_i bm used hmark
  split at h
  · rename_i hkind
    split at h
    · cases h
    · cases h
      exact .dir hs hdir hfound hino hmark hkind (by omega)
  · cases h
    exact .file hs hdir hfound hino hmark (by assumption)

theorem moves_of_turn (h : turn sb v w = .ok t) : Moves sb v w t := by
  unfold turn at h
  split at h
  · cases h
    exact .empty ‹_›
  rename_i dino next rest hs
  split at h
  · cases h
  rename_i dir hdir
  split at h
  · cases h
  · rename_i hfound
    cases h
    by_cases hrest : rest = []
    · subst hrest
      exact .last hs hdir hfound
    · rw [if_neg hrest]
      exact .pop hs hrest hdir hfound
  · exact moves_of_enter hs hdir ‹_› h

theorem turn_of_moves (h : Moves sb v w t) : turn sb v w = .ok t := by
  unfold turn
  cases h with
  | empty hs => rw [hs]
  | last hs hdir hfound => simp only [hs, hdir, hfound, if_true]
  | pop hs hrest hdir hfound => simp only [hs, hdir, hfound, if_neg hrest]
  | cut hs hdir hfound hino hkind hmax hused =>
    simp only [hs, hdir, hfound, enter, hino]
    rw [if_neg fun h => absurd h.2 (not_le.mpr hmax), if_pos ⟨hkind, hused⟩]
  | file hs hdir hfound hino hmark hkind =>
    obtain ⟨hk, hmax, hused, -, -⟩ := markInode_ok.mp hmark
    simp only [hs, hdir, hfound, enter, hino]
    rw [if_neg fun h => absurd h.2 (not_le.mpr hmax), if_neg (by simp [hused])]
    simp only [hmark, if_neg hkind]
  | dir hs hdir hfound hino hmark hkind hdepth =>
    obtain ⟨hk, hmax, hused, -, -⟩ := markInode_ok.mp hmark
    simp only [hs, hdir, hfound, enter, hino]
    rw [if_neg fun h => absurd h.2 (not_le.mpr hmax), if_neg (by simp [hused])]
    simp only [hmark, if_pos hkind, if_neg (not_le.mpr hdepth)]

theorem turn_eq_ok : turn sb v w = .ok t ↔ Moves sb v w t := ⟨moves_of_turn, turn_of_moves⟩

end

/-! ## What holds during the walk -/

/-- The inodes met refer to blocks of the data area, marked and no two the same; each
directory on the stack was met and its slots before the next one were read. -/
structure Walked (sb : Superblock) (v : Image) (w : Walker) : Prop where
  known : ∀ x, w.used x = true → x < maxInodes ∧ ∃ i, v.inode x = .ok i ∧ i.kind ≠ 0
  refs : ∀ x i, w.used x = true → v.inode x = .ok i →
    (v.refs i).Nodup ∧ ∀ b ∈ v.refs i, InData sb b ∧ w.bm b = true
  apart : ∀ x y i j, w.used x = true → w.used y = true → x ≠ y → v.inode x = .ok i →
    v.inode y = .ok j → ∀ b ∈ v.refs i, b ∉ v.refs j
  inside : ∀ b, w.bm b = true → b < sb.totalBlocks
  frames : ∀ f ∈ w.stack, w.used f.1 = true ∧ ∀ dir, v.inode f.1 = .ok dir →
    f.2 ≤ dir.size / direntSize ∧ ∀ j, j < f.2 → ∃ o, v.slotAt dir j = .ok o
  distinct : (w.stack.map Prod.fst).Nodup

namespace Walked

section
variable {sb : Superblock} {v : Image} {w w' : Walker} {dino next i child : Nat}
  {dir inode : Inode} {rest : List (Nat × Nat)} {bm used : Nat → Bool}

section
variable (h : Walked sb v w)
include h

section
variable (hs : w.stack = (dino, next) :: rest)
include hs

theorem readable (hdir : v.inode dino = .ok dir) : ∀ j, j < next → ∃ o, v.slotAt dir j = .ok o :=
  ((h.frames (dino, next) (hs ▸ mem_cons_self)).2 dir hdir).2

/-- The search of a round goes through the slots from the next one on. -/
theorem firstEntry_eq (hdir : v.inode dino = .ok dir) :
    (v.firstEntry dir fun i _ => decide (next ≤ i)) =
      Image.search (v.slotAt dir) (dir.size / direntSize - next) next :=
  v.firstEntry_from (h.readable hs hdir)

theorem pop : Walked sb v { w with stack := rest } where
  __ := h
  frames f hf := h.frames f (hs ▸ mem_cons_of_mem _ hf)
  distinct := by
    have := h.distinct
    rw [hs, map_cons] at this
    exact (nodup_cons.mp this).2

section
variable (hdir : v.inode dino = .ok dir)
  (hfound : (v.firstEntry dir fun i _ => decide (next ≤ i)) = .ok (some (i, child)))
include hdir hfound

theorem found :
    next ≤ i ∧ i < dir.size / direntSize ∧ (∃ e, v.slotAt dir i = .ok (some e) ∧ e.ino = child) ∧
      ∀ k, next ≤ k → k < i → v.slotAt dir k = .ok none := by
  rw [h.firstEntry_eq hs hdir] at hfound
  obtain ⟨hle, hlt, he, hnone⟩ := Image.search_some hfound
  exact ⟨hle, by omega, he, hnone⟩

theorem readable_succ : ∀ j, j < i + 1 → ∃ o, v.slotAt dir j = .ok o := by
  intro j hj
  obtain ⟨-, -, ⟨e, he, -⟩, hnone⟩ := h.found hs hdir hfound
  by_cases hlt : j < next
  · exact h.readable hs hdir j hlt
  rcases Nat.eq_or_lt_of_le (Nat.le_of_lt_succ hj) with rfl | hji
  · exact ⟨_, he⟩
  · exact ⟨_, hnone j (by omega) hji⟩

theorem advance : Walked sb v { w with stack := (dino, i + 1) :: rest } where
  __ := h
  frames f hf := by
    rcases mem_cons.mp hf with rfl | hf
    · refine ⟨(h.frames (dino, next) (hs ▸ mem_cons_self)).1, fun dir' hdir' => ?_⟩
      obtain rfl : dir = dir' := Except.ok.inj (hdir.symm.trans hdir')
      exact ⟨(h.found hs hdir hfound).2.1, h.readable_succ hs hdir hfound⟩
    · exact h.frames f (hs ▸ mem_cons_of_mem _ hf)
  distinct := by
    have := h.distinct
    rwa [hs] at this

end

end

theorem mark (hv : v.Of sb) (hino : v.inode child = .ok inode)
    (hmark : markInode sb v w.bm w.used child inode = .ok (bm, used)) :
    Walked sb v ⟨bm, used, w.stack⟩ := by
  obtain ⟨hkind, hmax, hfresh, hrefs, rfl⟩ := markInode_ok.mp hmark
  obtain ⟨hall, hnodup, rfl⟩ := markBlocks_ok.mp ((markRefs_ok hv).mp hrefs)
  have hold : ∀ x, update w.used child true x = true → x ≠ child → w.used x = true :=
    fun x hx hne => by rwa [update_of_ne hne] at hx
  refine ⟨fun x hx => ?_, fun x i hx hi => ?_, fun x y i j hx hy hxy hi hj b hbi hbj => ?_,
    fun b hb => ?_, fun f hf => ?_, h.distinct⟩
  · by_cases hxc : x = child
    · exact hxc ▸ ⟨hmax, inode, hino, hkind⟩
    · exact h.known x (hold x hx hxc)
  · by_cases hxc : x = child
    · obtain rfl : inode = i := Except.ok.inj (hino.symm.trans (hxc ▸ hi))
      exact ⟨hnodup, fun b hb => ⟨(hall b hb).1, by simp [hb]⟩⟩
    · obtain ⟨hnd, hin⟩ := h.refs x i (hold x hx hxc) hi
      exact ⟨hnd, fun b hb => ⟨(hin b hb).1, by simp [(hin b hb).2]⟩⟩
  · -- a block of the new inode was not marked, one of an inode met before was
    have hne : ∀ z k, w.used z = true → v.inode z = .ok k → b ∈ v.refs k → b ∉ v.refs inode :=
      fun z k hz hk hbk hbn => by
        have := ((h.refs z k hz hk).2 b hbk).2
        rw [(hall b hbn).2] at this
        cases this
    by_cases hxc : x = child
    · obtain rfl : inode = i := Except.ok.inj (hino.symm.trans (hxc ▸ hi))
      exact hne y j (hold y hy fun hyc => hxy (hxc.trans hyc.symm)) hj hbj hbi
    by_cases hyc : y = child
    · obtain rfl : inode = j := Except.ok.inj (hino.symm.trans (hyc ▸ hj))
      exact hne x i (hold x hx hxc) hi hbi hbj
    · exact h.apart x y i j (hold x hx hxc) (hold y hy hyc) hxy hi hj b hbi hbj
  · rcases (Bool.or_eq_true _ _).mp hb with hb | hb
    · exact h.inside b hb
    · exact (hall b (of_decide_eq_true hb)).1.2
  · refine ⟨?_, (h.frames f hf).2⟩
    change update w.used child true f.1 = true
    by_cases hfc : f.1 = child
    · rw [hfc, update_self]
    · rw [update_of_ne hfc]
      exact (h.frames f hf).1

theorem push (hused : w.used child = true) (hnot : child ∉ w.stack.map Prod.fst) :
    Walked sb v { w with stack := (child, 0) :: w.stack } where
  __ := h
  frames f hf := by
    rcases mem_cons.mp hf with rfl | hf
    · exact ⟨hused, fun dir _ => ⟨Nat.zero_le _, fun j hj => absurd hj (Nat.not_lt_zero j)⟩⟩
    · exact h.frames f hf
  distinct := by
    rw [map_cons]
    exact nodup_cons.mpr ⟨hnot, h.distinct⟩

theorem fresh (hused : w.used child = false) : child ∉ w.stack.map Prod.fst := by
  intro hmem
  obtain ⟨f, hf, rfl⟩ := mem_map.mp hmem
  rw [(h.frames f hf).1] at hused
  cases hused

/-- The state after a file or a directory was met, before anything is pushed. -/
theorem meet (hv : v.Of sb) (hs : w.stack = (dino, next) :: rest) (hdir : v.inode dino = .ok dir)
    (hfound : (v.firstEntry dir fun i _ => decide (next ≤ i)) = .ok (some (i, child)))
    (hino : v.inode child = .ok inode)
    (hmark : markInode sb v w.bm w.used child inode = .ok (bm, used)) :
    Walked sb v ⟨bm, used, (dino, i + 1) :: rest⟩ :=
  (h.advance hs hdir hfound).mark hv hino hmark

end

end

end Walked

/-- The state after a round that does not end the walk. -/
def Turn.after : Turn → Option Walker
  | .stop => none
  | .cut _ _ w => some w
  | .next w => some w

section
variable {sb : Superblock} {v : Image} {w w' : Walker} {t : Turn}

theorem Walked.moves (h : Walked sb v w) (hv : v.Of sb) (hm : Moves sb v w t)
    (ht : t.after = some w') : Walked sb v w' := by
  cases hm with
  | empty | last => cases ht
  | pop hs _ _ _ =>
    cases ht
    exact h.pop hs
  | cut hs hdir hfound =>
    cases ht
    exact h.advance hs hdir hfound
  | file hs hdir hfound hino hmark =>
    cases ht
    exact h.meet hv hs hdir hfound hino hmark
  | dir hs hdir hfound hino hmark =>
    cases ht
    have hadv := h.advance hs hdir hfound
    obtain ⟨-, -, hfresh, -, rfl⟩ := markInode_ok.mp hmark
    exact (h.meet hv hs hdir hfound hino hmark).push (update_self ..) (hadv.fresh hfresh)

/-! ## The walk comes to an end -/

/-- Inodes of the volume not met yet. -/
def unmet (sb : Superblock) (used : Nat → Bool) : Nat :=
  ((List.range sb.inodeCount).filter fun x => !used x).length

/-- Rounds the walk may still take. -/
def Walker.rounds (sb : Superblock) (w : Walker) : Nat :=
  (maxSlots + 2) * unmet sb w.used + (w.stack.map fun f => maxSlots + 1 - f.2).sum

theorem unmet_mark {bm used : Nat → Bool} {ino : Nat} {inode : Inode}
    (hv : v.Of sb) (hino : v.inode ino = .ok inode)
    (hmark : markInode sb v w.bm w.used ino inode = .ok (bm, used)) :
    unmet sb used + 1 ≤ unmet sb w.used := by
  obtain ⟨-, -, hfresh, -, rfl⟩ := markInode_ok.mp hmark
  have hmem : ino ∈ (List.range sb.inodeCount).filter fun x => !w.used x :=
    mem_filter.mpr ⟨mem_range.mpr (hv.inode ino inode hino).2, by simp [hfresh]⟩
  have hsub : (List.range sb.inodeCount).filter (fun x => !update w.used ino true x) =
      ((List.range sb.inodeCount).filter fun x => !w.used x).erase ino := by
    have hnodup := (nodup_range (n := sb.inodeCount)).filter fun x => !w.used x
    rw [hnodup.erase_eq_filter, filter_filter]
    refine filter_congr fun x _ => ?_
    by_cases hx : x = ino
    · simp [hx]
    · simp [hx]
  unfold unmet
  rw [hsub, length_erase_of_mem hmem]
  have := length_pos_of_mem hmem
  omega

theorem Walked.next_le (h : Walked sb v w) {dino next : Nat} {rest : List (Nat × Nat)} {dir : Inode}
    (hs : w.stack = (dino, next) :: rest) (hdir : v.inode dino = .ok dir) : next ≤ maxSlots := by
  cases next with
  | zero => exact Nat.zero_le _
  | succ next =>
    obtain ⟨o, ho⟩ := h.readable hs hdir next (Nat.lt_succ_self next)
    exact v.slotAt_lt ho

theorem Walked.rounds_lt (h : Walked sb v w) (hv : v.Of sb) (hm : Moves sb v w t)
    (ht : t.after = some w') : w'.rounds sb < w.rounds sb := by
  have hsum : ∀ {dino next rest}, w.stack = (dino, next) :: rest →
      (w.stack.map fun f => maxSlots + 1 - f.2).sum =
        maxSlots + 1 - next + (rest.map fun f => maxSlots + 1 - f.2).sum := fun hs => by
    rw [hs, map_cons, sum_cons]
  have hslot : ∀ {dino next i child dir rest}, w.stack = (dino, next) :: rest →
      v.inode dino = .ok dir →
      (v.firstEntry dir fun i _ => decide (next ≤ i)) = .ok (some (i, child)) →
      maxSlots + 1 - (i + 1) < maxSlots + 1 - next := fun hs hdir hfound => by
    obtain ⟨hle, -, ⟨e, he, -⟩, -⟩ := h.found hs hdir hfound
    have hlt := v.slotAt_lt he
    unfold maxSlots
    omega
  cases hm with
  | empty | last => cases ht
  | pop hs _ hdir _ =>
    cases ht
    have hnext := h.next_le hs hdir
    unfold Walker.rounds
    rw [hsum hs]
    dsimp only
    omega
  | cut hs hdir hfound =>
    cases ht
    have hlt := hslot hs hdir hfound
    unfold Walker.rounds
    rw [hsum hs, map_cons, sum_cons]
    dsimp only
    omega
  | file hs hdir hfound hino hmark =>
    cases ht
    have hlt := hslot hs hdir hfound
    have hmul := Nat.mul_le_mul_left (maxSlots + 2)
      (Nat.le_of_succ_le (unmet_mark hv hino hmark))
    unfold Walker.rounds
    rw [hsum hs, map_cons, sum_cons]
    dsimp only
    omega
  | dir hs hdir hfound hino hmark =>
    cases ht
    have hlt := hslot hs hdir hfound
    have hmul := Nat.mul_le_mul_left (maxSlots + 2) (unmet_mark hv hino hmark)
    rw [mul_add, mul_one] at hmul
    unfold Walker.rounds
    rw [hsum hs, map_cons, sum_cons, map_cons, sum_cons]
    dsimp only
    omega

variable {n : Nat} {cuts : List (Nat × Nat)}

/-- With enough rounds the walk does not run out of them. -/
theorem walk_ne_unending (h : Walked sb v w) (hv : v.Of sb)
    (hturn : ∀ w, turn sb v w ≠ .error .unending) (hn : w.rounds sb < n) :
    walk sb v n w ≠ .error .unending := by
  induction n generalizing w with
  | zero => exact absurd hn (Nat.not_lt_zero _)
  | succ n ih =>
    rw [walk]
    rcases ht : turn sb v w with e | t
    · intro he
      exact hturn w (ht.trans (congrArg _ (Except.error.inj he)))
    have hm := turn_eq_ok.mp ht
    have hnext : ∀ w', t.after = some w' → walk sb v n w' ≠ .error .unending := fun w' hw' =>
      ih (h.moves hv hm hw') (by have := h.rounds_lt hv hm hw'; omega)
    cases t with
    | stop => exact nofun
    | next w' => exact hnext w' rfl
    | cut x i w' =>
      intro he
      apply hnext w' rfl
      dsimp only at he
      cases hr : walk sb v n w' with
      | error e =>
        rw [hr] at he
        exact congrArg _ (Except.error.inj he)
      | ok r =>
        rw [hr] at he
        cases he

theorem walk_mono {k : Nat} {r : Walker × List (Nat × Nat)} (h : walk sb v n w = .ok r) :
    walk sb v (n + k) w = .ok r := by
  induction n generalizing w r with
  | zero => cases h
  | succ n ih =>
    rw [add_right_comm]
    rw [walk] at h ⊢
    split at h
    · cases h
    · exact h
    · exact ih h
    · rename_i w' _
      cases hr : walk sb v n w' with
      | error e =>
        rw [hr] at h
        cases h
      | ok r' => rwa [ih hr, ← hr]

/-! ## The end of the walk -/

/-- An induction over the rounds of a walk that succeeds. -/
theorem walk_induction {P : Nat → Walker → Walker → List (Nat × Nat) → Prop}
    (stop : ∀ n w, Moves sb v w .stop → P (n + 1) w { w with stack := [] } [])
    (next : ∀ n w w₁ w' cuts, Moves sb v w (.next w₁) → walk sb v n w₁ = .ok (w', cuts) →
      P n w₁ w' cuts → P (n + 1) w w' cuts)
    (cut : ∀ n w w₁ x i w' cuts, Moves sb v w (.cut x i w₁) → walk sb v n w₁ = .ok (w', cuts) →
      P n w₁ w' cuts → P (n + 1) w w' ((x, i) :: cuts)) {w w' : Walker}
    (h : walk sb v n w = .ok (w', cuts)) : P n w w' cuts := by
  induction n generalizing w w' cuts with
  | zero => cases h
  | succ n ih =>
    rw [walk] at h
    split at h
    · cases h
    · cases h
      exact stop n w (turn_eq_ok.mp ‹_›)
    · rename_i w₁ ht
      exact next n w w₁ w' cuts (turn_eq_ok.mp ht) h (ih h)
    · rename_i x i w₁ ht
      rcases hr : walk sb v n w₁ with e | ⟨w'', more⟩
      · rw [hr] at h
        cases h
      rw [hr] at h
      cases h
      exact cut n w w₁ x i w'' more (turn_eq_ok.mp ht) hr (ih hr)

theorem Walked.nil (h : Walked sb v w) : Walked sb v { w with stack := [] } where
  __ := h
  frames _ hf := nomatch hf
  distinct := nodup_nil

theorem Walked.walk (hv : v.Of sb) (h : Walked sb v w) (hw : walk sb v n w = .ok (w', cuts)) :
    Walked sb v w' := by
  refine walk_induction (P := fun _ w w' _ => Walked sb v w → Walked sb v w')
    ?_ ?_ ?_ hw h
  · exact fun _ w _ h => h.nil
  · exact fun _ w w₁ w' cuts hm _ ih h => ih (h.moves hv hm rfl)
  · exact fun _ w w₁ x i w' cuts hm _ ih h => ih (h.moves hv hm rfl)

theorem Moves.mono (hv : v.Of sb) (hm : Moves sb v w t) (ht : t.after = some w') :
    (∀ b, w.bm b = true → w'.bm b = true) ∧ ∀ x, w.used x = true → w'.used x = true := by
  have hmark : ∀ {ino inode bm used}, markInode sb v w.bm w.used ino inode = .ok (bm, used) →
      (∀ b, w.bm b = true → bm b = true) ∧ ∀ x, w.used x = true → used x = true := by
    intro ino inode bm used hmark
    obtain ⟨-, -, -, hrefs, rfl⟩ := markInode_ok.mp hmark
    obtain ⟨-, -, rfl⟩ := markBlocks_ok.mp ((markRefs_ok hv).mp hrefs)
    refine ⟨fun b hb => by simp [hb], fun x hx => ?_⟩
    by_cases hxc : x = ino
    · rw [hxc, update_self]
    · rwa [update_of_ne hxc]
  cases hm with
  | empty | last => cases ht
  | pop | cut =>
    cases ht
    exact ⟨fun _ => id, fun _ => id⟩
  | file _ _ _ _ hm | dir _ _ _ _ hm =>
    cases ht
    exact hmark hm

theorem walk_used (hv : v.Of sb) (hw : walk sb v n w = .ok (w', cuts)) :
    ∀ x, w.used x = true → w'.used x = true := by
  refine walk_induction (P := fun _ w w' _ => ∀ x, w.used x = true → w'.used x = true) ?_ ?_ ?_ hw
  · exact fun _ _ _ _ => id
  · exact fun _ w w₁ w' cuts hm _ ih x hx => ih x ((hm.mono hv rfl).2 x hx)
  · exact fun _ w w₁ x i w' cuts hm _ ih x hx => ih x ((hm.mono hv rfl).2 x hx)

end

end NexoOS.Nexofs
