import NexoOS.Nexofs.Recovery

/-!
# Mounting

`mount` of any image comes to an end; where it succeeds, a second `mount` of what
it left repairs nothing and `verifica` finds no fault.
-/

namespace NexoOS.Nexofs

open Superblock (decode divCeil)
open Prog Disk

section
variable {sb : Superblock} {d : Disk Block}

/-! ## Mounting -/

theorem eval_mount (blocks : Nat) (m : Mem) (d : Disk Block) : (mount blocks).eval m d =
    if blocks = 0 then (.error .io, m, d) else match decode (d 0) with
      | .error e => (.error e, m, d)
      | .ok sb =>
        if blocks < sb.totalBlocks then (.error (.corrupted "volume maior que o dispositivo"), m, d)
        else match (check sb).eval { bitmap := fun _ => false, repairs := 0 } d with
          | (.error e, m, d) => (.error e, m, d)
          | (.ok _, m, d) => (.ok sb, m, d) := by
  unfold mount
  split
  · rfl
  simp only [Prog.eval_bind, Prog.eval_reading]
  rcases decode (d 0) with e | sb
  · rfl
  dsimp only
  split
  · rfl
  simp only [Prog.eval_bind, Prog.eval_stateful, Prog.eval_pure]
  rcases (check sb).eval { bitmap := fun _ => false, repairs := 0 } d with ⟨_ | _, m', d'⟩ <;>
    rfl

variable {blocks inodeCount : Nat}

/-- A disk on which `check` has nothing to do mounts as it is. -/
theorem Settled.mount {w : Walker} (h : Settled sb d w) (hd : decode (d 0) = .ok sb)
    (hblocks : sb.totalBlocks ≤ blocks) (m : Mem) :
    (mount blocks).eval m d = (.ok sb, { bitmap := w.bm, repairs := 0 }, d) := by
  have g := decode_geometry hd
  have hpos := g.total_ge
  rw [eval_mount, if_neg (by omega), hd]
  dsimp only
  rw [if_neg (by omega), h.check g]

/-! ## Mounting twice -/

theorem freeOrphans_ends {used : Nat → Bool} (blks : List Nat) (m : Mem) (d : Disk Block) :
    ((freeOrphans sb used blks).eval m d).1 ≠ .error .unending := by
  induction blks generalizing m d with
  | nil => exact nofun
  | cons blk blks ih =>
    rw [eval_freeOrphans_cons]
    split
    · exact nofun
    split
    · exact ih m d
    · exact ih _ _

theorem check_ends (g : sb.Geometry) (m : Mem) (d : Disk Block) :
    ((check sb).eval m d).1 ≠ .error .unending := by
  have hcheck := check_walk g m d
  rcases hwalk : rootWalk sb (image sb d) with e | ⟨w, cuts⟩
  · rw [hwalk] at hcheck
    have hne := rootWalk_ne_unending g (image_of sb d) (image_ends sb d)
    rw [hcheck]
    exact pass_ne hne hwalk
  · rw [hwalk] at hcheck
    obtain ⟨d₁, heval, -⟩ := hcheck
    rw [heval, Prog.eval_bind]
    have hfree : ((freeOrphans sb w.used (List.range sb.inodeBlocks)).eval
        { bitmap := w.bm, repairs := m.repairs + cuts.length } d₁).1 ≠ .error .unending :=
      freeOrphans_ends _ _ _
    split
    · rename_i heq
      rw [heq] at hfree
      exact hfree
    · rw [eval_mendBitmap]
      split <;> exact nofun

theorem freeOrphans_returns (hcount : sb.inodeCount ≤ maxInodes) (used : Nat → Bool) (blks : List Nat)
    (m : Mem) (d : Disk Block) : ∃ m' d', (freeOrphans sb used blks).eval m d = (.ok (), m', d') ∧
      m.repairs ≤ m'.repairs := by
  induction blks generalizing m d with
  | nil => exact ⟨m, d, rfl, le_rfl⟩
  | cons blk blks ih =>
    have hpast : pastArray sb d blk = false := pastArray_eq_false.2 fun _ _ hbig hlt => by omega
    rw [eval_freeOrphans_cons, hpast]
    split
    · exact absurd ‹_› Bool.false_ne_true
    split
    · exact ih m d
    · obtain ⟨m', d', h, hle⟩ := ih { m with repairs := m.repairs +
        ((inodesOf blk).filter (orphan sb d used)).length } _
      exact ⟨m', d', h, Nat.le_trans (Nat.le_add_right _ _) hle⟩

/-- A volume whose tree can be walked mounts; every second name is a repair. -/
theorem mount_of_walk {w : Walker} {cuts : List (Nat × Nat)} (hd : decode (d 0) = .ok sb)
    (hblocks : sb.totalBlocks ≤ blocks) (hcount : sb.inodeCount ≤ maxInodes)
    (hwalk : rootWalk sb (image sb d) = .ok (w, cuts)) (m : Mem) :
    ∃ m' d', (mount blocks).eval m d = (.ok sb, m', d') ∧ cuts.length ≤ m'.repairs := by
  have g := decode_geometry hd
  have hpos := g.total_ge
  have hcheck := check_walk g { bitmap := fun _ => false, repairs := 0 } d
  rw [hwalk] at hcheck
  obtain ⟨d₁, heval, -⟩ := hcheck
  obtain ⟨m₂, d₂, hfree, hle⟩ := freeOrphans_returns hcount w.used (List.range sb.inodeBlocks)
    { bitmap := w.bm, repairs := 0 + cuts.length } d₁
  rw [eval_mount, if_neg (by omega), hd]
  dsimp only
  rw [if_neg (by omega), heval, eval_bind, hfree]
  dsimp only
  rw [eval_mendBitmap]
  rw [Nat.zero_add] at hle
  by_cases hsame : ∀ b < maxBlocks, readBitmap sb d b = m₂.bitmap b
  · rw [if_pos hsame]
    exact ⟨_, _, rfl, hle⟩
  · rw [if_neg hsame]
    exact ⟨_, _, rfl, Nat.le_succ_of_le hle⟩

/-- Recovery converges: `mount` comes to an end on every image, and where it succeeds a
second `mount` of the disk it left succeeds, repairs nothing and changes nothing, and
`verifica` finds that disk intact. -/
theorem mount_converges (blocks : Nat) (m : Mem) (d : Disk Block) :
    ((mount blocks).eval m d).1 ≠ .error .unending ∧
      ∀ sb m' d', (mount blocks).eval m d = (.ok sb, m', d') →
        (∀ m₁, ∃ m₂, (mount blocks).eval m₁ d' = (.ok sb, m₂, d') ∧ m₂.repairs = 0) ∧
        ∃ r, verify sb d' = .ok r ∧ r.Intact := by
  rw [eval_mount]
  split
  · exact ⟨nofun, fun _ _ _ h => absurd (Prod.mk.inj h).1 nofun⟩
  rcases hdecode : decode (d 0) with e | sb
  · refine ⟨pass_ne ?_ hdecode, fun _ _ _ h => absurd (Prod.mk.inj h).1 nofun⟩
    unfold decode
    dsimp only
    split
    · exact nofun
    split
    · exact nofun
    split
    · exact nofun
    split <;> exact nofun
  dsimp only
  split
  · exact ⟨nofun, fun _ _ _ h => absurd (Prod.mk.inj h).1 nofun⟩
  have g := decode_geometry hdecode
  have hends := check_ends g { bitmap := fun _ => false, repairs := 0 } d
  rcases hcheck : (check sb).eval { bitmap := fun _ => false, repairs := 0 } d with ⟨e | u, m₁, d₁⟩
  · rw [hcheck] at hends
    exact ⟨pass_ne hends rfl, fun _ _ _ h => absurd (Prod.mk.inj h).1 nofun⟩
  refine ⟨nofun, fun sb' m' d' h => ?_⟩
  obtain ⟨hsb, h⟩ := Prod.mk.inj h
  obtain ⟨-, rfl⟩ := Prod.mk.inj h
  cases hsb
  obtain ⟨w, hsettled, hsuper⟩ := settled_of_check g hcheck
  have hdecode' : decode (d₁ 0) = .ok sb := by
    have := g.bitmap
    rw [hsuper 0 (by omega), hdecode]
  refine ⟨fun m₁ => ?_, hsettled.verify g⟩
  exact ⟨_, hsettled.mount hdecode' (by omega) m₁, rfl⟩

/-- A volume of sixteen blocks and inodes. -/
def tornSb : Superblock :=
  { totalBlocks := 16, bitmapStart := 1, bitmapBlocks := 1, inodeStart := 2, inodeBlocks := 1,
    dataStart := 3, inodeCount := 16, generation := 1 }

def tornInode (kind size b : Nat) : Inode :=
  { kind, size, direct := fun i => if i = 0 then b else 0, indirect := 0, generation := 1 }

/-- The root names file `2` twice, file `3` is in no directory, and the bitmap is empty. -/
def tornDisk : Disk Block
  | 0 => tornSb.encode
  | 2 => fun o => match o / inodeSize with
    | 1 => (tornInode 2 128 3).encode (o % inodeSize)
    | 2 | 3 => (tornInode 1 0 0).encode (o % inodeSize)
    | _ => 0
  | 3 => fun o => match o / direntSize with
    | 0 => Dirent.encode 2 [97] (o % direntSize)
    | 1 => Dirent.encode 2 [98] (o % direntSize)
    | _ => 0
  | _ => zeroBlock

/-- The first mount repairs the damage, the second finds none. -/
theorem mount_converges_torn : ∃ m' d', (mount 16).eval { bitmap := fun _ => false, repairs := 0 }
      tornDisk = (.ok tornSb, m', d') ∧ 0 < m'.repairs ∧
    (∀ m₁, ∃ m₂, (mount 16).eval m₁ d' = (.ok tornSb, m₂, d') ∧ m₂.repairs = 0) ∧
    ∃ r, verify tornSb d' = .ok r ∧ r.Intact := by
  have hdecode : decode (tornDisk 0) = .ok tornSb :=
    Superblock.decode_encode (by unfold Superblock.Fits; decide) (by decide)
  have hcuts : (rootWalk tornSb (image tornSb tornDisk)).toOption.map (·.2.length) = some 1 := by
    decide +kernel
  rcases hwalk : rootWalk tornSb (image tornSb tornDisk) with e | ⟨w, cuts⟩
  · rw [hwalk] at hcuts
    cases hcuts
  rw [hwalk] at hcuts
  obtain ⟨m', d', hrun, hle⟩ := mount_of_walk hdecode (by decide : tornSb.totalBlocks ≤ 16)
    (by decide) hwalk { bitmap := fun _ => false, repairs := 0 }
  have hlen : cuts.length = 1 := Option.some.inj hcuts
  rw [hlen] at hle
  exact ⟨m', d', hrun, hle, (mount_converges 16 _ _).2 _ _ _ hrun⟩

end

end NexoOS.Nexofs
