import NexoOS.Fat.CrashAtomic

/-!
# A rewrite that fails

`rewrite_file` gives nothing back when it fails: what it allocated, and what it
freed of the old chain, stays as it is. So exactly the failures before the first
write leave the free clusters alone.
-/

namespace NexoOS.Fat.Volume

open Prog

variable {v : Volume} {img d : Image} {owner : Nat → Option Owner} {path new : List UInt8}

/-- Every record a path leads to, those of a directory for itself and its parent
included, has a chain or no cluster. -/
def RecordChains (v : Volume) (img : Image) : Prop :=
  ∀ path lba off first, v.locate path img = .ok (lba, off, first) →
    first < 2 ∨ ∃ cs, v.Chain img first cs

/-- The same clusters are free and every file has its contents. -/
structure SameSpace (v : Volume) (img d : Image) : Prop where
  free : ∀ c, v.InRange c → (v.Free d c ↔ v.Free img c)
  files : ∀ p, v.readFile d p = v.readFile img p

/-- The path is not found, or contents are to be written and there is no cluster
for them, or the device refuses an access up to the first write. -/
def FailsEarly (v : Volume) (img : Image) (path : List UInt8) (size : Nat) (dev : Option Nat) :
    Prop :=
  (∃ e, v.locate path img = .error e) ∨ (size ≠ 0 ∧ ∃ e, v.allocCluster 2 img = .error e) ∨
    dev = some 0

theorem onDevice_cases (p : FatM Unit) (dev : Option Nat) (img : Image) :
    (p.onDevice dev).eval () img = p.eval () img ∨ ∃ n, dev = some n ∧
      (p.onDevice dev).eval () img = (.error .io, (), img.writeAll ((p () img).2.2.take n)) := by
  unfold eval FatM.onDevice
  cases dev with
  | none => exact .inl rfl
  | some n =>
    dsimp only
    split
    · exact .inr ⟨n, rfl, rfl⟩
    · exact .inl rfl

theorem FailsEarly.eval_eq {size : Nat} {dev : Option Nat} (h : v.FailsEarly img path size dev)
    (source : Source) : (((v.rewriteFile path size source).onDevice dev).eval () img).2.2 = img := by
  have hnone : dev = some 0 ∨ (v.rewriteFile path size source () img).2.2 = [] := by
    unfold rewriteFile
    rcases hloc : v.locate path img with e | ⟨lba, off, oldFirst⟩
    · rw [reading_bind_error hloc]
      exact .inr rfl
    rcases h with ⟨e, he⟩ | ⟨hsize, e, he⟩ | h
    · cases hloc.symm.trans he
    · obtain ⟨n, rfl⟩ := Nat.exists_eq_succ_of_ne_zero hsize
      have hchain : v.writeChain (n + 1) source (n + 1) 0 0 2 0 () img = (.error e, (), []) := by
        rw [writeChain, if_neg (by omega), reading_bind_error he]
      rw [reading_bind_ok hloc]
      change _ ∨ ((v.writeChain (n + 1) source (n + 1) 0 0 2 0 >>= _) () img).2.2 = []
      rw [bind_error hchain]
      exact .inr rfl
    · exact .inl h
  have hwrites : ((v.rewriteFile path size source).onDevice dev () img).2.2 = [] := by
    unfold FatM.onDevice
    rcases hnone with rfl | hnone
    · dsimp only
      split
      · rfl
      · exact List.eq_nil_of_length_eq_zero (by omega)
    · cases dev with
      | none => exact hnone
      | some n => simp [hnone]
  rw [eval, hwrites]
  rfl

theorem WellFormed.rootDirStart_le_locate {lba off first : Nat} (hw : v.WellFormed img owner)
    (h : v.locate path img = .ok (lba, off, first)) : v.rootDirStart ≤ lba := by
  obtain ⟨o, e, n, hr, hdir, -, hfind⟩ := locate_ok hw h
  obtain ⟨cs, hcs, _⟩ := hw.dir o _ (hr.isDir hdir)
  obtain ⟨j, m, r, hj, -⟩ := (hcs.yields hw.geometry).1.findLoop_ok _ hfind
  exact hcs.rootDirStart_le hw.geometry (List.mem_of_getElem? hj)

/-- Which clusters are free is no longer as it was. -/
def Differs (v : Volume) (img d : Image) : Prop := ∃ c, v.InRange c ∧ ¬ (v.Free d c ↔ v.Free img c)

theorem Loses.differs {d' : Image} (h : v.Loses img d)
    (hraw : ∀ c, v.InRange c → v.Free img c → v.fatRaw d' c = v.fatRaw d c) : v.Differs img d' := by
  obtain ⟨c, hc, hfree, hlost⟩ := h
  refine ⟨c, hc, fun hsame => hlost ?_⟩
  rw [Free, ← hraw c hc hfree]
  exact hsame.2 hfree

/-- A rewrite that fails later changes which clusters are free, and so does one that is
stopped when it has changed anything. -/
theorem holds_rewriteFile_error {source : Source} (hw : v.WellFormed img owner)
    (hchains : v.RecordChains img) (hsrc : Supplies source new) :
    Prog.Holds Disk.whole (v.rewriteFile path new.length source) () img
      (fun d => new ≠ [] → d = img ∨ v.Differs img d)
      (fun r _ d => ∀ e, r = .error e → v.FailsEarly img path new.length none ∨ v.Differs img d) := by
  have g := hw.geometry
  unfold rewriteFile
  refine holds_bind (R := fun r _ d => d = img ∧ r = v.locate path img)
    (holds_reading (fun _ => .inl rfl) ⟨rfl, rfl⟩) ?_ (fun e _ _ h _ _ => .inl (.inl ⟨e, h.2.symm⟩))
  rintro ⟨lba, off, oldFirst⟩ _ _ ⟨rfl, hloc⟩
  rename_i img
  have hlba := hw.rootDirStart_le_locate hloc.symm
  -- the new chain
  refine holds_bind ((holds_writeChain g hsrc new.length 2 0 (Built.refl v img new) (by simp)
    (by omega)).imp (fun _ h _ => h.2.imp_right fun h => h.differs fun _ _ _ => rfl)
    fun _ _ _ h => h) ?_ ?_
  rotate_left
  · rintro e _ d ⟨-, -, hfail⟩ _ -
    rcases hfail e rfl with hlost | ⟨-, hpos, halloc⟩
    · exact .inr (hlost.differs fun _ _ _ => rfl)
    · exact .inl (.inr (.inl ⟨Nat.ne_of_gt hpos, e, halloc⟩))
  rintro first _ d ⟨hagree, hbuilt, -⟩
  obtain ⟨prev, cs', hb, hcover⟩ := hbuilt first rfl
  have hlost : new ≠ [] → v.Loses img d := fun hnew => hb.loses fun h => by
    rw [h, List.length_nil, zero_mul] at hcover
    exact hnew (List.eq_nil_of_length_eq_zero (Nat.le_zero.1 hcover))
  have hcommit : ∀ c, v.fatRaw (d.write lba (v.commitSector (d lba) off first new.length)) c =
      v.fatRaw d c := fatRaw_congr g fun a _ ha => Disk.write_of_ne (by omega)
  refine holds_bind_reading rfl (holds_bind_write
    (fun hnew => .inr ((hlost hnew).differs fun _ _ _ => rfl)) (fun _ h => h.elim) ?_)
  -- the old chain, which the commit does not touch
  split
  · obtain ⟨cs, hcs⟩ := (hchains _ _ _ _ hloc.symm).resolve_left (by omega)
    have hcs' : v.Chain (d.write lba (v.commitSector (d lba) off first new.length)) oldFirst cs := by
      refine hcs.congr fun c hc => ?_
      rw [hcommit, hagree.raw c (hcs.inRange c hc) (hcs.not_free c hc)]
    refine (holds_freeLoop g hopsMax hcs').imp (fun d' h hnew => ?_) fun _ _ d' h _ _ => .inr ?_
    · exact .inr ((hlost hnew).differs fun c hc hfree =>
        (h.raw c hc fun hmem => hcs.not_free c hmem hfree).trans (hcommit c))
    · exact ⟨oldFirst, hcs.inRange _ hcs.head, fun hsame => hcs.not_free _ hcs.head (hsame.1 h.2)⟩
  · exact holds_pure (fun hnew => .inr ((hlost hnew).differs fun c _ _ => hcommit c))
      fun _ h => by cases h

/-- A rewrite that fails, for a reason of its own or because the device refuses an
access, keeps the free clusters and all files if it fails before its first write. With
contents to write it does so only then, or if the disk is still the same; and if the
device refuses nothing, only then. -/
theorem failed_rewrite_keeps_iff {source : Source} {e : FatError} {dev : Option Nat}
    (hw : v.WellFormed img owner) (hchains : v.RecordChains img) (hsrc : Supplies source new)
    (herr : (((v.rewriteFile path new.length source).onDevice dev).eval () img).1 = .error e) :
    let d := (((v.rewriteFile path new.length source).onDevice dev).eval () img).2.2
    (v.FailsEarly img path new.length dev → v.SameSpace img d) ∧
    (new ≠ [] ∨ dev = none → v.SameSpace img d →
      v.FailsEarly img path new.length dev ∨ dev.isSome ∧ d = img) := by
  intro d
  refine ⟨fun h => ?_, fun hdev hsame => ?_⟩
  · rw [show d = img from h.eval_eq source]
    exact ⟨fun _ _ => Iff.rfl, fun _ => rfl⟩
  have hnot : ¬ v.Differs img d := fun ⟨c, hc, hn⟩ => hn (hsame.free c hc)
  have hholds : Prog.Holds _ (v.rewriteFile path _ _) _ _ _ _ :=
    holds_rewriteFile_error hw hchains hsrc
  obtain ⟨hcut, hres⟩ := hholds
  rcases onDevice_cases (v.rewriteFile path new.length source) dev img with hrun | ⟨n, rfl, hrun⟩
  · rw [hrun] at herr
    have hd : d = img.writeAll (v.rewriteFile path new.length source () img).2.2 :=
      congrArg (·.2.2) hrun
    rw [hd] at hnot
    exact .inl (((hres e herr).resolve_right hnot).imp_right fun h => h.imp_right nofun)
  · have hd : d = img.writeAll ((v.rewriteFile path new.length source () img).2.2.take n) :=
      congrArg (·.2.2) hrun
    refine .inr ⟨rfl, (hcut d ?_ (hdev.resolve_right nofun)).resolve_right hnot⟩
    rw [hd]
    exact Disk.cut_take ..

theorem smallImage_recordChains : smallVolume.RecordChains smallImage := by
  intro path lba off first h
  have hw := smallImage_wellFormed
  obtain ⟨o, e, n, hr, hdir, -, hfind⟩ := locate_ok hw h
  obtain ⟨rfl, he⟩ := smallImage_isDir (hr.isDir hdir)
  rw [he] at hfind
  have hroot : smallVolume.DirChain smallImage 0 [] := .fixed rfl (by decide)
  obtain ⟨j, m, r, -, -, -, hreach, -, -, rfl⟩ := (hroot.yields hw.geometry).1.findLoop_ok _ hfind
  rw [← hroot.dirLbas_eq hw.geometry] at hreach
  rw [(smallImage_reached hreach).2]
  exact .inr ⟨[2], .last (by unfold InRange; decide) (by decide +kernel)⟩

/-- The device refuses the first write. -/
theorem failed_rewrite_keeps_refused : let run := ((smallVolume.rewriteFile [0x41] smallNew.length
      (sourceOf smallNew)).onDevice (some 0)).eval () smallImage
    run.1 = .error .io ∧ smallVolume.SameSpace smallImage run.2.2 := by
  have herr : (((smallVolume.rewriteFile [0x41] smallNew.length (sourceOf smallNew)).onDevice
      (some 0)).eval () smallImage).1 = .error .io := by decide +kernel
  exact ⟨herr, (failed_rewrite_keeps_iff smallImage_wellFormed smallImage_recordChains
    (supplies_sourceOf smallNew) herr).1 (.inr (.inr rfl))⟩

/-- `A` is rewritten with one byte more than the only free cluster holds: the
cluster is taken, then the volume is full, and nobody owns the cluster. So it is when
one byte is to be written and the device refuses the second write. -/
theorem failed_rewrite_loses_cluster : let new := List.replicate 513 0
    let full := (smallVolume.rewriteFile [0x41] new.length (sourceOf new)).eval () smallImage
    let refused := ((smallVolume.rewriteFile [0x41] 1 (sourceOf new)).onDevice (some 1)).eval ()
      smallImage
    full.1 = .error (.corrupted "volume cheio") ∧ refused.1 = .error .io ∧
    smallVolume.InRange 3 ∧ smallVolume.fatRaw smallImage 3 = .ok 0 ∧
    smallVolume.fatRaw full.2.2 3 = .ok smallVolume.eoc ∧
    smallVolume.fatRaw refused.2.2 3 = .ok smallVolume.eoc := by
  refine ⟨by decide +kernel, by decide +kernel, by unfold InRange; decide, by decide +kernel,
    by decide +kernel, by decide +kernel⟩

end NexoOS.Fat.Volume
