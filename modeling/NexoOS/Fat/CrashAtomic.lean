import NexoOS.Fat.Locate

/-!
# `rewrite_file` is crash-atomic

At every cut of the writes of `rewrite_file` the volume is well formed, the
file has its old or its new contents, and every other file is as it was: the
new chain is built in free clusters, one sector write makes it the file's, and
only then the old chain is freed.
-/

namespace NexoOS.Fat.Volume

open List

variable {v : Volume} {img d : Image} {owner : Nat → Option Owner} {x : Entry}
  {path old new : List UInt8}

/-! ## Reading the new chain -/

theorem SectorData.bytes_eq {s : Sector} {pos o n : Nat} (h : SectorData new s pos)
    (ho : o + n ≤ sectorBytes) (hn : pos + o + n ≤ new.length) :
    bytes s o n = (new.drop (pos + o)).take n := by
  apply ext_getElem
  · simp only [bytes, length_map, length_range, length_take, length_drop]
    omega
  intro i hi hi'
  have hin : i < n := by simpa [bytes] using hi
  simp only [bytes, getElem_map, getElem_range, getElem_take, getElem_drop]
  rw [h (o + i) (by omega) (by omega), getD_eq_getElem?_getD,
    List.getElem?_eq_getElem (by omega), Option.getD_some]
  congr 1
  omega

variable {j : Nat} {cs : List Nat} {S : Nat → Prop}

/-- A read along a chain with the contents in it returns them. -/
theorem Chain.readLoop_data {c : Nat} {all : List Nat} (g : v.Geometry) (hc : v.Chain d c cs)
    (hcs : all.drop j = cs) (hdata : ∀ j c, all[j]? = some c → ∀ k < v.sectorsPerCluster,
      SectorData new (d (v.clusterStart c + k)) ((j * v.sectorsPerCluster + k) * sectorBytes))
    (hlen : new.length ≤ all.length * v.clusterBytes) (fuel pos n : Nat) (hfuel : n ≤ fuel)
    (hpos : 0 < n → pos / v.clusterBytes = j) (hn : pos + n ≤ new.length) :
    v.readLoop d fuel c pos n = .ok ((new.drop pos).take n) := by
  have hcb : 0 < v.clusterBytes := Nat.mul_pos g.spc_pos (by decide)
  induction fuel generalizing c j cs pos n with
  | zero =>
    obtain rfl : n = 0 := by omega
    rfl
  | succ fuel ih =>
    rw [readLoop]
    by_cases h0 : n = 0
    · rw [if_pos h0, h0]
      rfl
    rw [if_neg h0, clusterLba_eq g (hc.inRange c hc.head)]
    dsimp only
    have hj := hpos (by omega)
    -- the place of `pos`: cluster `j`, sector `k` of it, byte `o` of that
    have hsplit : pos = j * v.clusterBytes + pos % v.clusterBytes := by
      rw [← hj, mul_comm]
      exact (Nat.div_add_mod pos _).symm
    generalize hin : pos % v.clusterBytes = inCluster at hsplit
    have hinlt : inCluster < v.clusterBytes := hin ▸ Nat.mod_lt _ hcb
    have hk : inCluster / sectorBytes < v.sectorsPerCluster := by
      rw [Nat.div_lt_iff_lt_mul (by decide)]
      exact hinlt
    have hsec := Nat.div_add_mod inCluster sectorBytes
    have holt : inCluster % sectorBytes < sectorBytes := Nat.mod_lt _ (by decide)
    have hfit : (inCluster / sectorBytes + 1) * sectorBytes ≤ v.clusterBytes :=
      Nat.mul_le_mul_right _ hk
    generalize inCluster / sectorBytes = k at hk hsec hfit
    generalize inCluster % sectorBytes = o at hsec holt
    have hget : all[j]? = some c := by
      have : (all.drop j)[0]? = some c := by
        rw [hcs]
        cases hc <;> rfl
      simpa using this
    have hbase : (j * v.sectorsPerCluster + k) * sectorBytes + o = pos := by
      rw [add_mul, mul_assoc]
      change j * v.clusterBytes + k * sectorBytes + o = pos
      rw [mul_comm k]
      omega
    have hpiece : bytes (d (v.clusterStart c + k)) o (min (sectorBytes - o) n) =
        (new.drop pos).take (min (sectorBytes - o) n) := by
      rw [(hdata j c hget k hk).bytes_eq (by omega) (by omega), hbase]
    have htake : 0 < min (sectorBytes - o) n := by omega
    have hwithin : inCluster + min (sectorBytes - o) n ≤ v.clusterBytes := by
      rw [add_mul, one_mul, mul_comm k] at hfit
      omega
    have hle : min (sectorBytes - o) n ≤ n := min_le_right _ _
    generalize min (sectorBytes - o) n = take at hpiece htake hwithin hle
    have hjoin : (new.drop pos).take take ++ (new.drop (pos + take)).take (n - take) =
        (new.drop pos).take n := by
      rw [← drop_drop, ← take_add]
      congr 1
      omega
    rw [hpiece]
    have hmod : (pos + take) % v.clusterBytes = (inCluster + take) % v.clusterBytes := by
      rw [hsplit, add_assoc, mul_comm, Nat.mul_add_mod]
    by_cases hnext : take < n ∧ (pos + take) % v.clusterBytes = 0
    · -- the cluster is used up and the chain goes on
      have hfull : inCluster + take = v.clusterBytes := by
        by_contra hne
        rw [hmod, Nat.mod_eq_of_lt (by omega)] at hnext
        omega
      have hend : pos + take = (j + 1) * v.clusterBytes := by
        rw [add_mul, one_mul]
        omega
      rw [if_pos hnext]
      cases hc with
      | last hin' _ =>
        have hone : all.length = j + 1 := by
          have := congrArg List.length hcs
          rw [length_drop, length_singleton] at this
          omega
        rw [hone] at hlen
        omega
      | @link _ m cs' _ hm hrest =>
        have htail : all.drop (j + 1) = cs' := by
          rw [← drop_drop, hcs]
          rfl
        rw [hm]
        dsimp only
        rw [ih hrest htail (pos + take) (n - take) (by omega) (fun _ => ?_) (by omega)]
        · exact congrArg _ hjoin
        · rw [hend, Nat.mul_div_cancel _ hcb]
    · rw [if_neg hnext, ih hc hcs (pos + take) (n - take) (by omega) (fun hrest => ?_) (by omega)]
      · exact congrArg _ hjoin
      have hlt : inCluster + take < v.clusterBytes := by
        refine Nat.lt_of_le_of_ne hwithin fun heq => hnext ⟨by omega, ?_⟩
        rw [hmod, heq, Nat.mod_self]
      rw [hsplit, add_assoc, mul_comm, Nat.mul_add_div hcb, Nat.div_eq_of_lt hlt,
        add_zero]

/-- The chain as the file's: it covers the contents, and a read returns them. -/
theorem Built.read_eq {first prev : Nat} (g : v.Geometry) (hb : v.Built img d new first prev cs)
    (hlen : new.length ≤ cs.length * v.clusterBytes) (hfile : x.isDir = false) :
    v.FileChain d (x.withChain first new.length) cs ∧
      v.read d (x.withChain first new.length) 0 new.length = .ok new := by
  have hwhole : v.read d (x.withChain first new.length) 0 new.length =
      v.readLoop d new.length first 0 new.length :=
    read_whole (x.withChain first new.length) hfile
  rw [hwhole]
  by_cases hcs : cs = []
  · subst hcs
    have hnil : new = [] := length_eq_zero_iff.1 (by simpa using hlen)
    subst hnil
    exact ⟨.empty (by rw [(hb.empty rfl).1]; exact Nat.zero_lt_two) rfl, rfl⟩
  · obtain ⟨hchain, -⟩ := hb.chain hcs
    refine ⟨.chain hchain hlen, ?_⟩
    rw [hchain.readLoop_data g (drop_zero (l := cs)) hb.data hlen _ 0 _ (le_refl _)
      (fun _ => Nat.zero_div _) (by omega), drop_zero, take_length]

/-! ## The commit -/

theorem Spares.place {o : Owner} {dir m lba : Nat} (hw : v.WellFormed img owner)
    (h : v.Spares img d owner S) (hp : v.Place img o dir j m lba) : v.Place d o dir j m lba := by
  obtain ⟨cs, hcs, hown⟩ := hw.dir o dir hp.dir
  have hnot : ∀ c ∈ cs, ¬ S c := fun c hc => h.dirs o dir hp.dir c (hown c hc)
  have hsame : d lba = img lba := by
    refine h.agree.sector hcs hnot ?_
    rw [← hcs.dirLbas_eq hw.geometry]
    exact mem_of_getElem? hp.sector
  refine ⟨(h.isDir_iff hw).2 hp.dir, ?_, hp.lt, ?_, hsame ▸ hp.plain⟩
  · rw [(h.agree.dirChain hcs hnot).dirLbas_eq hw.geometry, ← hcs.dirLbas_eq hw.geometry]
    exact hp.sector
  · rw [h.isDir_records hw hp.dir, hsame]
    exact hp.reached

section
variable {o : Owner} {dir j m lba first size : Nat} (hw : v.WellFormed img owner)
  (hp : v.Place img o dir j m lba)
include hw hp

/-- The commit touches no data of clusters outside its directory. -/
theorem Place.data_committed {c k : Nat} (hc : v.InRange c) (hne : owner c ≠ some o)
    (hk : k < v.sectorsPerCluster) :
    v.committed img lba m first size (v.clusterStart c + k) = img (v.clusterStart c + k) := by
  obtain ⟨cs, hcs, hown⟩ := hw.dir o dir hp.dir
  have hmem := mem_of_getElem? hp.sector
  rw [hcs.dirLbas_eq hw.geometry] at hmem
  refine Disk.write_of_ne fun heq => ?_
  subst heq
  unfold chainLbas at hmem
  cases hcs with
  | fixed =>
    have := hw.geometry.data
    rw [if_pos rfl, mem_range'_1, clusterStart] at hmem
    omega
  | chain _ h _ =>
    rw [if_neg h.ne_nil, mem_flatMap] at hmem
    obtain ⟨c', hc', hmem⟩ := hmem
    obtain ⟨k', hk', heq⟩ := mem_clusterSectors.1 hmem
    obtain ⟨rfl, _⟩ := clusterStart_inj hc (h.inRange c' hc') hk hk' heq
    exact hne (hown c hc')

theorem Place.read_committed {y : Entry} {cs : List Nat} (hc : v.FileChain img y cs)
    (hfile : y.isDir = false) (hne : ∀ c ∈ cs, owner c ≠ some o) :
    v.read (v.committed img lba m first size) y 0 y.size = v.read img y 0 y.size := by
  exact hc.read_congr hw.geometry hfile (fun c _ => hp.fatRaw_committed hw c)
    fun c hcs k hk => hp.data_committed hw (hc.inRange c hcs) (hne c hcs) hk

theorem Place.sameFile_committed {cs : List Nat} (hf : v.ClusterFits first) (hs : size < 2 ^ 32)
    (hx : (16 * j + m, x) ∈ v.entries img dir) (hfile : x.isDir = false)
    (hunowned : ∀ c ∈ cs, owner c = none) (hchain : v.FileChain img (x.withChain first size) cs)
    (hres : v.Resolves img (components path) (.entry dir (16 * j + m)) x) {p : List UInt8}
    {y : Entry} (hl : v.lookup img p = .ok y) (hyfile : y.isDir = false)
    (hne : samePath p path = false) : v.SameFile img (v.committed img lba m first size) p y := by
  obtain ⟨o', hr'⟩ := hw.resolves_of_lookup hl
  obtain ⟨o₁, d₁, i₁, cs', rfl, hd₁, hy, hcs', hown⟩ := hw.file_of_resolves hr' hyfile
  have hother : Owner.entry d₁ i₁ ≠ .entry dir (16 * j + m) := by
    intro heq
    rw [heq] at hr'
    exact of_decide_eq_false hne (hr'.components_unique hw hres)
  -- the directory of the record is no file, so its clusters are not this one's
  have hnotdir : Owner.entry d₁ i₁ ≠ o := by
    rintro rfl
    cases hp.dir with
    | sub _ hz hdir =>
      rw [entriesFrom_index_unique hz hy, hyfile] at hdir
      cases hdir
  have hres' := hp.resolves_committed hw hf hs hx hfile hr'
  rw [if_neg hother] at hres'
  refine ⟨(hp.wellFormed_committed hw hf hs hx hfile hunowned hchain).lookupFrom_of_resolves hres',
    hp.read_committed hw hcs' hyfile fun c hc h => ?_⟩
  exact hnotdir (Option.some.inj ((hown c hc).symm.trans h))

end

/-! ## All cuts -/

/-- What a reader may find on the image `d` of a volume where the file `path`
is being rewritten. -/
structure Intact (v : Volume) (img d : Image) (path old new : List UInt8) : Prop where
  base : d v.base = img v.base
  wellFormed : ∃ owner, v.WellFormed d owner
  file : v.readFile d path = .ok old ∨ v.readFile d path = .ok new
  others : ∀ p x, v.lookup img p = .ok x → x.isDir = false → samePath p path = false →
    v.SameFile img d p x

theorem Intact.readFile_eq (hi : v.Intact img d path old new) {p bs : List UInt8}
    (hr : v.readFile img p = .ok bs) (hne : samePath p path = false) : v.readFile d p = .ok bs := by
  obtain ⟨x, hl, hfile, hread⟩ := readFile_ok hr
  exact (hi.others p x hl hfile hne).readFile_eq hread

/-- While the new chain is built the volume reads as before. -/
theorem Agree.intact (hw : v.WellFormed img owner) (h : v.Agree img d S)
    (hS : ∀ c, S c → owner c = none) (hold : v.readFile img path = .ok old) (new : List UInt8) :
    v.Intact img d path old new where
  base := h.base
  wellFormed := ⟨owner, (h.spares hS).wellFormed hw⟩
  file := .inl (h.readFile_eq hw hS hold)
  others := fun _ _ hl hfile _ => h.sameFile hw hS hl hfile

/-- While the old chain is freed it reads as after the commit. -/
theorem Intact.agree {d' : Image} (hi : v.Intact img d path old new) (hw : v.WellFormed d owner)
    (h : v.Agree d d' S) (hS : ∀ c, S c → owner c = none) : v.Intact img d' path old new where
  base := h.base.trans hi.base
  wellFormed := ⟨owner, (h.spares hS).wellFormed hw⟩
  file := hi.file.imp (h.readFile_eq hw hS) (h.readFile_eq hw hS)
  others := fun p x hl hfile hne =>
    (hi.others p x hl hfile hne).trans (h.sameFile hw hS (hi.others p x hl hfile hne).1 hfile)

theorem Built.clusterFits {first prev : Nat} (g : v.Geometry)
    (hb : v.Built img d new first prev cs) : v.ClusterFits first := by
  have hlt : first < clusterLimit v.kind := by
    by_cases hcs : cs = []
    · rw [(hb.empty hcs).1]
      cases v.kind <;> decide
    · exact lt_of_lt_of_le ((hb.chain hcs).1.inRange _ (hb.chain hcs).1.head).2 g.numbers
  unfold ClusterFits
  unfold clusterLimit at hlt
  cases hk : v.kind <;> rw [hk] at hlt <;> simp only [reduceCtorEq, if_true, if_false] at hlt ⊢ <;>
    omega

/-- Every cut of a rewrite is intact; when it succeeds the contents are the
new ones. -/
theorem holds_rewriteFile {source : Source} (hw : v.WellFormed img owner)
    (hold : v.readFile img path = .ok old) (hsrc : Supplies source new)
    (hlen : new.length < 2 ^ 32) :
    Prog.Holds Disk.whole (v.rewriteFile path new.length source) () img
      (fun d => v.Intact img d path old new)
      (fun r _ d => v.Intact img d path old new ∧ (r = .ok () → v.readFile d path = .ok new)) := by
  obtain ⟨x, hl, hfile, -⟩ := readFile_ok hold
  have hw := hw.forget
  generalize howner : (fun c => if v.fatRaw img c = .ok 0 then none else owner c) = owner₀ at hw
  have hfree : ∀ c, v.Free img c → owner₀ c = none := by
    intro c hc
    rw [← howner]
    exact if_pos hc
  have hbefore : ∀ {d}, v.Agree img d (v.Free img) → v.Intact img d path old new := fun h =>
    h.intact hw hfree hold new
  have hstart := hbefore (.refl ..)
  unfold rewriteFile
  refine Prog.holds_bind (R := fun r _ d => d = img ∧ r = v.locate path img)
    (Prog.holds_reading hstart ⟨rfl, rfl⟩) ?_ (fun e _ d h => ⟨h.1 ▸ hstart, nofun⟩)
  rintro ⟨lba, off, oldFirst⟩ _ d' ⟨hd, hloc⟩
  subst d'
  obtain ⟨o, dir, j, m, hp, rfl, rfl, hx, hres⟩ := hw.locate_spec hl hloc.symm
  -- the new chain
  refine Prog.holds_bind ((holds_writeChain hw.geometry hsrc new.length 2 0 (Built.refl v img new)
    (by simp) (by omega)).imp (fun _ h => hbefore h.1) fun _ _ _ h => h) ?_
    (fun e _ d h => ⟨hbefore h.1, nofun⟩)
  rintro first _ d₁ ⟨hagree, hbuilt⟩
  obtain ⟨prev, cs, hb, hcover⟩ := hbuilt.1 first rfl
  have hspares := hagree.spares hfree
  have hw₁ := hspares.wellFormed hw
  have hp₁ := hspares.place hw hp
  have hx₁ := hx
  rw [← hspares.isDir_entries hw hp.dir] at hx₁
  have hres₁ := hspares.resolves hw hres
  obtain ⟨hchain, hread⟩ := hb.read_eq hw.geometry hcover hfile
  have hunowned : ∀ c ∈ cs, owner₀ c = none := fun c hc => hfree c (hb.free c hc)
  have hf := hb.clusterFits hw.geometry
  have hw₂ := hp₁.wellFormed_committed hw₁ hf hlen hx₁ hfile hunowned hchain
  -- the commit
  have hnew : v.readFile (v.committed d₁ lba m first new.length) path = .ok new := by
    have hres₂ := hp₁.resolves_committed hw₁ hf hlen hx₁ hfile hres₁
    rw [if_pos rfl] at hres₂
    rw [hw₂.readFile_of_resolves hres₂]
    refine (hp₁.read_committed hw₁ hchain hfile fun c hc h => ?_).trans hread
    cases (hunowned c hc).symm.trans h
  have hafter : v.Intact img (v.committed d₁ lba m first new.length) path old new := by
    refine ⟨?_, ⟨_, hw₂⟩, .inr hnew, fun p y hl hyfile hne => ?_⟩
    · have := hp₁.rootDirStart_le hw₁
      have := hw.geometry.base_lt
      obtain ⟨n, _, hroot⟩ := hw.geometry.copies
      rw [committed, Disk.write_of_ne (by omega), hagree.base]
    · have hsame := hagree.sameFile hw hfree hl hyfile
      exact hsame.trans (hp₁.sameFile_committed hw₁ hf hlen hx₁ hfile hunowned hchain hres₁
        hsame.1 hyfile hne)
  refine Prog.holds_bind_reading rfl (Prog.holds_bind_write (hbefore hagree)
    (fun _ h => h.elim) ?_)
  change Prog.Holds _ _ _ (v.committed d₁ lba m first new.length) _ _
  -- the old chain
  split
  · obtain ⟨csOld, hold', hown⟩ := hw.file o dir hp.dir _ x hx hfile
    cases hold' with
    | empty hc _ => omega
    | chain hcOld _ =>
      have hkept := not_mem_of_owned hfree hown
      have hcOld' : v.Chain (v.committed d₁ lba m first new.length) x.cluster csOld := by
        refine hcOld.congr fun c hc => ?_
        rw [hp₁.fatRaw_committed hw₁, hagree.raw c (hcOld.inRange c hc) (hkept c hc)]
      have hgone : ∀ c, c ∈ csOld → (if c ∈ cs then some (Owner.entry dir (16 * j + m))
          else if owner₀ c = some (.entry dir (16 * j + m)) then none else owner₀ c) = none := by
        intro c hc
        have hcs : c ∉ cs := fun h => nomatch (hunowned c h).symm.trans (hown c hc)
        rw [if_neg hcs, if_pos (hown c hc)]
      exact (holds_freeLoop hw.geometry hopsMax hcOld').imp
        (fun d h => hafter.agree hw₂ h hgone)
        fun r _ d h => ⟨hafter.agree hw₂ h.1 hgone, fun _ => h.1.readFile_eq hw₂ hgone hnew⟩
  · exact Prog.holds_pure hafter ⟨hafter, fun _ => hnew⟩

/-! ## After the next mount -/

theorem mount_congr {img' : Image} {base : Nat} (h : img' base = img base) (count : Nat) :
    mount img' count base = mount img count base := by
  unfold mount
  rw [h]

theorem ok_of_check {α ε : Type} {p : Prop} [Decidable p] {e : ε} {r : Except ε α} {a : α}
    (h : (if p then .error e else r) = .ok a) : r = .ok a := by
  split at h
  · cases h
  · exact h

theorem base_of_mount {count base : Nat} (h : mount img count base = .ok v) : v.base = base := by
  -- behind the five checks
  have h := ok_of_check (ok_of_check (ok_of_check (ok_of_check (ok_of_check h))))
  rw [← Except.ok.inj h]

/-- After a cut at any write of `rewrite_file` the volume mounts as before, the
file has the old or the new contents, and every other file its own. -/
theorem rewriteFile_crash_atomic {count base : Nat} {source : Source}
    (hm : mount img count base = .ok v) (hw : v.WellFormed img owner)
    (hold : v.readFile img path = .ok old) (hsrc : Supplies source new)
    (hlen : new.length < 2 ^ 32) (k : Nat) :
    let cut := img.writeAll ((v.rewriteFile path new.length source () img).2.2.take k)
    mount cut count base = .ok v ∧ (v.readFile cut path = .ok old ∨ v.readFile cut path = .ok new) ∧
      ∀ p bs, v.readFile img p = .ok bs → samePath p path = false → v.readFile cut p = .ok bs := by
  intro cut
  have hcut := (holds_rewriteFile hw hold hsrc hlen).1 cut (Disk.cut_take ..)
  refine ⟨?_, hcut.file, fun p bs => hcut.readFile_eq⟩
  rw [mount_congr (base_of_mount hm ▸ hcut.base), hm]

/-- A FAT12 volume of two clusters with the one-byte file `A`. -/
def smallImage : Image := fun a =>
  match a with
  | 0 => sectorOf [(12, 2), (13, 1), (14, 1), (16, 1), (17, 16), (19, 5), (22, 1), (510, 0x55),
      (511, 0xaa)]
  | 1 => sectorOf [(0, 0xf8), (1, 0xff), (2, 0xff), (3, 0xff), (4, 0x0f)]
  | 2 => sectorOf ((0, 0x41) :: (List.range' 1 10).map (·, 0x20) ++ [(26, 2), (28, 1)])
  | 3 => sectorOf [(0, 0x68)]
  | _ => fun _ => 0

def smallVolume : Volume :=
  { base := 0, kind := .fat12, sectorsPerCluster := 1, fatStart := 1, fatSectors := 1,
    rootDirStart := 2, rootDirSectors := 1, dataStart := 3, totalClusters := 2, rootCluster := 0 }

theorem smallImage_mount : mount smallImage 5 0 = .ok smallVolume := by
  decide +kernel

theorem smallImage_geometry : smallVolume.Geometry where
  base_lt := by decide
  spc_pos := by decide
  fat_pos := by decide
  copies := ⟨1, by decide, by decide⟩
  data := by decide
  sectors_lt := by decide
  numbers := by decide
  root_le := by decide

def smallEntry : Entry := { name := [0x41], attr := 0, cluster := 2, size := 1 }

theorem smallImage_records : smallVolume.dirRecords smallImage 0 = records (smallImage 2) := by
  have hdir : smallVolume.DirChain smallImage 0 [] := .fixed rfl (by decide)
  have hlbas : smallVolume.chainLbas [] = [2] := rfl
  rw [dirRecords, hdir.dirLbas_eq smallImage_geometry, hlbas, flatMap_cons, flatMap_nil,
    append_nil]

theorem smallImage_entries : smallVolume.entries smallImage 0 = [(0, smallEntry)] := by
  rw [entries, smallImage_records]
  decide +kernel

theorem smallImage_isDir {o : Owner} {dir : Nat} (h : smallVolume.IsDir smallImage o dir) :
    o = .root ∧ dir = 0 := by
  induction h with
  | root => exact ⟨rfl, rfl⟩
  | sub _ hx hdir ih =>
    rw [ih.2, smallImage_entries, mem_singleton] at hx
    rw [(Prod.mk.inj hx).2] at hdir
    cases hdir

theorem smallImage_reached {r : Record} (h : Reached (smallVolume.dirRecords smallImage 0) j r) :
    j = 0 ∧ r = recordAt (smallImage 2) 0 := by
  rw [smallImage_records] at h
  have hj : j = 0 := by
    by_contra hne
    exact h.2 1 (by omega) _ (records_getElem? (by decide)) (by decide)
  subst hj
  exact ⟨rfl, Option.some.inj (h.1.symm.trans (records_getElem? (by decide)))⟩

theorem smallImage_wellFormed :
    smallVolume.WellFormed smallImage fun c => if c = 2 then some (.entry 0 0) else none where
  geometry := smallImage_geometry
  dir := by
    intro o dir h
    obtain ⟨rfl, rfl⟩ := smallImage_isDir h
    exact ⟨[], .fixed rfl (by decide), nofun⟩
  sub_ne := by
    intro o dir h i x hx hdir
    obtain ⟨rfl, rfl⟩ := smallImage_isDir h
    rw [smallImage_entries, mem_singleton] at hx
    rw [(Prod.mk.inj hx).2] at hdir
    cases hdir
  file := by
    intro o dir h i x hx _
    obtain ⟨rfl, rfl⟩ := smallImage_isDir h
    rw [smallImage_entries, mem_singleton] at hx
    cases hx
    refine ⟨[2], .chain (.last (by unfold InRange; decide) (by decide +kernel)) (by decide), ?_⟩
    intro c hc
    rw [mem_singleton.1 hc, if_pos rfl]
  names := by
    intro o dir h i x hx j r hne hr
    obtain ⟨rfl, rfl⟩ := smallImage_isDir h
    rw [smallImage_entries, mem_singleton] at hx
    exact absurd ((smallImage_reached hr).1.trans (Prod.mk.inj hx).1.symm) hne
  legal := by
    intro o dir h j r hr _
    obtain ⟨rfl, rfl⟩ := smallImage_isDir h
    rw [(smallImage_reached hr).2]
    decide +kernel

theorem smallImage_lookup : smallVolume.lookup smallImage [0x41] = .ok smallEntry := by
  have hdir : smallVolume.DirChain smallImage 0 [] := .fixed rfl (by decide)
  have hcomp : components [0x41] = [[0x41]] := by decide
  have hfind : smallVolume.findInDir smallImage 0 [0x41] = .ok (some smallEntry) := by
    rw [findInDir_eq smallImage_geometry hdir, smallImage_entries]
    decide
  rw [lookup, hcomp, lookupFrom, if_pos (by decide), show rootEntry.cluster = 0 from rfl, hfind]
  rfl

theorem smallImage_readFile : smallVolume.readFile smallImage [0x41] = .ok [0x68] := by
  rw [readFile, smallImage_lookup]
  decide +kernel

/-- The bytes of `new`, as asked for. -/
def sourceOf (new : List UInt8) : Source := fun off n => some ((new.drop off).take n)

theorem supplies_sourceOf (new : List UInt8) : Supplies (sourceOf new) new := by
  intro off n bs h
  exact (Option.some.inj h).symm

def smallNew : List UInt8 := [0x6f, 0x6b]

/-- `A` is rewritten with two bytes and the power fails after the third write,
the commit. -/
theorem smallImage_crash_atomic : smallVolume.readFile smallImage [0x41] = .ok [0x68] ∧
    let cut := smallImage.writeAll ((smallVolume.rewriteFile [0x41] smallNew.length
      (sourceOf smallNew) () smallImage).2.2.take 3)
    mount cut 5 0 = .ok smallVolume ∧
      (smallVolume.readFile cut [0x41] = .ok [0x68] ∨
        smallVolume.readFile cut [0x41] = .ok smallNew) ∧
      ∀ p bs, smallVolume.readFile smallImage p = .ok bs → samePath p [0x41] = false →
        smallVolume.readFile cut p = .ok bs :=
  ⟨smallImage_readFile, rewriteFile_crash_atomic smallImage_mount smallImage_wellFormed
    smallImage_readFile (supplies_sourceOf smallNew) (by decide) 3⟩

end NexoOS.Fat.Volume
