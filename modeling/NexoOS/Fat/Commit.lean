import NexoOS.Lib.Slots
import NexoOS.Fat.NewChain

/-!
# The commit

The write of the directory record that makes a new chain the file's. It
changes one record of one directory, in its cluster and size, and turns a
well-formed volume with a chain nobody owns into one where the file owns it.
-/

namespace NexoOS.Fat.Volume

open List

variable {v : Volume} {img : Image} {l : LongName} {recs : List Record} {r r' : Record}
  {i : Nat} {x : Entry} {first size : Nat}

/-! ## One record -/

/-- The records agree outside the cluster and size fields. -/
def SameName (r r' : Record) : Prop :=
  ∀ j < 32, ¬ (j = 20 ∨ j = 21 ∨ 26 ≤ j) → r' j = r j

theorem SameName.bytes_eq (h : SameName r r') {o n : Nat} (hn : o + n ≤ 20) :
    bytes r' o n = bytes r o n := by
  refine map_congr_left fun j hj => h _ ?_ ?_ <;> have := mem_range.1 hj <;> omega

theorem SameName.isPlain_iff (h : SameName r r') : isPlain r' ↔ isPlain r := by
  unfold isPlain isLongName isLabel
  rw [h 0 (by omega) (by omega), h 11 (by omega) (by omega)]

theorem SameName.shortName_eq (h : SameName r r') : shortName r' = shortName r := by
  unfold shortName
  rw [h.bytes_eq (by omega), h.bytes_eq (by omega), h 12 (by omega) (by omega)]

def Entry.withChain (x : Entry) (first size : Nat) : Entry := { x with cluster := first, size }

theorem SameName.entryOf_eq (h : SameName r r') (hc : v.recordCluster r' = first)
    (hs : u32At r' 28 = size) : v.entryOf l r' = (v.entryOf l r).withChain first size := by
  subst hc hs
  unfold entryOf Entry.withChain
  rw [h.shortName_eq, h 11 (by omega) (by omega)]
  rfl

/-- A plain record is scanned to its entry, unless it is `.` or `..`. -/
theorem scanRecord_plain (h0 : r 0 ≠ 0) (hp : isPlain r) :
    v.scanRecord l r = some ({ l with valid := false },
      if (v.entryOf l r).name = [0x2e] ∨ (v.entryOf l r).name = [0x2e, 0x2e] then none
      else some (v.entryOf l r)) := by
  unfold scanRecord
  rw [if_neg h0, if_neg hp.1, hp.2.1, hp.2.2]
  rfl

variable {m a d : Nat} {s : Sector} {cs : List Nat} {k : Nat} {y : Entry}

/-- Rewriting the record `m` of a directory rewrites its entry. -/
theorem entriesFrom_set (hr : recs[m]? = some r) (h0 : r 0 ≠ 0) (hp : isPlain r) (h : SameName r r')
    (hc : v.recordCluster r' = first) (hs : u32At r' 28 = size) :
    v.entriesFrom l k (recs.set m r') = (v.entriesFrom l k recs).map fun p =>
        if p.1 = k + m then (p.1, p.2.withChain first size) else p := by
  induction recs generalizing l k m with
  | nil => cases hr
  | cons e recs ih =>
    cases m with
    | zero =>
      obtain rfl := Option.some.inj hr
      have h0' : r' 0 ≠ 0 := by rwa [h 0 (by omega) (by omega)]
      rw [set_cons_zero, entriesFrom, entriesFrom, scanRecord_plain h0 hp,
        scanRecord_plain h0' (h.isPlain_iff.2 hp), h.entryOf_eq hc hs]
      have hrest : (v.entriesFrom { l with valid := false } (k + 1) recs).map
          (fun p => if p.1 = k + 0 then (p.1, p.2.withChain first size) else p) =
          v.entriesFrom { l with valid := false } (k + 1) recs := by
        refine (map_congr_left fun p hp => ?_).trans (map_id _)
        have := (mem_entriesFrom hp).1
        rw [if_neg (by omega)]
        rfl
      by_cases hdot : (v.entryOf l e).name = [0x2e] ∨ (v.entryOf l e).name = [0x2e, 0x2e]
      · have hdot' : ((v.entryOf l e).withChain first size).name = [0x2e] ∨
            ((v.entryOf l e).withChain first size).name = [0x2e, 0x2e] := hdot
        rw [if_pos hdot, if_pos hdot']
        exact hrest.symm
      · have hdot' : ¬ (((v.entryOf l e).withChain first size).name = [0x2e] ∨
            ((v.entryOf l e).withChain first size).name = [0x2e, 0x2e]) := hdot
        rw [if_neg hdot, if_neg hdot']
        rw [map_cons, hrest, if_pos (Nat.add_zero k).symm]
    | succ m =>
      rw [set_cons_succ, entriesFrom, entriesFrom]
      have hk : k + (m + 1) = k + 1 + m := by omega
      rcases hs' : v.scanRecord l e with _ | p
      · rfl
      obtain ⟨l', o⟩ := p
      cases o with
      | none =>
        rw [hk]
        exact ih hr
      | some y =>
        dsimp only
        rw [map_cons, if_neg (by omega), hk, ih hr]

theorem reached_set {j : Nat} {e : Record} (hr : recs[m]? = some r) (h : SameName r r')
    (hreach : Reached (recs.set m r') j e) : ∃ e₀, Reached recs j e₀ ∧ SameName e₀ e := by
  have hget : ∀ (j : Nat) (e : Record), (recs.set m r')[j]? = some e → ∃ e₀, recs[j]? = some e₀ ∧ SameName e₀ e := by
    intro j e he
    rcases getElem?_set_cases he with ⟨rfl, rfl⟩ | he
    · exact ⟨r, hr, h⟩
    · exact ⟨e, he, fun _ _ _ => rfl⟩
  obtain ⟨e₀, he₀, hsame⟩ := hget j e hreach.1
  refine ⟨e₀, ⟨he₀, fun j' hj' e' he' => ?_⟩, hsame⟩
  have hlt : j' < (recs.set m r').length := by
    rw [length_set]
    exact (List.getElem?_eq_some_iff.1 he').1
  obtain ⟨e'', he'', hsame'⟩ := hget j' _ (List.getElem?_eq_getElem hlt)
  obtain rfl := Option.some.inj (he'.symm.trans he'')
  rw [← hsame' 0 (by omega) (by omega)]
  exact hreach.2 j' hj' _ (List.getElem?_eq_getElem hlt)

/-! ## The sector of the record -/

theorem commitSector_other {off p : Nat} (h : ¬ (off ≤ p ∧ p < off + 32)) :
    v.commitSector s off first size p = s p := by
  unfold commitSector
  rw [putLe_apply_of_not_mem (by omega), putLe_apply_of_not_mem (by omega),
    putLe_apply_of_not_mem (by omega)]

theorem recordAt_commit_other {m' : Nat} (h : m' ≠ m) :
    recordAt (v.commitSector s (32 * m) first size) m' = recordAt s m' := by
  funext j
  unfold recordAt
  split
  · exact commitSector_other (by omega)
  · rfl

theorem sameName_commit (s : Sector) (m : Nat) :
    SameName (recordAt s m) (recordAt (v.commitSector s (32 * m) first size) m) := by
  intro j hj hne
  unfold recordAt
  rw [if_pos hj, if_pos hj]
  unfold commitSector
  rw [putLe_apply_of_not_mem (by omega), putLe_apply_of_not_mem (by omega),
    putLe_apply_of_not_mem (by omega)]

theorem leAt_recordAt {o n : Nat} (h : o + n ≤ 32) :
    leAt (recordAt s m) o n = leAt s (32 * m + o) n :=
  leAt_congr fun i hi => by rw [recordAt, if_pos (by omega), Nat.add_assoc]

def ClusterFits (v : Volume) (first : Nat) : Prop :=
  first < if v.kind = .fat32 then 2 ^ 32 else 2 ^ 16

theorem recordCluster_commit (hf : v.ClusterFits first) :
    v.recordCluster (recordAt (v.commitSector s (32 * m) first size) m) = first := by
  unfold recordCluster u16At ClusterFits at *
  rw [leAt_recordAt (by omega), leAt_recordAt (by omega)]
  have hlo : leAt (v.commitSector s (32 * m) first size) (32 * m + 26) 2 = first % 256 ^ 2 := by
    unfold commitSector
    rw [leAt_putLe_of_disjoint (by omega), leAt_putLe_of_disjoint (by omega), leAt_putLe]
  have hhi : leAt (v.commitSector s (32 * m) first size) (32 * m + 20) 2 =
      (if v.kind = .fat32 then first / 2 ^ 16 else 0) % 256 ^ 2 := by
    unfold commitSector
    rw [leAt_putLe_of_disjoint (by omega), leAt_putLe]
  rw [hlo, hhi]
  by_cases hk : v.kind = .fat32
  · simp only [hk, if_true] at hf ⊢
    omega
  · simp only [hk, if_false] at hf ⊢
    omega

theorem size_commit (hs : size < 2 ^ 32) :
    u32At (recordAt (v.commitSector s (32 * m) first size) m) 28 = size := by
  rw [u32At, leAt_recordAt (by omega)]
  unfold commitSector
  rw [leAt_putLe, Nat.mod_eq_of_lt (by omega)]

theorem records_commit (hm : m < 16) : records (v.commitSector s (32 * m) first size) =
      (records s).set m (recordAt (v.commitSector s (32 * m) first size) m) := by
  refine ext_getElem? fun j => ?_
  rw [List.getElem?_set]
  by_cases hj : m = j
  · subst hj
    rw [if_pos rfl, if_pos (by simpa using hm), records_getElem? hm]
  rw [if_neg hj]
  by_cases hlt : j < 16
  · rw [records_getElem? hlt, records_getElem? hlt, recordAt_commit_other (Ne.symm hj)]
  · rw [List.getElem?_eq_none (by simp; omega), List.getElem?_eq_none (by simp; omega)]

/-- Writing one sector of a directory sets one record of its list. -/
theorem flatMap_records_write {ls : List Nat} {j : Nat} (hnd : ls.Nodup) (hj : ls[j]? = some a)
    (hm : m < 16) (hs : records s = (records (img a)).set m r) :
    (ls.flatMap fun b => records (img.write a s b)) =
      (ls.flatMap fun b => records (img b)).set (16 * j + m) r := by
  induction ls generalizing j with
  | nil => cases hj
  | cons b ls ih =>
    rw [nodup_cons] at hnd
    rw [flatMap_cons, flatMap_cons]
    cases j with
    | zero =>
      cases hj
      rw [Disk.write_self, hs, Nat.mul_zero, Nat.zero_add,
        set_append_left _ _ (by simpa using hm)]
      congr 1
      exact flatMap_records_congr fun c hc => Disk.write_of_ne fun h => hnd.1 (h ▸ hc)
    | succ j =>
      have hne : b ≠ a := by
        rintro rfl
        exact hnd.1 (mem_of_getElem? hj)
      rw [Disk.write_of_ne hne, ih hnd.2 hj, set_append_right _ _ (by simp; omega),
        length_records]
      congr 2
      omega

/-! ## Places -/

theorem entriesFrom_index_unique (hx : (i, x) ∈ v.entriesFrom l k recs)
    (hy : (i, y) ∈ v.entriesFrom l k recs) : x = y := by
  induction recs generalizing l k with
  | nil => cases hx
  | cons e recs ih =>
    rw [entriesFrom] at hx hy
    rcases hs : v.scanRecord l e with _ | p
    · rw [hs] at hx
      cases hx
    obtain ⟨l', o⟩ := p
    rw [hs] at hx hy
    rcases o with _ | z
    · exact ih hx hy
    rcases mem_cons.1 hx with hx | hx <;> rcases mem_cons.1 hy with hy | hy
    · exact (Prod.mk.inj hx).2.trans (Prod.mk.inj hy).2.symm
    · have := (mem_entriesFrom hy).1
      have := (Prod.mk.inj hx).1
      omega
    · have := (mem_entriesFrom hx).1
      have := (Prod.mk.inj hy).1
      omega
    · exact ih hx hy

theorem isDir_unique {o : Owner} {d' : Nat} (h : v.IsDir img o d) (h' : v.IsDir img o d') :
    d = d' := by
  cases h with
  | root =>
    cases h'
    rfl
  | sub _ hx _ =>
    cases h' with
    | sub _ hy _ => rw [entriesFrom_index_unique hx hy]

theorem nodup_clusterSectors (hnd : cs.Nodup) (hin : ∀ c ∈ cs, v.InRange c) :
    (cs.flatMap v.clusterSectors).Nodup := by
  induction cs with
  | nil => exact nodup_nil
  | cons c cs ih =>
    rw [nodup_cons] at hnd
    rw [flatMap_cons, nodup_append]
    refine ⟨?_, ih hnd.2 fun x hx => hin x (mem_cons_of_mem _ hx), fun a ha b hb hab => ?_⟩
    · rw [clusterSectors]
      exact pairwise_map.2 (nodup_range.imp fun hne h => hne (by omega))
    obtain ⟨k, hk, rfl⟩ := mem_clusterSectors.1 ha
    obtain ⟨c', hc', hb⟩ := mem_flatMap.1 hb
    obtain ⟨k', hk', rfl⟩ := mem_clusterSectors.1 hb
    have := (clusterStart_inj (hin c mem_cons_self)
      (hin c' (mem_cons_of_mem _ hc')) hk hk' hab).1
    exact hnd.1 (this ▸ hc')

theorem DirChain.nodup_lbas (h : v.DirChain img d cs) : (v.chainLbas cs).Nodup := by
  unfold chainLbas
  cases h with
  | fixed => exact nodup_range'
  | chain _ h _ =>
    rw [if_neg h.ne_nil]
    exact nodup_clusterSectors h.nodup h.inRange

theorem DirChain.rootDirStart_le (g : v.Geometry) (h : v.DirChain img d cs)
    (ha : a ∈ v.chainLbas cs) : v.rootDirStart ≤ a := by
  have hdata := g.data
  unfold chainLbas at ha
  cases h with
  | fixed =>
    rw [if_pos rfl, mem_range'_1] at ha
    omega
  | chain _ h _ =>
    rw [if_neg h.ne_nil, mem_flatMap] at ha
    obtain ⟨c, _, ha⟩ := ha
    obtain ⟨k, _, rfl⟩ := mem_clusterSectors.1 ha
    rw [clusterStart]
    omega

theorem WellFormed.sector_unique {owner : Nat → Option Owner} (hw : v.WellFormed img owner)
    {o o' : Owner} {d' : Nat} {cs' : List Nat} (hd : v.IsDir img o d) (hd' : v.IsDir img o' d')
    (hcs : v.DirChain img d cs) (hcs' : v.DirChain img d' cs') (hown : ∀ c ∈ cs, owner c = some o)
    (hown' : ∀ c ∈ cs', owner c = some o') (ha : a ∈ v.chainLbas cs) (ha' : a ∈ v.chainLbas cs') :
    d = d' := by
  have hdata := hw.geometry.data
  unfold chainLbas at ha ha'
  cases hcs with
  | fixed h0 hk =>
    cases hcs' with
    | fixed h0' hk' => rw [h0, h0']
    | chain _ h' _ =>
      rw [if_pos rfl, mem_range'_1] at ha
      rw [if_neg h'.ne_nil, mem_flatMap] at ha'
      obtain ⟨c', _, ha'⟩ := ha'
      obtain ⟨k', _, rfl⟩ := mem_clusterSectors.1 ha'
      rw [clusterStart] at ha
      omega
  | chain _ h _ =>
    rw [if_neg h.ne_nil, mem_flatMap] at ha
    obtain ⟨c, hc, ha⟩ := ha
    obtain ⟨k, hk, rfl⟩ := mem_clusterSectors.1 ha
    cases hcs' with
    | fixed h0' hk' =>
      rw [if_pos rfl, mem_range'_1, clusterStart] at ha'
      omega
    | chain _ h' _ =>
      rw [if_neg h'.ne_nil, mem_flatMap] at ha'
      obtain ⟨c', hc', ha'⟩ := ha'
      obtain ⟨k', hk', heq⟩ := mem_clusterSectors.1 ha'
      obtain ⟨rfl, _⟩ := clusterStart_inj (h.inRange c hc) (h'.inRange c' hc') hk hk' heq
      have : o = o' := Option.some.inj ((hown c hc).symm.trans (hown' c hc'))
      subst this
      exact isDir_unique hd hd'

/-- Record `m` of sector `lba`, number `j` of the directory at `d`, is the
record of a file or directory. -/
structure Place (v : Volume) (img : Image) (o : Owner) (d j m lba : Nat) : Prop where
  dir : v.IsDir img o d
  sector : (v.dirLbas img d)[j]? = some lba
  lt : m < 16
  reached : Reached (v.dirRecords img d) (16 * j + m) (recordAt (img lba) m)
  plain : isPlain (recordAt (img lba) m)

def committed (v : Volume) (img : Image) (lba m first size : Nat) : Image :=
  img.write lba (v.commitSector (img lba) (32 * m) first size)

section
variable {owner : Nat → Option Owner} {o o' : Owner} {d d' j m lba : Nat}
  (hw : v.WellFormed img owner) (hp : v.Place img o d j m lba)
include hw hp

theorem Place.rootDirStart_le : v.rootDirStart ≤ lba := by
  obtain ⟨cs, hcs, _⟩ := hw.dir o d hp.dir
  have hmem := mem_of_getElem? hp.sector
  rw [hcs.dirLbas_eq hw.geometry] at hmem
  exact hcs.rootDirStart_le hw.geometry hmem

theorem Place.fatRaw_committed (c : Nat) :
    v.fatRaw (v.committed img lba m first size) c = v.fatRaw img c := by
  have := hp.rootDirStart_le hw
  exact fatRaw_congr hw.geometry (fun a _ ha => Disk.write_of_ne (by omega)) c

theorem Place.dirChain_committed {cs : List Nat} (h : v.DirChain img d' cs) :
    v.DirChain (v.committed img lba m first size) d' cs := by
  cases h with
  | fixed h0 hk => exact .fixed h0 hk
  | chain h0 h hlen => exact .chain h0 (h.congr fun x _ => hp.fatRaw_committed hw x) hlen

theorem Place.records_committed : v.dirRecords (v.committed img lba m first size) d =
      (v.dirRecords img d).set (16 * j + m)
        (recordAt (v.commitSector (img lba) (32 * m) first size) m) := by
  obtain ⟨cs, hcs, _⟩ := hw.dir o d hp.dir
  have hsector := hp.sector
  rw [dirRecords, dirRecords, (hp.dirChain_committed hw hcs).dirLbas_eq hw.geometry,
    hcs.dirLbas_eq hw.geometry]
  rw [hcs.dirLbas_eq hw.geometry] at hsector
  exact flatMap_records_write hcs.nodup_lbas hsector hp.lt (records_commit hp.lt)

theorem Place.records_committed_other (hd' : v.IsDir img o' d') (hne : d' ≠ d) :
    v.dirRecords (v.committed img lba m first size) d' = v.dirRecords img d' := by
  obtain ⟨cs, hcs, hown⟩ := hw.dir o d hp.dir
  obtain ⟨cs', hcs', hown'⟩ := hw.dir o' d' hd'
  have hmem := mem_of_getElem? hp.sector
  rw [hcs.dirLbas_eq hw.geometry] at hmem
  rw [dirRecords, dirRecords, (hp.dirChain_committed hw hcs').dirLbas_eq hw.geometry,
    hcs'.dirLbas_eq hw.geometry]
  refine flatMap_records_congr fun a ha => Disk.write_of_ne ?_
  rintro rfl
  exact hne (hw.sector_unique hp.dir hd' hcs hcs' hown hown' hmem ha).symm

/-- The entries after the commit: one of them has the new chain and size. -/
theorem Place.entries_committed (hf : v.ClusterFits first) (hs : size < 2 ^ 32)
    (hd' : v.IsDir img o' d') : v.entries (v.committed img lba m first size) d' =
      (v.entries img d').map fun p =>
        if d' = d ∧ p.1 = 16 * j + m then (p.1, p.2.withChain first size) else p := by
  by_cases hdd : d' = d
  · subst hdd
    have h0 := hp.reached.2 _ (Nat.le_refl _) _ hp.reached.1
    rw [entries, hp.records_committed hw,
      entriesFrom_set hp.reached.1 h0 hp.plain (sameName_commit _ _) (recordCluster_commit hf)
        (size_commit hs), entries]
    simp only [true_and, Nat.zero_add]
  · rw [entries, hp.records_committed_other hw hd' hdd, entries]
    simp only [hdd, false_and, if_false, map_id']

theorem Place.reached_committed {e : Record} (hd : v.IsDir img o' d')
    (he : Reached (v.dirRecords (v.committed img lba m first size) d') k e) :
    ∃ e₀, Reached (v.dirRecords img d') k e₀ ∧ SameName e₀ e := by
  by_cases hdd : d' = d
  · subst hdd
    rw [hp.records_committed hw] at he
    exact reached_set hp.reached.1 (sameName_commit _ _) he
  · rw [hp.records_committed_other hw hd hdd] at he
    exact ⟨e, he, fun _ _ _ => rfl⟩

section
variable (hf : v.ClusterFits first) (hs : size < 2 ^ 32) (hx : (16 * j + m, x) ∈ v.entries img d)
include hf hs hx

theorem Place.mem_committed {i' : Nat} (hd : v.IsDir img o' d')
    (hy : (i', y) ∈ v.entries (v.committed img lba m first size) d') :
    (d' = d ∧ i' = 16 * j + m ∧ y = x.withChain first size) ∨
      (¬ (d' = d ∧ i' = 16 * j + m) ∧ (i', y) ∈ v.entries img d') := by
  rw [hp.entries_committed hw hf hs hd] at hy
  obtain ⟨⟨i₂, z⟩, hz, heq⟩ := mem_map.1 hy
  split at heq
  · rename_i hhere
    cases heq
    obtain ⟨rfl, rfl⟩ := hhere
    rw [entriesFrom_index_unique hz hx]
    exact .inl ⟨rfl, rfl, rfl⟩
  · rename_i hnot
    cases heq
    exact .inr ⟨hnot, hz⟩

variable (hfile : x.isDir = false)
include hfile

theorem Place.isDir_committed :
    v.IsDir (v.committed img lba m first size) o' d' ↔ v.IsDir img o' d' := by
  constructor
  · intro h
    induction h with
    | root => exact .root
    | sub _ hy hdir ih =>
      rcases hp.mem_committed hw hf hs hx ih hy with ⟨_, _, rfl⟩ | ⟨_, hy⟩
      · cases hfile.symm.trans hdir
      · exact .sub ih hy hdir
  · intro h
    induction h with
    | root => exact .root
    | @sub o₁ d₁ i₁ y hd hy hdir ih =>
      refine .sub ih ?_ hdir
      rw [hp.entries_committed hw hf hs hd]
      refine mem_map.2 ⟨(i₁, y), hy, if_neg ?_⟩
      rintro ⟨rfl, rfl⟩
      rw [entriesFrom_index_unique hy hx, hfile] at hdir
      cases hdir

/-- The volume after the commit is well formed: the file owns the new chain,
and nobody the old one. -/
theorem Place.wellFormed_committed {cs : List Nat} (hunowned : ∀ c ∈ cs, owner c = none)
    (hchain : v.FileChain img (x.withChain first size) cs) :
    v.WellFormed (v.committed img lba m first size) fun c =>
      if c ∈ cs then some (.entry d (16 * j + m))
      else if owner c = some (.entry d (16 * j + m)) then none else owner c := by
  have hkeep : ∀ {o' : Owner} {cs' : List Nat}, o' ≠ .entry d (16 * j + m) →
      (∀ c ∈ cs', owner c = some o') → ∀ c ∈ cs',
      (if c ∈ cs then some (Owner.entry d (16 * j + m))
        else if owner c = some (.entry d (16 * j + m)) then none else owner c) = some o' := by
    intro o' cs' hne hown c hc
    have hcs : c ∉ cs := fun h => nomatch (hown c hc).symm.trans (hunowned c h)
    rw [if_neg hcs, hown c hc, if_neg fun h => hne (Option.some.inj h)]
  have hfileChain : ∀ {y : Entry} {cs' : List Nat}, v.FileChain img y cs' →
      v.FileChain (v.committed img lba m first size) y cs' := by
    intro y cs' h
    cases h with
    | empty hc hs => exact .empty hc hs
    | chain h hs => exact .chain (h.congr fun c _ => hp.fatRaw_committed hw c) hs
  refine { geometry := hw.geometry, dir := ?_, sub_ne := ?_, file := ?_, names := ?_, legal := ?_ }
  · intro o' d' hd
    have hd := (hp.isDir_committed hw hf hs hx hfile).1 hd
    obtain ⟨cs', hcs', hown⟩ := hw.dir o' d' hd
    refine ⟨cs', hp.dirChain_committed hw hcs', hkeep ?_ hown⟩
    rintro rfl
    cases hd with
    | sub _ hy hdir =>
      rw [entriesFrom_index_unique hy hx, hfile] at hdir
      cases hdir
  · intro o' d' hd i' y hy hdir
    have hd := (hp.isDir_committed hw hf hs hx hfile).1 hd
    rcases hp.mem_committed hw hf hs hx hd hy with ⟨_, _, rfl⟩ | ⟨_, hy⟩
    · cases hfile.symm.trans hdir
    · exact hw.sub_ne o' d' hd i' y hy hdir
  · intro o' d' hd i' y hy hyfile
    have hd := (hp.isDir_committed hw hf hs hx hfile).1 hd
    rcases hp.mem_committed hw hf hs hx hd hy with ⟨rfl, rfl, rfl⟩ | ⟨hne, hy⟩
    · exact ⟨cs, hfileChain hchain, fun c hc => if_pos hc⟩
    obtain ⟨cs', hcs', hown⟩ := hw.file o' d' hd i' y hy hyfile
    refine ⟨cs', hfileChain hcs', hkeep ?_ hown⟩
    intro heq
    cases heq
    exact hne ⟨rfl, rfl⟩
  · intro o' d' hd i' y hy k e hk he hplain
    have hd := (hp.isDir_committed hw hf hs hx hfile).1 hd
    obtain ⟨e₀, he₀, hsame⟩ := hp.reached_committed hw hd he
    rw [hsame.bytes_eq (by omega)]
    have hplain₀ := hsame.isPlain_iff.1 hplain
    rcases hp.mem_committed hw hf hs hx hd hy with ⟨rfl, rfl, rfl⟩ | ⟨_, hy⟩
    · exact hw.names o' d' hd _ x hx k e₀ hk he₀ hplain₀
    · exact hw.names o' d' hd i' y hy k e₀ hk he₀ hplain₀
  · intro o' d' hd k e he hplain
    have hd := (hp.isDir_committed hw hf hs hx hfile).1 hd
    obtain ⟨e₀, he₀, hsame⟩ := hp.reached_committed hw hd he
    rw [hsame.bytes_eq (by omega)]
    exact hw.legal o' d' hd k e₀ he₀ (hsame.isPlain_iff.1 hplain)

theorem Place.resolves_committed {ns : List (List UInt8)} (h : v.Resolves img ns o' y) :
    v.Resolves (v.committed img lba m first size) ns o'
      (if o' = .entry d (16 * j + m) then y.withChain first size else y) := by
  induction h with
  | root => exact .root
  | @step ns o₁ e y n i' hr hdir hfind ih =>
    have hparent : ¬ o₁ = .entry d (16 * j + m) := by
      rintro rfl
      cases hr with
      | step _ _ hfind' =>
        rw [entriesFrom_index_unique (mem_of_find?_eq_some hfind') hx, hfile] at hdir
        cases hdir
    rw [if_neg hparent] at ih
    have hentries := hp.entries_committed hw hf hs (hr.isDir hdir)
    have hfind' : (v.entries (v.committed img lba m first size) e.cluster).find?
        (fun p => eqIgnoreCase p.2.name n) = some (i',
          if Owner.entry e.cluster i' = .entry d (16 * j + m) then y.withChain first size else y) := by
      rw [hentries, List.find?_map]
      have hpred : ((fun p : Nat × Entry => eqIgnoreCase p.2.name n) ∘ fun p =>
          if e.cluster = d ∧ p.1 = 16 * j + m then (p.1, p.2.withChain first size) else p) =
          fun p => eqIgnoreCase p.2.name n := by
        funext p
        dsimp only [Function.comp]
        split <;> rfl
      rw [hpred, hfind, Option.map_some]
      by_cases hhere : e.cluster = d ∧ i' = 16 * j + m
      · obtain ⟨rfl, rfl⟩ := hhere
        rw [if_pos ⟨rfl, rfl⟩, if_pos rfl]
      · rw [if_neg hhere, if_neg fun h => hhere ⟨(Owner.entry.inj h).1, (Owner.entry.inj h).2⟩]
    exact .step ih hdir hfind'

end

end

end NexoOS.Fat.Volume
