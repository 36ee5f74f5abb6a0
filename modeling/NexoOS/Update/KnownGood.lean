import NexoOS.Update.Layout

/-!
# A known-good slot at every moment

As long as `aplica` is requested only while the running slot is confirmed, some
slot is marked successful and holds a pair that was booted and confirmed in it,
through every sequence of boots, requests and power cuts. An `aplica` from an
unconfirmed slot takes the last good slot away.
-/

namespace NexoOS.Update

open Fat Function List Machine Option Volume

variable {count base : Nat} {v : Volume} {lba : Nat} {img d : Image} {st : SlotState}
  {pair : Fin 2 → Pair}

/-! ## Runs -/

/-- Some slot is marked successful and holds a pair that was booted and
confirmed in it. -/
def KnownGood (count base : Nat) (m : Machine) : Prop :=
  ∃ v st i p, mount m.img count base = .ok v ∧ readSlots v m.img = some st ∧
    (st.slot i).successful = 1 ∧ m.confirmed i = some p ∧ Holds v m.img i p

/-- The machine runs slot `i`, which is confirmed. -/
structure Start (count base : Nat) (v : Volume) (lba : Nat) (m : Machine) (st : SlotState)
    (pair : Fin 2 → Pair) (i : Fin 2) : Prop where
  disk : OnDisk count base v lba m.img st pair
  session : m.session = some { booted := .slot i (pair i), upd := some ⟨v, lba⟩ }
  selected : st.selected = i
  successful : (st.slot i).successful = 1
  confirmed : m.confirmed i = some (pair i)

/-- The running system was booted from a slot that is marked successful, with
the pair confirmed in it. -/
def RunsConfirmed (count base : Nat) (m : Machine) (booted : Booted) : Prop :=
  ∃ v st i p, booted = .slot i p ∧ mount m.img count base = .ok v ∧
    readSlots v m.img = some st ∧ (st.slot i).successful = 1 ∧ m.confirmed i = some p

/-- `aplica` is requested only while the running slot is confirmed. -/
def Careful (count base : Nat) (m : Machine) : Event → Prop
  | .aplica _ => ∀ s, m.session = some s → RunsConfirmed count base m s.booted
  | _ => True

def CarefulRun (count base : Nat) : Machine → List Event → Prop
  | _, [] => True
  | m, e :: es => Careful count base m e ∧ CarefulRun count base (m.step count base e) es

/-- What holds between two events. -/
structure Inv (count base : Nat) (v : Volume) (lba : Nat) (m : Machine) (st : SlotState)
    (pair : Fin 2 → Pair) : Prop where
  disk : OnDisk count base v lba m.img st pair
  upd : ∀ s u, m.session = some s → s.upd = some u → u = ⟨v, lba⟩
  booted : ∀ s i p, m.session = some s → s.booted = .slot i p → st.selected = i ∧ pair i = p
  good : ∃ i, (st.slot i).successful = 1 ∧ m.confirmed i = some (pair i)

variable {m : Machine} {o : Owner} {dir a n : Nat}

theorem Inv.knownGood (h : Inv count base v lba m st pair) : KnownGood count base m := by
  obtain ⟨i, hsucc, hconf⟩ := h.good
  exact ⟨v, st, i, pair i, h.disk.mounted, h.disk.state, hsucc, hconf, h.disk.files i⟩

theorem Start.inv {i : Fin 2} (h : Start count base v lba m st pair i) :
    Inv count base v lba m st pair where
  disk := h.disk
  upd := by
    intro s u hs hu
    obtain rfl := some.inj (h.session.symm.trans hs)
    exact (some.inj hu).symm
  booted := by
    intro s j p hs hb
    obtain rfl := some.inj (h.session.symm.trans hs)
    cases hb
    exact ⟨h.selected, rfl⟩
  good := ⟨i, h.successful, h.confirmed⟩

theorem cut_reaching (d : Image) (cut : Option Nat) (ws : Writes Sector) :
    Disk.Cut Disk.whole d ws (d.writeAll (reaching cut ws)) := by
  cases cut with
  | none => exact Disk.cut_writeAll d ws
  | some k => exact Disk.cut_take d ws k

/-- After a boot the session has the booted system and the service on the disk. -/
theorem HasState.afterBoot {img : Image} {cut : Option Nat}
    (h : HasState count base v lba img st) {r : Except String Booted}
    {s : Session} (hs : afterBoot count base img cut r = some s) :
    r = .ok s.booted ∧ s.upd = some ⟨v, lba⟩ := by
  unfold Machine.afterBoot at hs
  split at hs
  · cases hs
    rw [h.start_eq]
    exact ⟨rfl, rfl⟩
  · cases hs

theorem Machine.of_afterRequest {cut : Option Nat} {s : Option Session} {s' : Session}
    (h : afterRequest cut s = some s') : s = some s' := by
  cases cut with
  | none => exact h
  | some k => cases h

theorem reaching_single (cut : Option Nat) (w : Nat × Sector) :
    reaching cut [w] = [] ∨ reaching cut [w] = [w] := by
  unfold reaching
  cases cut with
  | none => exact .inr rfl
  | some k =>
    cases k with
    | zero => exact .inl rfl
    | succ k => exact .inr (by simp)

section
variable {m : Machine} (h : Inv count base v lba m st pair)
include h

variable (cut : Option Nat)

theorem Inv.boot : ∃ st' pair', Inv count base v lba (m.boot count base cut) st' pair' := by
  obtain ⟨hcut, hfinal⟩ := h.disk.holds_loadSystem
  have hgood : ∀ {st' : SlotState}, (∀ i, (st'.slot i).successful = (st.slot i).successful) →
      ∃ i, (st'.slot i).successful = 1 ∧ m.confirmed i = some (pair i) := by
    intro st' hsucc
    obtain ⟨i, h1, hconf⟩ := h.good
    exact ⟨i, (hsucc i).trans h1, hconf⟩
  unfold Machine.boot
  rw [h.disk.mounted]
  cases cut with
  | none =>
    obtain ⟨st', hdisk, hsucc, hboot⟩ := hfinal
    change OnDisk count base v lba (m.img.writeAll (loadSystem v () m.img).2.2) st' pair at hdisk
    refine ⟨st', pair, hdisk, fun s u hs hu => ?_, fun s i p hs hb => ?_, hgood hsucc⟩
    · exact some.inj (hu.symm.trans (hdisk.toHasState.afterBoot hs).2)
    · exact hboot i p ((hdisk.toHasState.afterBoot hs).1.trans (congrArg _ hb))
  | some k =>
    obtain ⟨st', hdisk, hsucc⟩ := hcut _ (cut_reaching m.img (some k) _)
    exact ⟨st', pair, hdisk, nofun, nofun, hgood hsucc⟩

theorem Inv.confirma : ∃ st' pair', Inv count base v lba (m.confirma cut) st' pair' := by
  unfold Machine.confirma
  split
  · rename_i booted u hsession
    obtain rfl := h.upd _ u hsession rfl
    rw [h.disk.toHasState.confirma_writes]
    rcases reaching_single cut (lba, st.confirm.encode) with hws | hws
    · rw [hws]
      exact ⟨st, pair, h.disk, fun s u hs => h.upd s u (of_afterRequest hs),
        fun s i p hs => h.booted s i p (of_afterRequest hs), h.good⟩
    rw [hws]
    refine ⟨st.confirm, pair, h.disk.write st.confirm,
      fun s u hs => h.upd s u (of_afterRequest hs),
      fun s i p hs => h.booted s i p (of_afterRequest hs), ?_⟩
    obtain ⟨i, hsucc, hconf⟩ := h.good
    refine ⟨i, st.confirm_successful hsucc, ?_⟩
    change noteConfirmed m.confirmed booted i = some (pair i)
    unfold noteConfirmed
    split
    · rename_i j p
      obtain ⟨-, rfl⟩ := h.booted _ j p hsession rfl
      by_cases hij : i = j
      · rw [hij, update_self]
      · rw [update_of_ne hij, hconf]
    · exact hconf
  · exact ⟨st, pair, h⟩

theorem Inv.aplica (hc : Careful count base m (.aplica cut)) :
    ∃ st' pair', Inv count base v lba (m.aplica cut) st' pair' := by
  unfold Machine.aplica
  split
  · rename_i booted u hsession
    obtain rfl := h.upd _ u hsession rfl
    obtain ⟨v', st₀, i, p, rfl, hv, hst, hsucc, hconf⟩ := hc _ hsession
    obtain rfl := Except.ok.inj (h.disk.mounted.symm.trans hv)
    obtain rfl := some.inj (h.disk.state.symm.trans hst)
    obtain ⟨rfl, rfl⟩ := h.booted _ i p hsession rfl
    obtain ⟨st', pair', hdisk, hsel, hslot, hpair⟩ :=
      h.disk.holds_aplica.1 _ (cut_reaching m.img cut _)
    refine ⟨st', pair', hdisk, fun s u hs => h.upd s u (of_afterRequest hs),
      fun s j q hs hb => ?_, st.selected, by rw [hslot, hsucc], by rw [hpair, hconf]⟩
    obtain rfl := some.inj (hsession.symm.trans (of_afterRequest hs))
    cases hb
    exact ⟨hsel, hpair⟩
  · exact ⟨st, pair, h⟩

theorem Inv.step (e : Event) (hc : Careful count base m e) :
    ∃ st' pair', Inv count base v lba (m.step count base e) st' pair' := by
  cases e with
  | powerOff => exact ⟨st, pair, h.disk, nofun, nofun, h.good⟩
  | boot cut => exact h.boot cut
  | confirma cut => exact h.confirma cut
  | aplica cut => exact h.aplica cut hc

end

theorem Inv.run (h : Inv count base v lba m st pair) (es : List Event)
    (hc : CarefulRun count base m es) :
    ∃ st' pair', Inv count base v lba (m.run count base es) st' pair' := by
  induction es generalizing m st pair with
  | nil => exact ⟨st, pair, h⟩
  | cons e es ih =>
    obtain ⟨st', pair', h'⟩ := h.step e hc.1
    exact ih h' hc.2

/-- An `aplica` that succeeds while the selected slot is not confirmed leaves
no slot marked successful. -/
theorem aplica_unconfirmed {booted : Booted} {reply : Reply}
    (h : OnDisk count base v lba m.img st pair)
    (hs : m.session = some { booted, upd := some ⟨v, lba⟩ })
    (hsucc : (st.slot st.selected).successful ≠ 1)
    (hok : (Upd.aplica ⟨v, lba⟩ () m.img).1 = .ok reply) :
    ¬ KnownGood count base (m.aplica none) := by
  obtain ⟨pair', hdisk⟩ := h.holds_aplica.2 reply hok
  rintro ⟨v', st', i, p, hv, hst, h1, -⟩
  have himg : (m.aplica none).img = m.img.writeAll (Upd.aplica ⟨v, lba⟩ () m.img).2.2 := by
    unfold aplica
    rw [hs]
    dsimp only [reaching]
  rw [himg] at hv hst
  obtain rfl := Except.ok.inj (hdisk.mounted.symm.trans hv)
  obtain rfl := some.inj (hdisk.state.symm.trans hst)
  unfold SlotState.pend at h1
  dsimp only at h1
  by_cases hi : i = other st.selected
  · rw [hi, update_self] at h1
    exact absurd h1 (by decide)
  rw [update_of_ne hi] at h1
  by_cases hsel : i = st.selected
  · exact hsucc (hsel ▸ h1)
  · exact hi (eq_other hsel)

/-! ## A disk with an update pending -/

/-- A directory record: name, attributes, first cluster, size. -/
def record (name : String) (attr cluster size : Nat) : List UInt8 :=
  (ascii name ++ [UInt8.ofNat attr] ++ replicate 14 0 ++ [UInt8.ofNat cluster, 0] ++
    [UInt8.ofNat (size % 256), UInt8.ofNat (size / 256), 0, 0])

def sectorFrom (data : List UInt8) : Sector := fun i => data.getD i 0

/-- A header that `ElfFile::parse` accepts, with byte `9` free. -/
def elfHeader (mark : UInt8) : List UInt8 :=
  [0x7f, 0x45, 0x4c, 0x46, 2, 1, 0, 0, 0, mark, 0, 0, 0, 0, 0, 0, 2, 0, 0x3e] ++
    replicate 35 0 ++ [56, 0, 1, 0]

/-- A is confirmed and was booted, B has an update pending. -/
def abState : SlotState where
  slot := fun i => if i = 0 then ⟨2, 3, 1⟩ else ⟨3, 3, 0⟩
  lastSelected := 0

def abPair (i : Fin 2) : Pair :=
  if i = 0 then ⟨elfHeader 0xa, [0x61]⟩ else ⟨elfHeader 0xb, [0x62]⟩

/-- A FAT12 volume of 14 clusters of one sector: the directories `nexo`, `a`
and `b` in clusters 2, 3 and 4, then `slots.bin` and the files of A and B. -/
def abImage : Image := fun a =>
  match a with
  | 0 => sectorOf [(12, 2), (13, 1), (14, 1), (16, 1), (17, 16), (19, 17), (22, 1),
      (510, 0x55), (511, 0xaa)]
  | 1 => sectorFrom (0xf8 :: replicate 14 0xff)
  | 2 => sectorFrom (record "NEXO       " 0x10 2 0)
  | 3 => sectorFrom (record "A          " 0x10 3 0 ++ record "B          " 0x10 4 0 ++
      record "SLOTS   BIN" 0 5 512)
  | 4 => sectorFrom (record "KERNEL  ELF" 0 6 58 ++ record "INITRD     " 0 7 1)
  | 5 => sectorFrom (record "KERNEL  ELF" 0 8 58 ++ record "INITRD     " 0 9 1)
  | 6 => abState.encode
  | 7 => sectorFrom (abPair 0).kernel
  | 8 => sectorFrom (abPair 0).initrd
  | 9 => sectorFrom (abPair 1).kernel
  | 10 => sectorFrom (abPair 1).initrd
  | _ => fun _ => 0

def abVolume : Volume :=
  { base := 0, kind := .fat12, sectorsPerCluster := 1, fatStart := 1, fatSectors := 1,
    rootDirStart := 2, rootDirSectors := 1, dataStart := 3, totalClusters := 14, rootCluster := 0 }

theorem abImage_mount : mount abImage 17 0 = .ok abVolume := by
  decide +kernel

theorem abVolume_geometry : abVolume.Geometry where
  base_lt := by decide
  spc_pos := by decide
  fat_pos := by decide
  copies := ⟨1, by decide, by decide⟩
  data := by decide
  sectors_lt := by decide
  numbers := by decide
  root_le := by decide

/-- The directories, with the sector and the number of their records. -/
def abDirs : List (Owner × Nat × Nat × Nat) :=
  [(.root, 0, 2, 1), (.entry 0 0, 2, 3, 3), (.entry 2 0, 3, 4, 2), (.entry 2 1, 4, 5, 2)]

def abOwner (c : Nat) : Option Owner :=
  [(2, .entry 0 0), (3, .entry 2 0), (4, .entry 2 1), (5, .entry 2 2), (6, .entry 3 0),
    (7, .entry 3 1), (8, .entry 4 0), (9, .entry 4 1)].lookup c

theorem abImage_last {c : Nat} (h : c ∈ range' 2 8) : abVolume.Chain abImage c [c] := by
  have hnext : ∀ c ∈ range' 2 8, abVolume.nextCluster abImage c = .ok none := by
    decide +kernel
  refine .last ?_ (hnext c h)
  rw [mem_range'_1] at h
  change 2 ≤ c ∧ c < 14 + 2
  omega

/-- Every directory has one sector, in its own cluster. -/
theorem abImage_dir (h : (o, dir, a, n) ∈ abDirs) :
    ∃ cs, abVolume.DirChain abImage dir cs ∧ (∀ c ∈ cs, abOwner c = some o) ∧
      abVolume.dirRecords abImage dir = records (abImage a) := by
  have hsingle : ∀ {dir a : Nat} {cs : List Nat}, abVolume.DirChain abImage dir cs →
      abVolume.chainLbas cs = [a] →
      abVolume.dirRecords abImage dir = records (abImage a) := by
    intro dir a cs hcs hls
    rw [dirRecords, hcs.dirLbas_eq abVolume_geometry, hls, flatMap_cons,
      flatMap_nil, append_nil]
  have hsub : ∀ {dir : Nat}, dir ∈ range' 2 8 → abVolume.DirChain abImage dir [dir] := by
    intro dir h
    have hne : dir ≠ 0 := by
      rw [mem_range'_1] at h
      omega
    refine .chain (fun h0 => absurd h0 hne) (by rw [if_neg hne]; exact abImage_last h) ?_
    exact (by decide : 1 * 1 ≤ dirSectorsMax)
  simp only [abDirs, mem_cons, Prod.mk.injEq, not_mem_nil, or_false] at h
  rcases h with ⟨rfl, rfl, rfl, rfl⟩ | ⟨rfl, rfl, rfl, rfl⟩ | ⟨rfl, rfl, rfl, rfl⟩ |
    ⟨rfl, rfl, rfl, rfl⟩
  · have hcs : abVolume.DirChain abImage 0 [] := .fixed rfl (by decide)
    exact ⟨[], hcs, by simp, hsingle hcs (by decide)⟩
  · exact ⟨[2], hsub (by decide), by decide, hsingle (hsub (by decide)) (by decide)⟩
  · exact ⟨[3], hsub (by decide), by decide, hsingle (hsub (by decide)) (by decide)⟩
  · exact ⟨[4], hsub (by decide), by decide, hsingle (hsub (by decide)) (by decide)⟩

/-- The entries of the directory whose records are in sector `a`. -/
def abEntries (a : Nat) : List (Nat × Volume.Entry) :=
  abVolume.entriesFrom .none 0 (records (abImage a))

/-- What the sectors of the directories hold. -/
theorem abDirs_spec : ∀ row ∈ abDirs,
    (row.2.2.2 < 16 ∧ recordAt (abImage row.2.2.1) row.2.2.2 0 = 0) ∧
    (∀ j < row.2.2.2, 0x5c ∉ bytes (recordAt (abImage row.2.2.1) j) 0 11) ∧
    ∀ p ∈ abEntries row.2.2.1, (p.2.isDir = true → p.2.cluster ≠ 0 ∧
        ∃ row' ∈ abDirs, row'.1 = .entry row.2.1 p.1 ∧ row'.2.1 = p.2.cluster) ∧
      (p.2.isDir = false → p.2.cluster ∈ range' 2 8 ∧ p.2.size ≤ 1 * 512 ∧
        abOwner p.2.cluster = some (.entry row.2.1 p.1)) ∧ ∀ j < row.2.2.2, j ≠ p.1 →
        name83 p.2.name ≠ some (bytes (recordAt (abImage row.2.2.1) j) 0 11) := by
  decide +kernel

/-- The record behind the last one of a directory ends it. -/
theorem abImage_reached {j : Nat} {r : Volume.Record} (h : (o, dir, a, n) ∈ abDirs)
    (hr : Volume.Reached (abVolume.dirRecords abImage dir) j r) :
    j < n ∧ r = recordAt (abImage a) j := by
  obtain ⟨hn, hzero⟩ := (abDirs_spec _ h).1
  obtain ⟨_, _, _, hrec⟩ := abImage_dir h
  rw [hrec] at hr
  have hj : j < n := by
    by_contra hge
    exact hr.2 n (by omega) _ (records_getElem? hn) hzero
  have hget := records_getElem? (s := abImage a) (m := j) (Nat.lt_trans hj hn)
  exact ⟨hj, some.inj (hr.1.symm.trans hget)⟩

theorem abImage_entries (h : (o, dir, a, n) ∈ abDirs) :
    abVolume.entries abImage dir = abEntries a := by
  obtain ⟨_, _, _, hrec⟩ := abImage_dir h
  rw [entries, hrec, abEntries]

theorem abImage_isDir (h : abVolume.IsDir abImage o dir) : ∃ a n, (o, dir, a, n) ∈ abDirs := by
  induction h with
  | root => exact ⟨2, 1, by decide⟩
  | sub _ hx hdir ih =>
    obtain ⟨a, n, hrow⟩ := ih
    rw [abImage_entries hrow] at hx
    obtain ⟨-, ⟨o', dir', a', n'⟩, hrow', ho, hd⟩ := ((abDirs_spec _ hrow).2.2 _ hx).1 hdir
    subst ho hd
    exact ⟨a', n', hrow'⟩

theorem abImage_wellFormed : abVolume.WellFormed abImage abOwner where
  geometry := abVolume_geometry
  dir := by
    intro o dir h
    obtain ⟨a, n, hrow⟩ := abImage_isDir h
    obtain ⟨cs, hcs, hown, _⟩ := abImage_dir hrow
    exact ⟨cs, hcs, hown⟩
  sub_ne := by
    intro o dir h i x hx hdir
    obtain ⟨a, n, hrow⟩ := abImage_isDir h
    rw [abImage_entries hrow] at hx
    exact (((abDirs_spec _ hrow).2.2 _ hx).1 hdir).1
  file := by
    intro o dir h i x hx hfile
    obtain ⟨a, n, hrow⟩ := abImage_isDir h
    rw [abImage_entries hrow] at hx
    obtain ⟨hc, hsize, hown⟩ := ((abDirs_spec _ hrow).2.2 _ hx).2.1 hfile
    refine ⟨[x.cluster], .chain (abImage_last hc) hsize, fun c hc => ?_⟩
    rw [mem_singleton.1 hc]
    exact hown
  names := by
    intro o dir h i x hx j r hne hr _
    obtain ⟨a, n, hrow⟩ := abImage_isDir h
    rw [abImage_entries hrow] at hx
    obtain ⟨hj, rfl⟩ := abImage_reached hrow hr
    exact ((abDirs_spec _ hrow).2.2 _ hx).2.2 j hj hne
  legal := by
    intro o dir h j r hr _
    obtain ⟨a, n, hrow⟩ := abImage_isDir h
    obtain ⟨hj, rfl⟩ := abImage_reached hrow hr
    exact (abDirs_spec _ hrow).2.1 j hj

theorem abImage_files : abVolume.lookup abImage slotsPath =
      .ok { name := ascii "SLOTS.BIN", attr := 0, cluster := 5, size := 512 } ∧
    ∀ i : Fin 2, abVolume.readFile abImage (kernelPath i) = .ok (abPair i).kernel ∧
      abVolume.readFile abImage (initrdPath i) = .ok (abPair i).initrd := by
  decide +kernel

theorem abImage_onDisk : OnDisk 17 0 abVolume 6 abImage abState abPair where
  mounted := abImage_mount
  wellFormed := ⟨abOwner, abImage_wellFormed⟩
  slots := ⟨_, abImage_files.1, by decide, rfl, by decide⟩
  state := by
    rw [readSlots, abImage_wellFormed.readFile_sector abImage_files.1 (by decide) rfl
      (by decide : abVolume.clusterLba 5 = .ok 6)]
    exact abState.decode_encode
  files := abImage_files.2

/-- The machine runs A; B is to be tried next. -/
def abMachine : Machine where
  img := abImage
  session := some { booted := .slot 0 (abPair 0), upd := some ⟨abVolume, 6⟩ }
  confirmed := fun i => if i = 0 then some (abPair 0) else none

theorem abMachine_start : Start 17 0 abVolume 6 abMachine abState abPair 0 where
  disk := abImage_onDisk
  session := rfl
  selected := rfl
  successful := rfl
  confirmed := rfl

/-- The loader tries B, and the update then goes to A. -/
theorem abImage_tries : (loadSystem abVolume () abImage).1 = .ok (.slot 1 (abPair 1)) ∧
    (Upd.aplica ⟨abVolume, 6⟩ () (abImage.writeAll (loadSystem abVolume () abImage).2.2)).1 =
      .ok (.aplicado 0) := by
  decide +kernel

/-- The update is tried, and applied to A before it is confirmed: A was the
only slot confirmed. -/
theorem pending_aplica_loses_known_good : Start 17 0 abVolume 6 abMachine abState abPair 0 ∧
      ¬ KnownGood 17 0 (abMachine.run 17 0 [.boot none, .aplica none]) := by
  refine ⟨abMachine_start, ?_⟩
  obtain ⟨hboot, hok⟩ := abImage_tries
  obtain ⟨st, hdisk, hsucc, hsel⟩ := abImage_onDisk.holds_loadSystem.2
  obtain ⟨hsel, -⟩ := hsel 1 _ hboot
  have hm : abMachine.boot 17 0 none = { abMachine with
        img := abImage.writeAll (loadSystem abVolume () abImage).2.2
        session := some { booted := .slot 1 (abPair 1), upd := some ⟨abVolume, 6⟩ } } := by
    unfold boot
    rw [show abMachine.img = abImage from rfl, abImage_mount]
    dsimp only
    rw [hboot]
    unfold afterBoot
    rw [show reaching none (loadSystem abVolume () abImage).2.2 =
      (loadSystem abVolume () abImage).2.2 from rfl, hdisk.toHasState.start_eq]
    rfl
  rw [run, foldl_cons, foldl_cons, foldl_nil, step, step]
  generalize abMachine.boot 17 0 none = m at hm
  have himg : m.img = abImage.writeAll (loadSystem abVolume () abImage).2.2 := by rw [hm]
  have hs : m.session = some { booted := .slot 1 (abPair 1), upd := some ⟨abVolume, 6⟩ } := by
    rw [hm]
  rw [← himg] at hdisk hok
  refine aplica_unconfirmed hdisk hs ?_ hok
  rw [hsel, hsucc]
  decide

/-- From a confirmed boot on, whatever boots, requests and cuts follow: if
`aplica` is requested only while the running slot is confirmed, there is a
known-good slot. -/
theorem careful_run_knownGood {m : Machine} {i : Fin 2}
    (h : Start count base v lba m st pair i) (es : List Event)
    (hc : CarefulRun count base m es) : KnownGood count base (m.run count base es) := by
  obtain ⟨st', pair', h'⟩ := h.inv.run es hc
  exact h'.knownGood

/-- The power fails while A, confirmed, is copied over B; the next boot is
confirmed. -/
theorem abMachine_knownGood :
    CarefulRun 17 0 abMachine [.aplica (some 3), .boot none, .confirma none] ∧
      KnownGood 17 0 (abMachine.run 17 0 [.aplica (some 3), .boot none, .confirma none]) := by
  have hc : CarefulRun 17 0 abMachine [.aplica (some 3), .boot none, .confirma none] := by
    refine ⟨fun s hs => ?_, trivial, trivial, trivial⟩
    cases hs
    exact ⟨abVolume, abState, 0, abPair 0, rfl, abImage_mount, abImage_onDisk.state, rfl, rfl⟩
  exact ⟨hc, careful_run_knownGood abMachine_start _ hc⟩

end NexoOS.Update
