import NexoOS.Fat.CrashAtomic

/-!
# Overwriting a file in place

A file of one sector can be replaced by a raw write to its data sector. The
volume stays well formed and every other file is as it was.
-/

namespace NexoOS.Fat.Volume

variable {v : Volume} {img : Image} {owner : Nat → Option Owner} {o : Owner} {x : Entry}
  {path : List UInt8} {lba : Nat}

theorem readLoop_zero (fuel c pos : Nat) : v.readLoop img fuel c pos 0 = .ok [] := by
  cases fuel <;> rfl

theorem readLoop_sector (g : v.Geometry) {c : Nat} (hc : v.InRange c) (fuel : Nat) :
    v.readLoop img (fuel + 1) c 0 sectorBytes =
      .ok (bytes (img (v.clusterStart c)) 0 sectorBytes) := by
  have hmin : min (sectorBytes - 0 % sectorBytes) sectorBytes = sectorBytes := by decide
  rw [readLoop, if_neg (by decide), clusterLba_eq g hc]
  dsimp only
  rw [Nat.zero_mod, hmin, Nat.zero_div, Nat.zero_mod, Nat.add_zero, if_neg fun h => by omega,
    Nat.sub_self, readLoop_zero]
  simp

theorem Chain.read_sector {cs : List Nat} (g : v.Geometry) (hc : v.Chain img x.cluster cs)
    (hfile : x.isDir = false) (hsize : x.size = sectorBytes) :
    v.read img x 0 x.size = .ok (bytes (img (v.clusterStart x.cluster)) 0 sectorBytes) := by
  rw [read_whole x hfile, hsize]
  exact readLoop_sector g (hc.inRange _ hc.head) 511

/-- A file that is not empty has a chain, of its own clusters. -/
theorem WellFormed.chain_of_resolves (hw : v.WellFormed img owner) {ns : List (List UInt8)}
    (hr : v.Resolves img ns o x) (hfile : x.isDir = false) (hsize : 0 < x.size) :
    ∃ cs, v.Chain img x.cluster cs ∧ ∀ c ∈ cs, owner c = some o := by
  obtain ⟨_, _, _, cs, _, _, _, hcs, hown⟩ := hw.file_of_resolves hr hfile
  cases hcs with
  | empty _ hs => omega
  | chain hc _ => exact ⟨cs, hc, hown⟩

/-- Writing the first data sector of a file spares the rest of the volume. -/
theorem WellFormed.spares_write (hw : v.WellFormed img owner) {ns : List (List UInt8)}
    (hr : v.Resolves img ns o x) (hfile : x.isDir = false) (hsize : 0 < x.size) (s : Sector) :
    v.Spares img (img.write (v.clusterStart x.cluster) s) owner (· = x.cluster) := by
  obtain ⟨cs, hc, hown⟩ := hw.chain_of_resolves hr hfile hsize
  have hin := hc.inRange _ hc.head
  have hdata : v.DataOnly img (img.write (v.clusterStart x.cluster) s) x.cluster :=
    fun a ha => Disk.write_of_ne (ha 0 hw.geometry.spc_pos)
  refine ⟨hdata.agree hw.geometry hin, ?_, fun c _ _ => hdata.fatRaw_eq hw.geometry c⟩
  -- the owner is a file, so no directory has the cluster
  rintro o' d hd c hc' rfl
  obtain rfl : o' = o := Option.some.inj (hc'.symm.trans (hown _ hc.head))
  obtain ⟨_, _, _, _, rfl, _, hx, _, _⟩ := hw.file_of_resolves hr hfile
  cases hd with
  | sub _ hy hdir =>
    rw [entriesFrom_index_unique hy hx, hfile] at hdir
    cases hdir

section
variable (hw : v.WellFormed img owner) (hl : v.lookup img path = .ok x) (hfile : x.isDir = false)
  (hsize : x.size = sectorBytes) (hlba : v.clusterLba x.cluster = .ok lba) (s : Sector)
include hw hl hfile hsize hlba

theorem WellFormed.lba_eq : lba = v.clusterStart x.cluster := by
  obtain ⟨o, hr⟩ := hw.resolves_of_lookup hl
  obtain ⟨cs, hc, _⟩ := hw.chain_of_resolves hr hfile (hsize ▸ by decide)
  exact Except.ok.inj (hlba.symm.trans (clusterLba_eq hw.geometry (hc.inRange _ hc.head)))

theorem WellFormed.readFile_sector : v.readFile img path = .ok (bytes (img lba) 0 sectorBytes) := by
  obtain ⟨o, hr⟩ := hw.resolves_of_lookup hl
  obtain ⟨cs, hc, _⟩ := hw.chain_of_resolves hr hfile (hsize ▸ by decide)
  rw [hw.readFile_of_resolves hr, hc.read_sector hw.geometry hfile hsize,
    hw.lba_eq hl hfile hsize hlba]

theorem WellFormed.write_sector :
    v.WellFormed (img.write lba s) owner ∧ img.write lba s v.base = img v.base ∧
      v.lookup (img.write lba s) path = .ok x := by
  obtain ⟨o, hr⟩ := hw.resolves_of_lookup hl
  have hsp := hw.spares_write hr hfile (hsize ▸ by decide) s
  rw [← hw.lba_eq hl hfile hsize hlba] at hsp
  have hw' := hsp.wellFormed hw
  exact ⟨hw', hsp.agree.base, hw'.lookupFrom_of_resolves (hsp.resolves hw hr)⟩

theorem WellFormed.sameFile_write {p : List UInt8} {y : Entry} (hl' : v.lookup img p = .ok y)
    (hfile' : y.isDir = false) (hne : samePath p path = false) :
    v.SameFile img (img.write lba s) p y := by
  obtain ⟨o, hr⟩ := hw.resolves_of_lookup hl
  obtain ⟨o', hr'⟩ := hw.resolves_of_lookup hl'
  have hsp := hw.spares_write hr hfile (hsize ▸ by decide) s
  obtain ⟨cs, hc, hown⟩ := hw.chain_of_resolves hr hfile (hsize ▸ by decide)
  rw [← hw.lba_eq hl hfile hsize hlba] at hsp
  refine hsp.sameFile hw hr' hfile' ?_
  rintro c hc' rfl
  obtain rfl : o' = o := Option.some.inj (hc'.symm.trans (hown _ hc.head))
  exact of_decide_eq_false hne (hr'.components_unique hw hr)

end

end NexoOS.Fat.Volume
