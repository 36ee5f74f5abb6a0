import NexoOS.Fat.Directory

/-!
# Well-formed volumes

A volume is well formed when every directory and file reachable from the root
has a proper chain and no cluster belongs to two of them. Clusters nobody owns
may hold anything, also a used mark. What a reader sees depends on owned
clusters only, so images that agree on these read the same.
-/

namespace NexoOS.Fat

open List

/-- Whom a cluster belongs to: the root directory, or entry `i` of the
directory at cluster `d`. -/
inductive Owner where
  | root
  | entry (d i : Nat)
  deriving DecidableEq

namespace Volume

variable {v : Volume} {img img' img'' : Image} {owner : Nat → Option Owner} {o o' : Owner}
  {d i : Nat} {x : Entry} {S : Nat → Prop}

/-- The directories reachable from the root, with their owner and cluster. -/
inductive IsDir (v : Volume) (img : Image) : Owner → Nat → Prop where
  | root : IsDir v img .root 0
  | sub {o : Owner} {d i : Nat} {x : Entry} (h : IsDir v img o d) (hx : (i, x) ∈ v.entries img d)
      (hdir : x.isDir = true) : IsDir v img (.entry d i) x.cluster

/-- The chain of a file covers its size; an empty file may have none. -/
inductive FileChain (v : Volume) (img : Image) (x : Entry) : List Nat → Prop where
  | empty (hc : x.cluster < 2) (hs : x.size = 0) : FileChain v img x []
  | chain {cs : List Nat} (h : v.Chain img x.cluster cs)
      (hs : x.size ≤ cs.length * v.clusterBytes) : FileChain v img x cs

/-- Every directory and file has a chain of its own. Names and short names of
a directory share one space: no record has the short form of another's name. -/
structure WellFormed (v : Volume) (img : Image) (owner : Nat → Option Owner) : Prop where
  geometry : v.Geometry
  dir : ∀ o d, v.IsDir img o d → ∃ cs, v.DirChain img d cs ∧ ∀ c ∈ cs, owner c = some o
  sub_ne : ∀ o d, v.IsDir img o d → ∀ i x, (i, x) ∈ v.entries img d → x.isDir = true →
    x.cluster ≠ 0
  file : ∀ o d, v.IsDir img o d → ∀ i x, (i, x) ∈ v.entries img d → x.isDir = false →
    ∃ cs, v.FileChain img x cs ∧ ∀ c ∈ cs, owner c = some (.entry d i)
  names : ∀ o d, v.IsDir img o d → ∀ i x, (i, x) ∈ v.entries img d → ∀ j r, j ≠ i →
    Reached (v.dirRecords img d) j r → isPlain r → name83 x.name ≠ some (bytes r 0 11)
  legal : ∀ o d, v.IsDir img o d → ∀ j r, Reached (v.dirRecords img d) j r → isPlain r →
    0x5c ∉ bytes r 0 11

/-! ## Owners -/

theorem WellFormed.owner_zero (hw : v.WellFormed img owner) (h : v.IsDir img o 0) : o = .root := by
  generalize hd : 0 = d at h
  cases h with
  | root => rfl
  | sub h hx hdir => exact absurd hd.symm (hw.sub_ne _ _ h _ _ hx hdir)

theorem WellFormed.owner_unique (hw : v.WellFormed img owner) (h : v.IsDir img o d)
    (h' : v.IsDir img o' d) : o = o' := by
  obtain ⟨cs, hcs, hown⟩ := hw.dir o d h
  obtain ⟨cs', hcs', hown'⟩ := hw.dir o' d h'
  cases hcs with
  | fixed hd =>
    subst hd
    rw [hw.owner_zero h, hw.owner_zero h']
  | chain hd hc =>
    cases hcs' with
    | fixed hd' hk => exact absurd (hd hd') hk
    | chain _ hc' => exact Option.some.inj ((hown _ hc.head).symm.trans (hown' _ hc'.head))

theorem WellFormed.forget (hw : v.WellFormed img owner) :
    v.WellFormed img fun c => if v.fatRaw img c = .ok 0 then none else owner c where
  __ := hw
  dir := by
    intro o d hd
    obtain ⟨cs, hcs, hown⟩ := hw.dir o d hd
    refine ⟨cs, hcs, fun c hc => ?_⟩
    cases hcs with
    | fixed => cases hc
    | chain _ h => rw [if_neg (h.not_free c hc), hown c hc]
  file := by
    intro o d hd i x hx hfile
    obtain ⟨cs, hcs, hown⟩ := hw.file o d hd i x hx hfile
    refine ⟨cs, hcs, fun c hc => ?_⟩
    cases hcs with
    | empty => cases hc
    | chain h => rw [if_neg (h.not_free c hc), hown c hc]

/-! ## Images that agree -/

/-- The images agree outside the clusters `S`: boot sector, fixed root
directory, and for every other cluster its entry and its data. -/
structure Agree (v : Volume) (img img' : Image) (S : Nat → Prop) : Prop where
  base : img' v.base = img v.base
  root : ∀ i < v.rootDirSectors, img' (v.rootDirStart + i) = img (v.rootDirStart + i)
  raw : ∀ c, v.InRange c → ¬ S c → v.fatRaw img' c = v.fatRaw img c
  data : ∀ c, v.InRange c → ¬ S c → ∀ k < v.sectorsPerCluster,
    img' (v.clusterStart c + k) = img (v.clusterStart c + k)

theorem Agree.refl (v : Volume) (img : Image) (S : Nat → Prop) : v.Agree img img S :=
  ⟨rfl, fun _ _ => rfl, fun _ _ _ => rfl, fun _ _ _ _ _ => rfl⟩

theorem Agree.trans (h : v.Agree img img' S) (h' : v.Agree img' img'' S) : v.Agree img img'' S where
  base := h'.base.trans h.base
  root := fun i hi => (h'.root i hi).trans (h.root i hi)
  raw := fun c hc hS => (h'.raw c hc hS).trans (h.raw c hc hS)
  data := fun c hc hS k hk => (h'.data c hc hS k hk).trans (h.data c hc hS k hk)

theorem Agree.mono {S' : Nat → Prop} (h : v.Agree img img' S) (hS : ∀ c, S c → S' c) :
    v.Agree img img' S' where
  __ := h
  raw := fun c hc hc' => h.raw c hc fun hs => hc' (hS c hs)
  data := fun c hc hc' => h.data c hc fun hs => hc' (hS c hs)

variable {c : Nat} {cs : List Nat} {ns : List (List UInt8)} {path bs : List UInt8}

theorem Agree.chain (h : v.Agree img img' S) (hc : v.Chain img c cs) (hS : ∀ x ∈ cs, ¬ S x) :
    v.Chain img' c cs :=
  hc.congr fun x hx => h.raw x (hc.inRange x hx) (hS x hx)

theorem Agree.dirChain (h : v.Agree img img' S) (hd : v.DirChain img d cs) (hS : ∀ x ∈ cs, ¬ S x) :
    v.DirChain img' d cs := by
  cases hd with
  | fixed hd hk => exact .fixed hd hk
  | chain hd hc hlen => exact .chain hd (h.chain hc hS) hlen

theorem mem_clusterSectors {a : Nat} :
    a ∈ v.clusterSectors c ↔ ∃ k < v.sectorsPerCluster, a = v.clusterStart c + k := by
  simp only [clusterSectors, mem_map, mem_range]
  exact exists_congr fun k => and_congr_right fun _ => eq_comm

theorem Agree.sector (h : v.Agree img img' S) (hd : v.DirChain img d cs) (hS : ∀ x ∈ cs, ¬ S x)
    {a : Nat} (ha : a ∈ v.chainLbas cs) : img' a = img a := by
  unfold chainLbas at ha
  cases hd with
  | fixed hd hk =>
    rw [if_pos rfl, mem_range'_1] at ha
    have := h.root (a - v.rootDirStart) (by omega)
    rwa [show v.rootDirStart + (a - v.rootDirStart) = a by omega] at this
  | chain hd hc hlen =>
    rw [if_neg hc.ne_nil, mem_flatMap] at ha
    obtain ⟨c, hcs, ha⟩ := ha
    obtain ⟨k, hk, rfl⟩ := mem_clusterSectors.1 ha
    exact h.data c (hc.inRange c hcs) (hS c hcs) k hk

theorem flatMap_records_congr {ls : List Nat} (h : ∀ a ∈ ls, img' a = img a) :
    (ls.flatMap fun a => records (img' a)) = ls.flatMap fun a => records (img a) := by
  induction ls with
  | nil => rfl
  | cons a ls ih =>
    rw [flatMap_cons, flatMap_cons, h a mem_cons_self,
      ih fun b hb => h b (mem_cons_of_mem _ hb)]

theorem Agree.dirRecords_eq (g : v.Geometry) (h : v.Agree img img' S) (hd : v.DirChain img d cs)
    (hS : ∀ x ∈ cs, ¬ S x) : v.dirRecords img' d = v.dirRecords img d := by
  rw [dirRecords, dirRecords, hd.dirLbas_eq g, (h.dirChain hd hS).dirLbas_eq g]
  exact flatMap_records_congr fun a ha => h.sector hd hS ha

theorem not_mem_of_owned (hS : ∀ c, S c → owner c = none) (hown : ∀ c ∈ cs, owner c = some o) :
    ∀ x ∈ cs, ¬ S x := by
  intro x hx hs
  have := hown x hx
  rw [hS x hs] at this
  cases this

/-- A change of the clusters `S` that spares the directories and the chains of
all files; the data of a file may change. -/
structure Spares (v : Volume) (img img' : Image) (owner : Nat → Option Owner) (S : Nat → Prop) :
    Prop where
  agree : v.Agree img img' S
  dirs : ∀ o d, v.IsDir img o d → ∀ c, owner c = some o → ¬ S c
  raw : ∀ c, v.InRange c → owner c ≠ none → v.fatRaw img' c = v.fatRaw img c

theorem Agree.spares (h : v.Agree img img' S) (hS : ∀ c, S c → owner c = none) :
    v.Spares img img' owner S where
  agree := h
  dirs := fun _ _ _ c hc hs => nomatch (hS c hs).symm.trans hc
  raw := fun c hc hown => h.raw c hc fun hs => hown (hS c hs)

theorem FileChain.congr (hc : v.FileChain img x cs)
    (hraw : ∀ c ∈ cs, v.fatRaw img' c = v.fatRaw img c) : v.FileChain img' x cs := by
  cases hc with
  | empty hc hs => exact .empty hc hs
  | chain hc hs => exact .chain (hc.congr hraw) hs

theorem FileChain.inRange (hc : v.FileChain img x cs) : ∀ c ∈ cs, v.InRange c := by
  cases hc with
  | empty => exact nofun
  | chain hc _ => exact hc.inRange

section
variable (hw : v.WellFormed img owner) (h : v.Spares img img' owner S)
include hw h

theorem Spares.isDir_records (hd : v.IsDir img o d) : v.dirRecords img' d = v.dirRecords img d := by
  obtain ⟨cs, hcs, hown⟩ := hw.dir o d hd
  exact h.agree.dirRecords_eq hw.geometry hcs fun c hc => h.dirs o d hd c (hown c hc)

theorem Spares.isDir_entries (hd : v.IsDir img o d) : v.entries img' d = v.entries img d := by
  rw [entries, entries, h.isDir_records hw hd]

theorem Spares.isDir_iff : v.IsDir img' o d ↔ v.IsDir img o d := by
  constructor
  · intro hd
    induction hd with
    | root => exact .root
    | sub _ hx hdir ih =>
      rw [h.isDir_entries hw ih] at hx
      exact .sub ih hx hdir
  · intro hd
    induction hd with
    | root => exact .root
    | sub hd hx hdir ih =>
      rw [← h.isDir_entries hw hd] at hx
      exact .sub ih hx hdir

theorem Spares.wellFormed : v.WellFormed img' owner where
  geometry := hw.geometry
  dir := by
    intro o d hd
    have hd := (h.isDir_iff hw).1 hd
    obtain ⟨cs, hcs, hown⟩ := hw.dir o d hd
    exact ⟨cs, h.agree.dirChain hcs fun c hc => h.dirs o d hd c (hown c hc), hown⟩
  sub_ne := by
    intro o d hd i x hx
    have hd := (h.isDir_iff hw).1 hd
    rw [h.isDir_entries hw hd] at hx
    exact hw.sub_ne o d hd i x hx
  file := by
    intro o d hd i x hx hfile
    have hd := (h.isDir_iff hw).1 hd
    rw [h.isDir_entries hw hd] at hx
    obtain ⟨cs, hcs, hown⟩ := hw.file o d hd i x hx hfile
    refine ⟨cs, hcs.congr fun c hc => h.raw c (hcs.inRange c hc) ?_, hown⟩
    rw [hown c hc]
    exact nofun
  names := by
    intro o d hd
    have hd := (h.isDir_iff hw).1 hd
    rw [h.isDir_entries hw hd, h.isDir_records hw hd]
    exact hw.names o d hd
  legal := by
    intro o d hd
    have hd := (h.isDir_iff hw).1 hd
    rw [h.isDir_records hw hd]
    exact hw.legal o d hd

end

/-! ## Resolving paths -/

/-- The components lead from the root to the entry `x` of owner `o`. -/
inductive Resolves (v : Volume) (img : Image) : List (List UInt8) → Owner → Entry → Prop where
  | root : Resolves v img [] .root rootEntry
  | step {ns : List (List UInt8)} {o : Owner} {e x : Entry} {n : List UInt8} {i : Nat}
      (h : Resolves v img ns o e) (hdir : e.isDir = true)
      (hfind : (v.entries img e.cluster).find? (fun p => eqIgnoreCase p.2.name n) = some (i, x)) :
      Resolves v img (ns ++ [n]) (.entry e.cluster i) x

theorem Resolves.isDir (h : v.Resolves img ns o x) (hx : x.isDir = true) :
    v.IsDir img o x.cluster := by
  induction h with
  | root => exact .root
  | step _ hdir hfind ih => exact .sub (ih hdir) (mem_of_find?_eq_some hfind) hx

theorem WellFormed.resolves_of_lookupFrom (hw : v.WellFormed img owner) {ms : List (List UInt8)}
    {e : Entry} (hr : v.Resolves img ns o e) (h : v.lookupFrom img e ms = .ok x) :
    ∃ o', v.Resolves img (ns ++ ms) o' x := by
  induction ms generalizing ns o e with
  | nil =>
    rw [lookupFrom] at h
    exact ⟨o, by rw [append_nil]; exact Except.ok.inj h ▸ hr⟩
  | cons n ms ih =>
    rw [lookupFrom] at h
    split at h
    · rename_i hdir
      obtain ⟨cs, hcs, _⟩ := hw.dir o _ (hr.isDir hdir)
      rw [findInDir_eq hw.geometry hcs] at h
      cases hfind : (v.entries img e.cluster).find? fun p => eqIgnoreCase p.2.name n with
      | none =>
        rw [hfind] at h
        cases h
      | some p =>
        obtain ⟨i, y⟩ := p
        rw [hfind] at h
        obtain ⟨o', hr'⟩ := ih (.step hr hdir hfind) h
        exact ⟨o', by rwa [append_assoc] at hr'⟩
    · cases h

theorem WellFormed.resolves_of_lookup (hw : v.WellFormed img owner)
    (h : v.lookup img path = .ok x) : ∃ o, v.Resolves img (components path) o x :=
  hw.resolves_of_lookupFrom .root h

theorem lookupFrom_append (e : Entry) (ns ms : List (List UInt8)) : v.lookupFrom img e (ns ++ ms) =
      match v.lookupFrom img e ns with
      | .error e => .error e
      | .ok e => v.lookupFrom img e ms := by
  induction ns generalizing e with
  | nil => rfl
  | cons n ns ih =>
    rw [cons_append, lookupFrom, lookupFrom]
    split
    · cases v.findInDir img e.cluster n with
      | error e => rfl
      | ok y =>
        cases y with
        | none => rfl
        | some y => exact ih y
    · rfl

theorem WellFormed.lookupFrom_of_resolves (hw : v.WellFormed img owner)
    (h : v.Resolves img ns o x) : v.lookupFrom img rootEntry ns = .ok x := by
  induction h with
  | root => rfl
  | @step ns o e x n i hr hdir hfind ih =>
    obtain ⟨cs, hcs, _⟩ := hw.dir o _ (hr.isDir hdir)
    rw [lookupFrom_append, ih]
    dsimp only
    rw [lookupFrom, if_pos hdir, findInDir_eq hw.geometry hcs, hfind]
    rfl

theorem Spares.resolves (hw : v.WellFormed img owner) (h : v.Spares img img' owner S)
    (hr : v.Resolves img ns o x) : v.Resolves img' ns o x := by
  induction hr with
  | root => exact .root
  | step hr hdir hfind ih =>
    rw [← h.isDir_entries hw (hr.isDir hdir)] at hfind
    exact .step ih hdir hfind

/-! ## Reading files -/

/-- What a read sees depends on the entries and data of the chain only. -/
theorem Chain.readLoop_congr (g : v.Geometry) (hc : v.Chain img c cs)
    (hraw : ∀ x ∈ cs, v.fatRaw img' x = v.fatRaw img x)
    (hdata : ∀ x ∈ cs, ∀ k < v.sectorsPerCluster,
      img' (v.clusterStart x + k) = img (v.clusterStart x + k)) (fuel pos n : Nat) :
    v.readLoop img' fuel c pos n = v.readLoop img fuel c pos n := by
  induction fuel generalizing c cs pos n with
  | zero => rfl
  | succ fuel ih =>
    have hsec : img' (v.clusterStart c + pos % v.clusterBytes / sectorBytes) =
        img (v.clusterStart c + pos % v.clusterBytes / sectorBytes) := by
      refine hdata c hc.head _ ?_
      rw [Nat.div_lt_iff_lt_mul (by decide)]
      exact Nat.mod_lt _ (Nat.mul_pos g.spc_pos (by decide))
    rw [readLoop, readLoop, clusterLba_eq g (hc.inRange c hc.head),
      nextCluster_congr (hraw c hc.head)]
    dsimp only
    rw [hsec, ih hc hraw hdata]
    cases hc with
    | last _ hn => rw [hn]
    | link _ hn hrest =>
      rw [hn]
      dsimp only
      rw [ih hrest (fun x hx => hraw x (mem_cons_of_mem _ hx))
        fun x hx => hdata x (mem_cons_of_mem _ hx)]

theorem read_whole (e : Entry) (hfile : e.isDir = false) :
    v.read img e 0 e.size = v.readLoop img e.size e.cluster 0 e.size := by
  unfold read
  rw [hfile, Nat.zero_div, seek, Nat.sub_zero, Nat.min_self]
  simp only [Bool.false_eq_true, if_false]
  split
  · rename_i hle
    rw [Nat.le_zero.1 hle]
    rfl
  · rfl

theorem FileChain.read_congr (g : v.Geometry) (hc : v.FileChain img x cs)
    (hfile : x.isDir = false) (hraw : ∀ x ∈ cs, v.fatRaw img' x = v.fatRaw img x)
    (hdata : ∀ x ∈ cs, ∀ k < v.sectorsPerCluster,
      img' (v.clusterStart x + k) = img (v.clusterStart x + k)) :
    v.read img' x 0 x.size = v.read img x 0 x.size := by
  rw [read_whole x hfile, read_whole x hfile]
  cases hc with
  | empty _ hs =>
    rw [hs]
    rfl
  | chain hc _ => exact hc.readLoop_congr g hraw hdata _ _ _

/-- The file at the end of a path, with its place and chain. -/
theorem WellFormed.file_of_resolves (hw : v.WellFormed img owner) (hr : v.Resolves img ns o x)
    (hfile : x.isDir = false) :
    ∃ o' d i cs, o = .entry d i ∧ v.IsDir img o' d ∧ (i, x) ∈ v.entries img d ∧
      v.FileChain img x cs ∧ ∀ c ∈ cs, owner c = some o := by
  cases hr with
  | root => cases hfile
  | step hr hdir hfind =>
    have hx := mem_of_find?_eq_some hfind
    obtain ⟨cs, hcs, hown⟩ := hw.file _ _ (hr.isDir hdir) _ _ hx hfile
    exact ⟨_, _, _, cs, rfl, hr.isDir hdir, hx, hcs, hown⟩

theorem readFile_ok (h : v.readFile img path = .ok bs) :
    ∃ x, v.lookup img path = .ok x ∧ x.isDir = false ∧ v.read img x 0 x.size = .ok bs := by
  unfold readFile at h
  split at h
  · cases h
  rename_i x hl
  refine ⟨x, hl, ?_, h⟩
  unfold read at h
  by_contra hdir
  rw [Bool.not_eq_false] at hdir
  rw [if_pos hdir] at h
  cases h

theorem WellFormed.readFile_of_resolves (hw : v.WellFormed img owner)
    (hr : v.Resolves img (components path) o x) : v.readFile img path = v.read img x 0 x.size := by
  rw [readFile, lookup, hw.lookupFrom_of_resolves hr]

/-- The path leads to the same file with the same contents. -/
def SameFile (v : Volume) (img img' : Image) (path : List UInt8) (x : Entry) : Prop :=
  v.lookup img' path = .ok x ∧ v.read img' x 0 x.size = v.read img x 0 x.size

theorem SameFile.trans (h : v.SameFile img img' path x) (h' : v.SameFile img' img'' path x) :
    v.SameFile img img'' path x :=
  ⟨h'.1, h'.2.trans h.2⟩

theorem SameFile.readFile_eq (h : v.SameFile img img' path x)
    (hr : v.read img x 0 x.size = .ok bs) : v.readFile img' path = .ok bs := by
  rw [readFile, h.1]
  exact h.2.trans hr

theorem Spares.sameFile (hw : v.WellFormed img owner) (h : v.Spares img img' owner S)
    (hr : v.Resolves img (components path) o x) (hfile : x.isDir = false)
    (hS : ∀ c, owner c = some o → ¬ S c) : v.SameFile img img' path x := by
  obtain ⟨_, _, _, cs, _, _, _, hcs, hown⟩ := hw.file_of_resolves hr hfile
  refine ⟨(h.wellFormed hw).lookupFrom_of_resolves (h.resolves hw hr), ?_⟩
  have hnot : ∀ c ∈ cs, ¬ S c := fun c hc => hS c (hown c hc)
  exact hcs.read_congr hw.geometry hfile
    (fun c hc => h.agree.raw c (hcs.inRange c hc) (hnot c hc))
    fun c hc => h.agree.data c (hcs.inRange c hc) (hnot c hc)

theorem Agree.sameFile (hw : v.WellFormed img owner) (h : v.Agree img img' S)
    (hS : ∀ c, S c → owner c = none) (hl : v.lookup img path = .ok x) (hfile : x.isDir = false) :
    v.SameFile img img' path x := by
  obtain ⟨o, hr⟩ := hw.resolves_of_lookup hl
  exact (h.spares hS).sameFile hw hr hfile fun c hc hs => nomatch (hS c hs).symm.trans hc

theorem Agree.readFile_eq (hw : v.WellFormed img owner) (h : v.Agree img img' S)
    (hS : ∀ c, S c → owner c = none) (hr : v.readFile img path = .ok bs) :
    v.readFile img' path = .ok bs := by
  obtain ⟨x, hl, hfile, hread⟩ := readFile_ok hr
  exact (h.sameFile hw hS hl hfile).readFile_eq hread

end Volume
end NexoOS.Fat
