import NexoOS.Fat.Rewrite

/-!
# Chains and directories of a volume

Chains of clusters, the sectors of a directory and its records as plain
lists, and the loops of the reader in terms of them.
-/

namespace NexoOS.Fat.Volume

open List

variable {v : Volume} {img img' : Image} {c n : Nat} {cs ls : List Nat}

/-! ## Geometry -/

/-- The largest cluster number of a volume lies below the reserved values. -/
def clusterLimit : FatKind → Nat
  | .fat12 => 0xff7
  | .fat16 => 0xfff7
  | .fat32 => 0x0ffffff7

/-- The areas of a volume follow one another: boot sector, copies of the
table, fixed root directory, data. -/
structure Geometry (v : Volume) : Prop where
  base_lt : v.base < v.fatStart
  spc_pos : 0 < v.sectorsPerCluster
  fat_pos : 0 < v.fatSectors
  copies : ∃ n, 0 < n ∧ v.rootDirStart = v.fatStart + n * v.fatSectors
  data : v.dataStart = v.rootDirStart + v.rootDirSectors
  sectors_lt : v.totalClusters * v.sectorsPerCluster < 2 ^ 32
  numbers : v.totalClusters + 2 ≤ clusterLimit v.kind
  root_le : v.rootDirSectors ≤ dirSectorsMax

def InRange (v : Volume) (c : Nat) : Prop := 2 ≤ c ∧ c < v.totalClusters + 2

def clusterStart (v : Volume) (c : Nat) : Nat := v.dataStart + (c - 2) * v.sectorsPerCluster

def clusterSectors (v : Volume) (c : Nat) : List Nat :=
  (List.range v.sectorsPerCluster).map (v.clusterStart c + ·)

theorem clusterLba_eq (g : v.Geometry) (hc : v.InRange c) :
    v.clusterLba c = .ok (v.clusterStart c) := by
  have hlt : (c - 2) * v.sectorsPerCluster < 2 ^ 32 :=
    lt_of_le_of_lt (Nat.mul_le_mul_right _ (by have := hc.2; omega)) g.sectors_lt
  unfold clusterLba clusterStart w32
  rw [if_neg (by have := hc.1; have := hc.2; omega), Nat.mod_eq_of_lt hlt]

theorem clusterStart_inj {c' k k' : Nat} (hc : v.InRange c) (hc' : v.InRange c')
    (hk : k < v.sectorsPerCluster) (hk' : k' < v.sectorsPerCluster)
    (h : v.clusterStart c + k = v.clusterStart c' + k') : c = c' ∧ k = k' := by
  have h2 := hc.1
  have h2' := hc'.1
  unfold clusterStart at h
  have hdiv : ∀ a b : Nat, b < v.sectorsPerCluster →
      (a * v.sectorsPerCluster + b) / v.sectorsPerCluster = a := by
    intro a b hb
    rw [mul_comm, Nat.mul_add_div (by omega), Nat.div_eq_of_lt hb, add_zero]
  have hsum : (c - 2) * v.sectorsPerCluster + k = (c' - 2) * v.sectorsPerCluster + k' := by omega
  have hq : c - 2 = c' - 2 := by rw [← hdiv (c - 2) k hk, hsum, hdiv (c' - 2) k' hk']
  have hcc : c = c' := by omega
  subst hcc
  exact ⟨rfl, by omega⟩

/-! ## Chains -/

/-- The clusters linked from `c` to the end of its chain. -/
inductive Chain (v : Volume) (img : Image) : Nat → List Nat → Prop where
  | last {c : Nat} (hc : v.InRange c) (hn : v.nextCluster img c = .ok none) : Chain v img c [c]
  | link {c n : Nat} {cs : List Nat} (hc : v.InRange c)
      (hn : v.nextCluster img c = .ok (some n)) (h : Chain v img n cs) : Chain v img c (c :: cs)

theorem Chain.inRange (h : v.Chain img c cs) : ∀ x ∈ cs, v.InRange x := by
  induction h with
  | last hc => exact fun x hx => mem_singleton.1 hx ▸ hc
  | link hc _ _ ih =>
    intro x hx
    rcases mem_cons.1 hx with rfl | hx
    · exact hc
    · exact ih x hx

theorem Chain.head (h : v.Chain img c cs) : c ∈ cs := by
  cases h <;> exact mem_cons_self

theorem Chain.ne_nil (h : v.Chain img c cs) : cs ≠ [] := ne_nil_of_mem h.head

theorem nextCluster_free (h : v.fatRaw img c = .ok 0) :
    v.nextCluster img c = .error (.corrupted "cadeia de clusters") := by
  unfold nextCluster
  rw [h]
  cases hk : v.kind <;> simp [isEnd, hk]

theorem Chain.not_free (h : v.Chain img c cs) : ∀ x ∈ cs, v.fatRaw img x ≠ .ok 0 := by
  induction h with
  | last hc hn =>
    intro x hx hfree
    rw [mem_singleton.1 hx] at hfree
    rw [nextCluster_free hfree] at hn
    cases hn
  | link hc hn _ ih =>
    intro x hx hfree
    rcases mem_cons.1 hx with rfl | hx
    · rw [nextCluster_free hfree] at hn
      cases hn
    · exact ih x hx hfree

theorem nextCluster_congr (h : v.fatRaw img' c = v.fatRaw img c) :
    v.nextCluster img' c = v.nextCluster img c := by
  unfold nextCluster
  rw [h]

theorem Chain.congr (h : v.Chain img c cs) (hraw : ∀ x ∈ cs, v.fatRaw img' x = v.fatRaw img x) :
    v.Chain img' c cs := by
  induction h with
  | last hc hn =>
    refine .last hc ?_
    rw [nextCluster_congr (hraw _ mem_cons_self), hn]
  | link hc hn _ ih =>
    refine .link hc ?_ (ih fun x hx => hraw x (mem_cons_of_mem _ hx))
    rw [nextCluster_congr (hraw _ mem_cons_self), hn]

theorem Chain.unique {cs' : List Nat} (h : v.Chain img c cs) (h' : v.Chain img c cs') :
    cs = cs' := by
  induction h generalizing cs' with
  | last _ hn =>
    cases h' with
    | last => rfl
    | link _ hn' _ => cases hn.symm.trans hn'
  | link _ hn _ ih =>
    cases h' with
    | last _ hn' => cases hn.symm.trans hn'
    | link _ hn' h' =>
      obtain rfl := Option.some.inj (Except.ok.inj (hn.symm.trans hn'))
      rw [ih h']

theorem Chain.tail_of_mem {x : Nat} (h : v.Chain img c cs) (hx : x ∈ cs) :
    ∃ cs', v.Chain img x cs' ∧ cs'.length ≤ cs.length := by
  induction h with
  | last hc hn =>
    obtain rfl := mem_singleton.1 hx
    exact ⟨_, .last hc hn, le_refl _⟩
  | link hc hn h ih =>
    rcases mem_cons.1 hx with rfl | hx
    · exact ⟨_, .link hc hn h, le_refl _⟩
    · obtain ⟨cs', h', hlen⟩ := ih hx
      exact ⟨cs', h', Nat.le_succ_of_le hlen⟩

theorem Chain.nodup (h : v.Chain img c cs) : cs.Nodup := by
  induction h with
  | last => exact pairwise_singleton _ _
  | @link c n cs hc hn h ih =>
    refine nodup_cons.2 ⟨fun hmem => ?_, ih⟩
    obtain ⟨cs', h', hlen⟩ := h.tail_of_mem hmem
    rw [h'.unique (.link hc hn h), length_cons] at hlen
    omega

/-! ## The sectors of a directory -/

/-- The walk `w` goes over the sectors `ls` and ends. -/
inductive Yields (v : Volume) (img : Image) : Walk → List Nat → Prop where
  | done {w : Walk} (h : v.walkNext img w = .ok none) : Yields v img w []
  | next {w w' : Walk} {lba : Nat} {ls : List Nat}
      (h : v.walkNext img w = .ok (some (lba, w'))) (hs : Yields v img w' ls) :
      Yields v img w (lba :: ls)

def walkLbas (v : Volume) (img : Image) : Nat → Walk → List Nat
  | 0, _ => []
  | left + 1, w =>
    match v.walkNext img w with
    | .ok (some (lba, w)) => lba :: walkLbas v img left w
    | _ => []

def dirLbas (v : Volume) (img : Image) (d : Nat) : List Nat :=
  v.walkLbas img dirSectorsMax (v.walkStart d)

def dirRecords (v : Volume) (img : Image) (d : Nat) : List Record :=
  (v.dirLbas img d).flatMap fun a => records (img a)

theorem Yields.walkLbas_eq {w : Walk} (h : v.Yields img w ls) :
    ∀ left, ls.length ≤ left → v.walkLbas img left w = ls := by
  induction h with
  | done h =>
    intro left _
    cases left with
    | zero => rfl
    | succ left => rw [walkLbas, h]
  | next h _ ih =>
    intro left hlen
    cases left with
    | zero => exact absurd hlen (by simp)
    | succ left =>
      rw [walkLbas, h]
      exact congrArg _ (ih left (by simpa using hlen))

theorem yields_root (v : Volume) (img : Image) (i seen : Nat) :
    v.Yields img { cur := none, fixedNext := some i, seen }
      (List.range' (v.rootDirStart + i) (v.rootDirSectors - i)) := by
  induction hm : v.rootDirSectors - i generalizing i seen with
  | zero => exact .done (by simp only [walkNext]; rw [if_pos (by omega)])
  | succ m ih =>
    have hnext : v.walkNext img { cur := none, fixedNext := some i, seen } =
        .ok (some (v.rootDirStart + i, { cur := none, fixedNext := some (i + 1), seen := seen + 1 })) := by
      simp only [walkNext]
      rw [if_neg (by omega)]
    exact .next hnext (ih (i + 1) (seen + 1) (by omega))

/-- The sectors of one cluster, from number `i` on, then those after it. -/
theorem yields_cluster (g : v.Geometry) (hc : v.InRange c) {next : Option Nat} {k : Nat}
    {fixed : Option Nat} (hn : v.nextCluster img c = .ok next) (hrest : v.Yields img
      { cur := next, fixedNext := if next.isNone then some (2 ^ 32 - 1) else fixed,
        seen := (k + 1) * v.sectorsPerCluster } ls) {i : Nat} (hi : i < v.sectorsPerCluster) :
    v.Yields img { cur := some c, fixedNext := fixed, seen := k * v.sectorsPerCluster + i }
      ((List.range' i (v.sectorsPerCluster - i)).map (v.clusterStart c + ·) ++ ls) := by
  have hmod : ∀ j, j < v.sectorsPerCluster → (k * v.sectorsPerCluster + j) % v.sectorsPerCluster = j := by
    intro j hj
    rw [mul_comm, Nat.mul_add_mod, Nat.mod_eq_of_lt hj]
  induction hm : v.sectorsPerCluster - i generalizing i with
  | zero => omega
  | succ m ih =>
    rw [List.range'_succ, map_cons, cons_append]
    by_cases hlast : i + 1 = v.sectorsPerCluster
    · obtain rfl : m = 0 := by omega
      refine .next ?_ hrest
      simp only [walkNext]
      rw [clusterLba_eq g hc, hmod i hi]
      simp only [hlast, if_true, hn]
      congr 3
      rw [add_assoc, hlast, add_mul, one_mul]
    · refine .next ?_ (ih (by omega) (by omega))
      simp only [walkNext]
      rw [clusterLba_eq g hc, hmod i hi]
      simp only [hlast, if_false]
      rfl

theorem Chain.yields (g : v.Geometry) (h : v.Chain img c cs) (k : Nat) (fixed : Option Nat) :
    v.Yields img { cur := some c, fixedNext := fixed, seen := k * v.sectorsPerCluster }
      (cs.flatMap v.clusterSectors) := by
  have hsec : ∀ c, v.clusterSectors c = (List.range' 0 (v.sectorsPerCluster - 0)).map
      (v.clusterStart c + ·) := by
    intro c
    rw [clusterSectors, range_eq_range', Nat.sub_zero]
  induction h generalizing k fixed with
  | @last c hc hn =>
    rw [flatMap_cons, hsec]
    refine yields_cluster g hc hn (.done ?_) g.spc_pos
    have := g.root_le
    simp only [walkNext, Option.isNone_none, if_true]
    rw [if_pos (by simp only [dirSectorsMax] at this; omega)]
  | @link c n cs hc hn _ ih =>
    rw [flatMap_cons, hsec]
    exact yields_cluster g hc hn (ih (k + 1) fixed) g.spc_pos

/-- The chain of a directory; the fixed root directory has none. -/
inductive DirChain (v : Volume) (img : Image) (d : Nat) : List Nat → Prop where
  | fixed (hd : d = 0) (hk : v.kind ≠ .fat32) : DirChain v img d []
  | chain {cs : List Nat} (hd : d = 0 → v.kind = .fat32)
      (h : v.Chain img (if d = 0 then v.rootCluster else d) cs)
      (hlen : cs.length * v.sectorsPerCluster ≤ dirSectorsMax) : DirChain v img d cs

def chainLbas (v : Volume) (cs : List Nat) : List Nat :=
  if cs = [] then List.range' v.rootDirStart v.rootDirSectors else cs.flatMap v.clusterSectors

theorem length_flatMap_clusterSectors (cs : List Nat) :
    (cs.flatMap v.clusterSectors).length = cs.length * v.sectorsPerCluster := by
  induction cs with
  | nil => simp
  | cons c cs ih =>
    rw [flatMap_cons, length_append, ih, length_cons, add_mul, one_mul,
      add_comm]
    simp [clusterSectors]

theorem DirChain.yields (g : v.Geometry) {d : Nat} (h : v.DirChain img d cs) :
    v.Yields img (v.walkStart d) (v.chainLbas cs) ∧ (v.chainLbas cs).length ≤ dirSectorsMax := by
  cases h with
  | fixed hd hk =>
    refine ⟨?_, by simpa [chainLbas] using g.root_le⟩
    have := yields_root v img 0 0
    simpa [walkStart, chainLbas, hd, hk] using this
  | chain hd h hlen =>
    have hne := h.ne_nil
    refine ⟨?_, by rwa [chainLbas, if_neg hne, length_flatMap_clusterSectors]⟩
    have hstart : v.walkStart d =
        { cur := some (if d = 0 then v.rootCluster else d), fixedNext := none,
          seen := 0 * v.sectorsPerCluster } := by
      unfold walkStart
      rw [if_neg (fun hcon => hcon.2 (hd hcon.1)), Nat.zero_mul]
      rfl
    rw [hstart, chainLbas, if_neg hne]
    exact h.yields g 0 none

theorem DirChain.dirLbas_eq (g : v.Geometry) {d : Nat} (h : v.DirChain img d cs) :
    v.dirLbas img d = v.chainLbas cs :=
  (h.yields g).1.walkLbas_eq _ (h.yields g).2

end NexoOS.Fat.Volume
