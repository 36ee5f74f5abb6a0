import NexoOS.Fat.Table

/-!
# Building the new chain

The first phase of `rewrite_file`: clusters that were free are linked and
filled with the new contents. No other cluster changes at any cut, and at the
end the chain holds the contents.
-/

namespace NexoOS.Fat.Volume

open Function List Prog

variable {v : Volume} {img img' : Image} {c : Nat} {cs : List Nat} {new : List UInt8}

/-! ## Allocation -/

def Free (v : Volume) (img : Image) (c : Nat) : Prop := v.fatRaw img c = .ok 0

/-- Some cluster is free on `img` and not on `d`. -/
def Loses (v : Volume) (img d : Image) : Prop := ∃ c, v.InRange c ∧ v.Free img c ∧ ¬ v.Free d c

theorem firstFree_ok (h : v.firstFree img cs = .ok c) : c ∈ cs ∧ v.Free img c := by
  induction cs with
  | nil => cases h
  | cons x cs ih =>
    rw [firstFree] at h
    split at h
    · cases h
    rename_i n hraw
    split at h
    · rename_i hn
      cases h
      exact ⟨mem_cons_self, by rw [Free, hraw, hn]⟩
    · exact ⟨mem_cons_of_mem _ (ih h).1, (ih h).2⟩

theorem allocCluster_ok {hint : Nat} (h : v.allocCluster hint img = .ok c) :
    v.InRange c ∧ v.Free img c := by
  unfold allocCluster at h
  dsimp only at h
  split at h
  · cases h
  obtain ⟨hmem, hfree⟩ := firstFree_ok h
  refine ⟨?_, hfree⟩
  rw [mem_append, mem_range'_1, mem_range'_1] at hmem
  unfold InRange
  omega

theorem clusterLimit_lt (k : FatKind) : clusterLimit k < valueLimit k := by
  cases k <;> decide

theorem eoc_lt (v : Volume) : v.eoc < valueLimit v.kind := by
  unfold eoc
  cases v.kind <;> decide

theorem not_free_of_eoc (h : v.fatRaw img c = .ok v.eoc) : ¬ v.Free img c := by
  intro hfree
  have hzero : v.eoc = 0 := Except.ok.inj (h.symm.trans hfree)
  unfold eoc at hzero
  cases hk : v.kind <;> rw [hk] at hzero <;> cases hzero

/-- The first byte of an entry that ends a chain is enough to see that it is not free. -/
theorem rawOf_eoc {B B' : Nat → UInt8}
    (h : B' (v.entryStart c) = v.bytesWith B c v.eoc (v.entryStart c)) : v.rawOf B' c ≠ 0 := by
  unfold entryStart bytesWith eoc at h
  unfold rawOf
  cases hk : v.kind with
  | fat32 =>
    rw [hk] at h
    have hput := leAt_putLe B (c * 4) 4 (leAt B (c * 4) 4 / 2 ^ 28 * 2 ^ 28 + 0x0fffffff % 2 ^ 28)
    dsimp only at h ⊢
    rw [leAt] at hput
    rw [leAt, h]
    omega
  | fat16 =>
    rw [hk] at h
    have hput := leAt_putLe B (c * 2) 2 0xffff
    dsimp only at h ⊢
    rw [leAt] at hput
    rw [leAt, h]
    omega
  | fat12 =>
    rw [hk] at h
    dsimp only at h ⊢
    rw [update_of_ne (by omega), update_self] at h
    rw [h, lo12]
    split <;> simp only [UInt8.toNat_ofNat'] <;> omega

theorem tableWrites_head (hcopies : 0 < v.fatCopies) (img : Image) (c value : Nat) :
    ∃ s ws, v.tableWrites (v.fatSectorsWith img c value) =
      (v.fatStart + 0 * v.fatSectors + v.entryStart c / sectorBytes, s) :: ws := by
  obtain ⟨n, hn⟩ := Nat.exists_eq_succ_of_ne_zero (Nat.ne_of_gt hcopies)
  rw [tableWrites, hn, range_succ_eq_map, flatMap_cons]
  unfold fatSectorsWith entryStart
  cases v.kind with
  | fat32 | fat16 => exact ⟨_, _, rfl⟩
  | fat12 =>
    dsimp only
    split <;> exact ⟨_, _, rfl⟩

/-- A cut of `fat_set` comes before its first write, or the entry is not free any more. -/
theorem not_free_of_cut (g : v.Geometry) (ht : v.InTable c)
    (hcut : Disk.Cut Disk.whole img (v.tableWrites (v.fatSectorsWith img c v.eoc)) img') :
    img' = img ∨ ¬ v.Free img' c := by
  obtain ⟨s, ws, hws⟩ := tableWrites_head g.fatCopies_eq.1 img c v.eoc
  have hwidth : 0 < v.entryWidth := by
    unfold entryWidth
    cases v.kind <;> decide
  have hsec : v.entryStart c / sectorBytes < v.fatSectors :=
    lt_of_le_of_lt (Nat.div_le_div_right (by omega)) ht
  have hnew : ∀ b, (v.fatStart + 0 * v.fatSectors + v.entryStart c / sectorBytes, b) ∈
      v.tableWrites (v.fatSectorsWith img c v.eoc) → b (v.entryStart c % sectorBytes) =
        v.bytesWith (v.fatByte img) c v.eoc (v.entryStart c) := fun b hb => by
    rw [tableWrites_bytes ht hsec (Nat.mod_lt _ (by decide)) hb, div_mul_add_mod]
  rw [hws] at hcut hnew
  cases hcut with
  | here => exact .inl rfl
  | torn h => exact h.elim
  | step hcut =>
    refine .inr fun hfree => rawOf_eoc (B := v.fatByte img) ?_
      (Except.ok.inj ((fatRaw_of_inTable ht).symm.trans hfree))
    rw [fatByte, show v.fatStart = v.fatStart + 0 * v.fatSectors by omega]
    rcases hcut.mem _ with h | ⟨b, hb, h⟩
    · rw [h, Disk.write_self]
      exact hnew s mem_cons_self
    · rw [h]
      exact hnew b (mem_cons_of_mem _ hb)

theorem nextCluster_eoc (h : v.fatRaw img c = .ok v.eoc) : v.nextCluster img c = .ok none := by
  have hend : v.isEnd v.eoc = true := by
    unfold isEnd eoc
    cases v.kind <;> rfl
  rw [nextCluster, h]
  simp only [hend, if_true]

theorem nextCluster_link {n : Nat} (g : v.Geometry) (hn : v.InRange n)
    (h : v.fatRaw img c = .ok n) : v.nextCluster img c = .ok (some n) := by
  have hlt : n < clusterLimit v.kind := lt_of_lt_of_le hn.2 g.numbers
  have hend : v.isEnd n = false := by
    unfold isEnd
    unfold clusterLimit at hlt
    cases hk : v.kind <;> rw [hk] at hlt <;> dsimp only at hlt ⊢ <;>
      rw [decide_eq_false_iff_not] <;> omega
  rw [nextCluster, h]
  simp only [hend, Bool.false_eq_true, if_false]
  rw [if_neg (by have := hn.1; omega)]

theorem Chain.snoc {first prev : Nat} (h : v.Chain img first cs) (hnd : cs.Nodup)
    (hlast : cs.getLast? = some prev) (hc : v.InRange c)
    (hsame : ∀ x ∈ cs, x ≠ prev → v.fatRaw img' x = v.fatRaw img x)
    (hprev : v.nextCluster img' prev = .ok (some c)) (hnew : v.nextCluster img' c = .ok none) :
    v.Chain img' first (cs ++ [c]) := by
  induction h with
  | last hf _ =>
    cases hlast
    exact .link hf hprev (.last hc hnew)
  | @link first n cs hf hn hrest ih =>
    rw [nodup_cons] at hnd
    rw [List.getLast?_cons_of_ne_nil hrest.ne_nil] at hlast
    have hne : first ≠ prev := by
      rintro rfl
      exact hnd.1 (mem_of_getLast? hlast)
    refine .link hf ?_ (ih hnd.2 hlast fun x hx => hsame x (mem_cons_of_mem _ hx))
    rw [nextCluster_congr (hsame first mem_cons_self hne), hn]

/-! ## The data of one cluster -/

/-- The images differ in the data of cluster `c` only. -/
def DataOnly (v : Volume) (img img' : Image) (c : Nat) : Prop :=
  ∀ a, (∀ k < v.sectorsPerCluster, a ≠ v.clusterStart c + k) → img' a = img a

theorem DataOnly.fatRaw_eq (g : v.Geometry) (h : v.DataOnly img img' c) (x : Nat) :
    v.fatRaw img' x = v.fatRaw img x := by
  have hdata := g.data
  exact fatRaw_congr g (fun a _ ha => h a fun k _ => by rw [clusterStart]; omega) x

theorem DataOnly.agree (g : v.Geometry) (hc : v.InRange c) (h : v.DataOnly img img' c) :
    v.Agree img img' (· = c) := by
  have hdata := g.data
  have hbase := g.base_lt
  have hroot := g.fatCopies_eq.2
  refine ⟨h _ fun k _ => by rw [clusterStart]; omega,
    fun i hi => h _ fun k _ => by rw [clusterStart]; omega,
    fun x _ _ => h.fatRaw_eq g x, fun x hx hne k hk => h _ fun k' hk' heq => ?_⟩
  exact hne (clusterStart_inj hx hc hk hk' heq).1

/-- What the caller hands over are the new contents, or nothing. -/
def Supplies (source : Source) (new : List UInt8) : Prop :=
  ∀ off n bs, source off n = some bs → bs = (new.drop off).take n

/-- Sector `k` of a cluster whose data start at `off` of the contents. -/
def SectorData (new : List UInt8) (s : Sector) (pos : Nat) : Prop :=
  ∀ i < sectorBytes, pos + i < new.length → s i = new.getD (pos + i) 0

theorem holds_writeData {source : Source} (hsrc : Supplies source new) (off₀ n k off : Nat)
    (hk : n + k = v.sectorsPerCluster) (hoff : off = min new.length (off₀ + k * sectorBytes)) :
    Prog.Holds Disk.whole (writeData new.length source (v.clusterStart c) n k off) () img
      (fun d => v.DataOnly img d c) (fun r _ d => v.DataOnly img d c ∧ ∀ off', r = .ok off' →
        off' = min new.length (off₀ + v.sectorsPerCluster * sectorBytes) ∧
        (∀ j < k, d (v.clusterStart c + j) = img (v.clusterStart c + j)) ∧
        ∀ j < v.sectorsPerCluster, k ≤ j →
          SectorData new (d (v.clusterStart c + j)) (off₀ + j * sectorBytes)) := by
  have hrefl : v.DataOnly img img c := fun _ _ => rfl
  induction n generalizing k off img with
  | zero =>
    refine holds_pure hrefl ⟨hrefl, fun off' h => ?_⟩
    cases h
    obtain rfl : k = v.sectorsPerCluster := by omega
    exact ⟨hoff, fun _ _ => rfl, fun j hj hkj => by omega⟩
  | succ n ih =>
    rw [writeData]
    by_cases htake : min (new.length - off) sectorBytes = 0
    · -- the contents ended before this sector
      rw [if_pos htake]
      have hpos : 0 < sectorBytes := by decide
      have hend : new.length ≤ off₀ + k * sectorBytes := by omega
      refine holds_pure hrefl ⟨hrefl, fun off' h => ?_⟩
      cases h
      have hle : ∀ j, k ≤ j → off₀ + k * sectorBytes ≤ off₀ + j * sectorBytes :=
        fun j hj => Nat.add_le_add_left (Nat.mul_le_mul_right _ hj) _
      refine ⟨?_, fun _ _ => rfl, fun j _ hkj i _ hlt => ?_⟩
      · have := hle v.sectorsPerCluster (by omega)
        omega
      · have := hle j hkj
        omega
    · rw [if_neg htake]
      rcases hs : source off (min (new.length - off) sectorBytes) with _ | bs
      · exact holds_fail hrefl ⟨hrefl, fun _ h => nomatch h⟩
      have hbs := hsrc _ _ _ hs
      dsimp only
      have hoff' : off = off₀ + k * sectorBytes := by omega
      have hkspc : k < v.sectorsPerCluster := by omega
      have hdata : SectorData new (dataSector (min (new.length - off) sectorBytes) bs)
          (off₀ + k * sectorBytes) := by
        intro i hi hlt
        have hlt' : i < min (new.length - off) sectorBytes := by omega
        rw [dataSector, if_pos hlt', hbs, ← hoff']
        simp only [getD_eq_getElem?_getD, List.getElem?_take, hlt', if_true,
          List.getElem?_drop]
      generalize dataSector (min (new.length - off) sectorBytes) bs = sec at hdata ⊢
      have honly : v.DataOnly img (img.write (v.clusterStart c + k) sec) c := by
        intro a ha
        exact Disk.write_of_ne (ha k hkspc)
      refine holds_bind_write hrefl (fun _ h => h.elim) ?_
      refine (ih (k + 1) _ (by omega) ?_ (fun _ _ => rfl)).imp (fun d h a ha => ?_)
        (fun r _ d h => ⟨fun a ha => ?_, fun off' hr => ?_⟩)
      · rw [add_mul, one_mul]
        omega
      · rw [h a ha, honly a ha]
      · rw [h.1 a ha, honly a ha]
      · obtain ⟨hres, hbefore, hafter⟩ := h.2 off' hr
        refine ⟨hres, fun j hj => ?_, fun j hj hkj => ?_⟩
        · rw [hbefore j (by omega), Disk.write_of_ne (by omega)]
        by_cases hjk : j = k
        · subst hjk
          rw [hbefore j (by omega), Disk.write_self]
          exact hdata
        · exact hafter j hj (by omega)

/-! ## The chain -/

/-- The new chain as far as it was built on the image `d`: clusters that were
free in `img`, linked from `first` to `prev`, with the contents in them. -/
structure Built (v : Volume) (img d : Image) (new : List UInt8) (first prev : Nat)
    (cs : List Nat) : Prop where
  agree : v.Agree img d (v.Free img)
  nodup : cs.Nodup
  free : ∀ c ∈ cs, v.Free img c
  empty : cs = [] → first = 0 ∧ prev = 0 ∧ d = img
  chain : cs ≠ [] → v.Chain d first cs ∧ cs.getLast? = some prev
  data : ∀ j c, cs[j]? = some c → ∀ k < v.sectorsPerCluster,
    SectorData new (d (v.clusterStart c + k)) ((j * v.sectorsPerCluster + k) * sectorBytes)

section
variable {d d₁ d₂ d₃ : Image} {first prev : Nat}

section
variable (hb : v.Built img d new first prev cs)
include hb

theorem Built.inRange : ∀ x ∈ cs, v.InRange x := by
  intro x hx
  exact (hb.chain (ne_nil_of_mem hx)).1.inRange x hx

/-- A cluster that is free now was free before and is not in the chain. -/
theorem Built.fresh (hc : v.InRange c) (hfree : v.Free d c) : v.Free img c ∧ c ∉ cs := by
  constructor
  · by_contra hn
    exact hn ((hb.agree.raw c hc hn).symm.trans hfree)
  · intro hmem
    exact (hb.chain (ne_nil_of_mem hmem)).1.not_free c hmem hfree

theorem Built.loses (hcs : cs ≠ []) : v.Loses img d := by
  obtain ⟨c, hc⟩ := exists_mem_of_ne_nil cs hcs
  exact ⟨c, hb.inRange c hc, hb.free c hc, (hb.chain hcs).1.not_free c hc⟩

theorem Built.start : v.Agree img d (v.Free img) ∧ (d = img ∨ v.Loses img d) := by
  by_cases hcs : cs = []
  · exact ⟨hb.agree, .inl (hb.empty hcs).2.2⟩
  · exact ⟨hb.agree, .inr (hb.loses hcs)⟩

theorem Built.prev_ne_zero : prev ≠ 0 ↔ cs ≠ [] := by
  constructor
  · rintro hprev rfl
    exact hprev (hb.empty rfl).2.1
  · intro hne
    have := (hb.inRange prev (mem_of_getLast? (hb.chain hne).2)).1
    omega

end

/-- One more cluster: its entry ends the chain, the last one links to it, its
data are written. -/
theorem Built.extend (g : v.Geometry) (hb : v.Built img d new first prev cs) (hc : v.InRange c)
    (hfree : v.Free d c) (h₁ : v.TableOnly d d₁ c) (heoc : v.fatRaw d₁ c = .ok v.eoc)
    (h₂ : cs ≠ [] → v.TableOnly d₁ d₂ prev ∧ v.fatRaw d₂ prev = .ok c) (h₂' : cs = [] → d₂ = d₁)
    (h₃ : v.DataOnly d₂ d₃ c)
    (hdata : ∀ k < v.sectorsPerCluster, SectorData new (d₃ (v.clusterStart c + k))
      ((cs.length * v.sectorsPerCluster + k) * sectorBytes)) :
    v.Built img d₃ new (if prev ≠ 0 then first else c) c (cs ++ [c]) := by
  obtain ⟨hfree₀, hnew⟩ := hb.fresh hc hfree
  have hagree₂ : v.Agree d₁ d₂ (v.Free img) := by
    by_cases hcs : cs = []
    · rw [h₂' hcs]
      exact .refl ..
    · refine ((h₂ hcs).1.agree g).mono fun x hx => hx ▸ ?_
      exact hb.free prev (mem_of_getLast? (hb.chain hcs).2)
  have hne : ∀ x ∈ cs, x ≠ c := fun x hx h => hnew (h ▸ hx)
  have hraw₂ : ∀ x, x ≠ prev ∨ cs = [] → v.fatRaw d₃ x = v.fatRaw d₁ x := by
    intro x hx
    rw [h₃.fatRaw_eq g]
    by_cases hcs : cs = []
    · rw [h₂' hcs]
    · exact (h₂ hcs).1.raw x (hx.resolve_right hcs)
  refine ⟨?_, ?_, ?_, fun h => absurd h (by simp), fun _ => ⟨?_, by simp⟩, ?_⟩
  · exact ((hb.agree.trans ((h₁.agree g).mono fun x hx => hx ▸ hfree₀)).trans hagree₂).trans
      ((h₃.agree g hc).mono fun x hx => hx ▸ hfree₀)
  · rw [nodup_append]
    exact ⟨hb.nodup, pairwise_singleton _ c, fun x hx y hy => by
      rw [mem_singleton.1 hy]; exact hne x hx⟩
  · intro x hx
    rcases mem_append.1 hx with hx | hx
    · exact hb.free x hx
    · exact mem_singleton.1 hx ▸ hfree₀
  · by_cases hcs : cs = []
    · have hprev : ¬ prev ≠ 0 := fun h => hb.prev_ne_zero.1 h hcs
      rw [if_neg hprev, hcs]
      exact .last hc (nextCluster_eoc ((hraw₂ c (.inr hcs)).trans heoc))
    obtain ⟨hchain, hlast⟩ := hb.chain hcs
    have hprev := mem_of_getLast? hlast
    have hpc : c ≠ prev := fun h => hnew (h ▸ hprev)
    rw [if_pos (hb.prev_ne_zero.2 hcs)]
    refine hchain.snoc hb.nodup hlast hc (fun x hx hxp => ?_) ?_ ?_
    · rw [hraw₂ x (.inl hxp), h₁.raw x (hne x hx)]
    · exact nextCluster_link g hc ((h₃.fatRaw_eq g prev).trans (h₂ hcs).2)
    · exact nextCluster_eoc ((hraw₂ c (.inl hpc)).trans heoc)
  · intro j x hj k hk
    by_cases hlt : j < cs.length
    · rw [List.getElem?_append_left hlt] at hj
      have hx := mem_of_getElem? hj
      have hsame : d₃ (v.clusterStart x + k) = d (v.clusterStart x + k) := by
        rw [h₃ _ fun k' hk' heq => hne x hx (clusterStart_inj (hb.inRange x hx) hc hk hk' heq).1]
        by_cases hcs : cs = []
        · rw [h₂' hcs, h₁.data g]
        · rw [(h₂ hcs).1.data g, h₁.data g]
      rw [hsame]
      exact hb.data j x hj k hk
    · rw [List.getElem?_append_right (by omega)] at hj
      obtain ⟨h0, hx⟩ : j - cs.length = 0 ∧ c = x := by
        cases hm : j - cs.length with
        | zero =>
          rw [hm] at hj
          exact ⟨rfl, Option.some.inj hj⟩
        | succ m =>
          rw [hm] at hj
          cases hj
      obtain rfl : j = cs.length := by omega
      exact hx ▸ hdata k hk

theorem Built.refl (v : Volume) (img : Image) (new : List UInt8) : v.Built img img new 0 0 [] :=
  ⟨.refl .., nodup_nil, nofun, fun _ => ⟨rfl, rfl, rfl⟩, fun h => absurd rfl h, nofun⟩

/-- The entry of a new cluster is written. -/
theorem holds_fatSet_eoc (g : v.Geometry) (hb : v.Built img d new first prev cs)
    (hc : v.InRange c) (hfree : v.Free d c) :
    Prog.Holds Disk.whole (v.fatSet c v.eoc) () d
      (fun d' => v.Agree img d' (v.Free img) ∧ (d' = img ∨ v.Loses img d'))
      (fun r _ d' => r = .ok () ∧ v.TableOnly d d' c ∧ v.fatRaw d' c = .ok v.eoc) := by
  have ht := inTable_of_fatRaw hfree
  have hset : Prog.Holds _ _ _ d _ _ := holds_fatSet g hc ht v.eoc_lt
  have hfree₀ := (hb.fresh hc hfree).1
  refine ⟨fun d' hcut => ⟨?_, ?_⟩, hset.2⟩
  · exact hb.agree.trans (((hset.1 d' hcut).agree g).mono fun x hx => hx ▸ hfree₀)
  have hrun : v.fatSet c v.eoc () d = (.ok (), (), v.tableWrites (v.fatSectorsWith d c v.eoc)) := by
    unfold fatSet
    rw [if_neg (by have := hc.1; have := hc.2; omega)]
    exact reading_bind_ok rfl
  rw [hrun] at hcut
  rcases not_free_of_cut g ht hcut with rfl | hn
  · exact hb.start.2
  · exact .inr ⟨c, hc, hfree₀, hn⟩

/-- Every cut of the loop changes only clusters that were free, and behind the first
write one of them is lost; when it returns, the whole contents are in the chain. -/
theorem holds_writeChain (g : v.Geometry) {source : Source} (hsrc : Supplies source new)
    (fuel hint off : Nat) (hb : v.Built img d new first prev cs)
    (hoff : off = min new.length (cs.length * v.clusterBytes)) (hfuel : new.length - off ≤ fuel) :
    Prog.Holds Disk.whole (v.writeChain new.length source fuel first prev hint off) () d
      (fun d' => v.Agree img d' (v.Free img) ∧ (d' = img ∨ v.Loses img d'))
      (fun r _ d' => v.Agree img d' (v.Free img) ∧ (∀ f, r = .ok f →
        ∃ prev' cs', v.Built img d' new f prev' cs' ∧ new.length ≤ cs'.length * v.clusterBytes) ∧
        ∀ e, r = .error e → v.Loses img d' ∨
          cs = [] ∧ off < new.length ∧ v.allocCluster hint d = .error e) := by
  have hdone : new.length ≤ off → ∀ f, .ok first = (.ok f : Except FatError Nat) →
      ∃ prev' cs', v.Built img d new f prev' cs' ∧ new.length ≤ cs'.length * v.clusterBytes := by
    intro hle f hf
    cases hf
    exact ⟨prev, cs, hb, by omega⟩
  induction fuel generalizing d first prev cs hint off with
  | zero => exact holds_pure hb.start ⟨hb.agree, hdone (by omega), fun _ h => by cases h⟩
  | succ fuel ih =>
    rw [writeChain]
    split
    · rename_i hle
      exact holds_pure hb.start ⟨hb.agree, hdone hle, fun _ h => by cases h⟩
    rename_i hle
    refine holds_bind (R := fun r _ d' => d' = d ∧ r = v.allocCluster hint d)
      (holds_reading hb.start ⟨rfl, rfl⟩) ?_
      (fun e s' d' h => ⟨h.1 ▸ hb.agree, fun _ h => (by cases h), fun e' he => ?_⟩)
    rotate_left
    · rw [h.1, ← he, h.2]
      by_cases hcs : cs = []
      · exact .inr ⟨hcs, not_le.1 hle, rfl⟩
      · exact .inl (hb.loses hcs)
    rintro c _ _ ⟨rfl, halloc⟩
    rename_i d
    obtain ⟨hc, hfree⟩ := allocCluster_ok halloc.symm
    have hfree₀ := (hb.fresh hc hfree).1
    have hlost : ∀ {d'}, v.fatRaw d' c = .ok v.eoc → d' = img ∨ v.Loses img d' := fun h =>
      .inr ⟨c, hc, hfree₀, not_free_of_eoc h⟩
    -- the entry of the new cluster
    refine holds_bind (holds_fatSet_eoc g hb hc hfree) ?_ (fun e s' d' h => nomatch h.1)
    rintro _ _ d₁ ⟨-, h₁, heoc⟩
    have hagree₁ : v.Agree img d₁ (v.Free img) :=
      hb.agree.trans ((h₁.agree g).mono fun x hx => hx ▸ hfree₀)
    -- the link from the last one
    refine holds_bind (R := fun r _ d₂ => v.Agree img d₂ (v.Free img) ∧
        r = .ok (if prev ≠ 0 then first else c) ∧
        (cs ≠ [] → v.TableOnly d₁ d₂ prev ∧ v.fatRaw d₂ prev = .ok c) ∧ (cs = [] → d₂ = d₁) ∧
        v.fatRaw d₂ c = .ok v.eoc)
      ?_ ?_ (fun e s' d' h => nomatch h.2.1)
    · rw [linkCluster]
      by_cases hcs : cs = []
      · have hprev : ¬ prev ≠ 0 := fun h => hb.prev_ne_zero.1 h hcs
        rw [if_neg hprev, if_neg hprev]
        exact holds_pure ⟨hagree₁, hlost heoc⟩
          ⟨hagree₁, rfl, fun h => absurd hcs h, fun _ => rfl, heoc⟩
      have hprev := hb.prev_ne_zero.2 hcs
      have hmem := mem_of_getLast? (hb.chain hcs).2
      have hfreep := hb.free prev hmem
      have hcut₂ : ∀ {d₂}, v.TableOnly d₁ d₂ prev →
          v.Agree img d₂ (v.Free img) ∧ v.fatRaw d₂ c = .ok v.eoc := fun h =>
        ⟨hagree₁.trans ((h.agree g).mono fun x hx => hx ▸ hfreep),
          (h.raw c fun heq => (hb.fresh hc hfree).2 (heq ▸ hmem)).trans heoc⟩
      rw [if_pos hprev, if_pos hprev]
      have hlimit : c < valueLimit v.kind :=
        lt_of_lt_of_le hc.2 (le_trans g.numbers (le_of_lt (clusterLimit_lt _)))
      refine holds_bind ((holds_fatSet g (hb.inRange prev hmem) (inTable_of_fatRaw hfreep)
        hlimit).imp (fun _ h => ⟨(hcut₂ h).1, hlost (hcut₂ h).2⟩) fun _ _ _ h => h) ?_
        (fun e s' d' h => nomatch h.1)
      rintro _ _ d₂ ⟨-, h₂, hraw₂⟩
      obtain ⟨hagree₂, heoc₂⟩ := hcut₂ h₂
      exact holds_pure ⟨hagree₂, hlost heoc₂⟩
        ⟨hagree₂, rfl, fun _ => ⟨h₂, hraw₂⟩, fun h => absurd h hcs, heoc₂⟩
    rintro first' _ d₂ ⟨hagree₂, hfirst, h₂, h₂', heoc₂⟩
    cases hfirst
    refine holds_bind_reading (clusterLba_eq g hc) ?_
    -- its data
    have hcut₃ : ∀ {d₃}, v.DataOnly d₂ d₃ c → v.Agree img d₃ (v.Free img) := fun h =>
      hagree₂.trans ((h.agree g hc).mono fun x hx => hx ▸ hfree₀)
    have hoff₀ : off = min new.length (cs.length * v.clusterBytes + 0 * sectorBytes) := by omega
    refine holds_bind ((holds_writeData hsrc (cs.length * v.clusterBytes)
      v.sectorsPerCluster 0 off (add_zero _) hoff₀).imp
      (fun _ h => ⟨hcut₃ h, hlost ((h.fatRaw_eq g c).trans heoc₂)⟩)
      fun _ _ _ h => h) ?_ (fun e s' d' h => ⟨hcut₃ h.1, fun _ h => (by cases h), fun _ _ =>
        .inl ⟨c, hc, hfree₀, not_free_of_eoc ((h.1.fatRaw_eq g c).trans heoc₂)⟩⟩)
    rintro off' _ d₃ ⟨h₃, hres⟩
    obtain ⟨hoff', -, hdata⟩ := hres off' rfl
    have hlen : (cs ++ [c]).length * v.clusterBytes = cs.length * v.clusterBytes + v.clusterBytes := by
      rw [length_append, length_singleton, add_mul, one_mul]
    have hb' := hb.extend g hc hfree h₁ heoc h₂ h₂' h₃ fun k hk => by
      have := hdata k hk (Nat.zero_le k)
      rwa [clusterBytes, ← mul_assoc, ← add_mul] at this
    have hpos : 0 < v.clusterBytes := Nat.mul_pos g.spc_pos (by decide)
    have hoff'' : off' = min new.length ((cs ++ [c]).length * v.clusterBytes) := by
      rw [hlen, hoff']
      rfl
    refine (ih (c + 1) off' hb' hoff'' (by omega) fun hle' f hf => ?_).imp (fun _ h => h)
      fun r _ d' h => ⟨h.1, h.2.1, fun e he => ?_⟩
    · cases hf
      exact ⟨c, cs ++ [c], hb', by omega⟩
    · refine .inl ((h.2.2 e he).resolve_right fun hn => ?_)
      exact append_ne_nil_of_right_ne_nil cs (cons_ne_nil c []) hn.1

end

end NexoOS.Fat.Volume
