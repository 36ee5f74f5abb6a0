import NexoOS.Loader.Elf

/-!
# The reader with its arithmetic checked

The reader as a build with overflow checks runs it: a sum past `2^64` or a
slice past the end of the image panics, which is `none` here. Offsets into the
header and the dynamic table are below the length of what they index; only the
search for the relocation table has sums of file fields that nothing bounds.
-/

namespace NexoOS.Loader

open List Option

def addU64 (a b : UInt64) : Option UInt64 :=
  if a.toNat + b.toNat < 2 ^ 64 then some (a + b) else none

/-- `&data[start..]`, where `start` is a sum in `usize`. -/
def sliceFrom (data : List UInt8) (start : Nat) : Option (List UInt8) :=
  if start < 2 ^ 64 ∧ start ≤ data.length then some (data.drop start) else none

theorem mapM_sliceFrom {data : List UInt8} (hlen : data.length < 2 ^ 63) {f : Nat → Nat}
    {l : List Nat} (hf : ∀ i ∈ l, f i ≤ data.length) :
    l.mapM (fun i => sliceFrom data (f i)) = some (l.map fun i => data.drop (f i)) := by
  induction l with
  | nil => rfl
  | cons i l ih =>
    have hi := hf i mem_cons_self
    rw [mapM_cons, ih fun j hj => hf j (mem_cons_of_mem _ hj), sliceFrom,
      if_pos ⟨by omega, hi⟩]
    rfl

namespace ElfFile

variable {e : ElfFile} {t : RelaTable} {p : ProgramHeader} {ps : List ProgramHeader}

def checkedHeaders (e : ElfFile) : Option (List ProgramHeader) := do
  let entries ← (range e.phnum).mapM fun i => sliceFrom e.data (e.phoff + i * e.phentsize)
  return entries.filterMap programHeader

/-- The search among the loadable segments. -/
def checkedFind (t : RelaTable) : List ProgramHeader → Option (Option ProgramHeader)
  | [] => some none
  | p :: ps =>
    if t.vaddr ≥ p.pVaddr ∧ t.vaddr.toNat + t.size.toNat < 2 ^ 64 then do
      let fileEnd ← addU64 p.pVaddr p.pFilesz
      if t.vaddr + t.size ≤ fileEnd then return some p else checkedFind t ps
    else checkedFind t ps

def checkedRelocations (e : ElfFile) : Option (Except ElfError (List Rela)) :=
  match e.relaTable with
  | .error er => some (.error er)
  | .ok t =>
    if t.ent ≠ 24 ∨ t.size % 24 ≠ 0 then some (.error .badSegment)
    else if t.size = 0 then some (.ok [])
    else do
      match ← checkedFind t e.loadSegments with
      | none => return .error .badSegment
      | some seg =>
        let off ← addU64 seg.pOffset (t.vaddr - seg.pVaddr)
        if off.toNat + t.size.toNat > e.data.length then return .error .badSegment
        else
          let entries ← (range (t.size / 24).toNat).mapM fun i =>
            sliceFrom e.data (off.toNat + i * 24)
          return .ok (entries.filterMap rela)

/-! ## What the search computes -/

/-- The ends of the segments that the search compares the table with, up to the one
that holds it, are below `2^64`. -/
def EndsFit (t : RelaTable) : List ProgramHeader → Prop
  | [] => True
  | p :: ps =>
    (p.pVaddr ≤ t.vaddr → t.vaddr.toNat + t.size.toNat < 2 ^ 64 →
      p.pVaddr.toNat + p.pFilesz.toNat < 2 ^ 64) ∧
    (holdsTable t p = false → EndsFit t ps)

theorem checkedFind_spec : ((checkedFind t ps).isSome ↔ EndsFit t ps) ∧
    ∀ o, checkedFind t ps = some o → o = ps.find? (holdsTable t) := by
  induction ps with
  | nil => exact ⟨iff_of_true rfl trivial, fun o h => (Option.some.inj h).symm⟩
  | cons p ps ih =>
    rw [EndsFit, checkedFind, List.find?_cons]
    by_cases hg : t.vaddr ≥ p.pVaddr ∧ t.vaddr.toNat + t.size.toNat < 2 ^ 64
    · have hholds : holdsTable t p = decide (t.vaddr + t.size ≤ p.pVaddr + p.pFilesz) := by
        rw [holdsTable, decide_eq_true hg.1, decide_eq_true hg.2, Bool.true_and, Bool.true_and]
      rw [if_pos hg]
      by_cases hfit : p.pVaddr.toNat + p.pFilesz.toNat < 2 ^ 64
      · rw [addU64, if_pos hfit, hholds]
        by_cases hend : t.vaddr + t.size ≤ p.pVaddr + p.pFilesz
        · simp only [bind, Option.bind, if_pos hend, decide_eq_true hend]
          exact ⟨iff_of_true rfl ⟨fun _ _ => hfit, nofun⟩, fun o h => (Option.some.inj h).symm⟩
        · simp only [bind, Option.bind, if_neg hend, decide_eq_false hend]
          exact ⟨ih.1.trans ⟨fun h => ⟨fun _ _ => hfit, fun _ => h⟩, fun h => h.2 trivial⟩, ih.2⟩
      · rw [addU64, if_neg hfit]
        exact ⟨iff_of_false Bool.false_ne_true fun h => hfit (h.1 hg.1 hg.2), nofun⟩
    · have hholds : holdsTable t p = false := by
        rw [Bool.eq_false_iff]
        intro hc
        simp only [holdsTable, Bool.and_eq_true, decide_eq_true_eq] at hc
        exact hg hc.1
      rw [if_neg hg, hholds]
      refine ⟨ih.1.trans ⟨fun h => ⟨fun h1 h2 => absurd ⟨h1, h2⟩ hg, fun _ => h⟩, fun h => ?_⟩, ih.2⟩
      exact h.2 rfl

/-- No sum that the reader computes to find the relocation table overflows. -/
def SumsFit (e : ElfFile) : Prop :=
  match e.relaTable with
  | .error _ => True
  | .ok t => t.ent = 24 → t.size % 24 = 0 → t.size ≠ 0 → EndsFit t e.loadSegments ∧
    match e.loadSegments.find? (holdsTable t) with
    | none => True
    | some seg => seg.pOffset.toNat + (t.vaddr - seg.pVaddr).toNat < 2 ^ 64

theorem index_le {size : UInt64} {off len i : Nat} (hlen : off + size.toNat ≤ len)
    (hi : i < (size / 24).toNat) : off + i * 24 + 24 ≤ len := by
  rw [UInt64.toNat_div] at hi
  change i < size.toNat / 24 at hi
  omega

theorem relocations_eq (h : e.relaTable = .ok t) : e.relocations =
    if t.ent ≠ 24 ∨ t.size % 24 ≠ 0 then .error .badSegment else if t.size = 0 then .ok []
    else match e.loadSegments.find? (holdsTable t) with
      | none => .error .badSegment
      | some seg =>
        if (seg.pOffset + (t.vaddr - seg.pVaddr)).toNat + t.size.toNat > e.data.length then
          .error .badSegment else .ok ((range (t.size / 24).toNat).filterMap fun i =>
          rela (e.data.drop ((seg.pOffset + (t.vaddr - seg.pVaddr)).toNat + i * 24))) := by
  rw [relocations, h]
  rfl

theorem checkedRelocations_spec (hlen : e.data.length < 2 ^ 63) :
    (e.checkedRelocations.isSome ↔ e.SumsFit) ∧
      ∀ r, e.checkedRelocations = some r → r = e.relocations := by
  unfold checkedRelocations SumsFit
  cases ht : e.relaTable with
  | error er =>
    refine ⟨iff_of_true rfl trivial, fun r h => ?_⟩
    rw [relocations, ht, ← Option.some.inj h]
    rfl
  | ok t =>
    rw [relocations_eq ht]
    by_cases hbad : t.ent ≠ 24 ∨ t.size % 24 ≠ 0
    · simp only [if_pos hbad]
      exact ⟨iff_of_true rfl fun h1 h2 => absurd hbad (by simp [h1, h2]),
        fun r hr => (Option.some.inj hr).symm⟩
    by_cases hz : t.size = 0
    · simp only [if_neg hbad, if_pos hz]
      exact ⟨iff_of_true rfl fun _ _ h => absurd hz h, fun r hr => (Option.some.inj hr).symm⟩
    simp only [if_neg hbad, if_neg hz]
    rw [not_or, not_not, not_not] at hbad
    obtain ⟨hsome, hfind⟩ := @checkedFind_spec t e.loadSegments
    rcases hc : checkedFind t e.loadSegments with _ | o
    · have hends : ¬ EndsFit t e.loadSegments := fun h => absurd (hsome.2 h) (by simp [hc])
      exact ⟨iff_of_false Bool.false_ne_true fun h => hends (h hbad.1 hbad.2 hz).1, nofun⟩
    have hends := hsome.1 (by simp [hc])
    rw [← hfind o hc]
    rcases o with _ | seg
    · exact ⟨iff_of_true rfl fun _ _ _ => ⟨hends, trivial⟩, fun r hr => (Option.some.inj hr).symm⟩
    simp only [bind, Option.bind, addU64]
    by_cases hfit : seg.pOffset.toNat + (t.vaddr - seg.pVaddr).toNat < 2 ^ 64
    · have hok := fun (_ : t.ent = 24) (_ : t.size % 24 = 0) (_ : t.size ≠ 0) => And.intro hends hfit
      rw [if_pos hfit]
      dsimp only
      split
      · exact ⟨iff_of_true rfl hok, fun r hr => (Option.some.inj hr).symm⟩
      rename_i hin
      rw [mapM_sliceFrom hlen fun i hi => ?_]
      · refine ⟨iff_of_true rfl hok, fun r hr => ?_⟩
        rw [← Option.some.inj hr, List.filterMap_map]
        rfl
      · have := index_le (Nat.le_of_not_lt hin) (List.mem_range.1 hi)
        omega
    · rw [if_neg hfit]
      exact ⟨iff_of_false Bool.false_ne_true fun h => hfit (h hbad.1 hbad.2 hz).2, nofun⟩

theorem u16At_lt {b : List UInt8} {o n : Nat} (h : u16At b o = some n) : n < 2 ^ 16 := by
  unfold u16At leBytesAt at h
  split at h
  · exact some.inj h ▸ leAt_lt _ o 2
  · cases h

theorem parseWith_bounds {data : List UInt8} {allowDyn : Bool} (h : parseWith data allowDyn = .ok e) :
    e.data = data ∧ e.phoff + e.phentsize * e.phnum ≤ data.length := by
  unfold parseWith at h
  simp only [bind, Except.bind, throw, throwThe, MonadExceptOf.throw, pure, Except.pure] at h
  repeat' split at h
  all_goals cases h
  rename_i hle
  exact ⟨rfl, Nat.le_of_not_lt hle⟩

/-- The size of the header table does not overflow. Of an image that is accepted the
program headers are read without a panic, and what is handed out lies inside it; the
relocations are read without a panic exactly if no sum overflows, and are then those
of the wrapping build. -/
theorem reader_total_iff {data : List UInt8} (hlen : data.length < 2 ^ 63) (allowDyn : Bool) :
    (∀ entsize num, u16At data 0x36 = some entsize → u16At data 0x38 = some num →
      entsize * num < 2 ^ 64) ∧
    ∀ e, parseWith data allowDyn = .ok e → e.checkedHeaders = some e.programHeaders ∧
    (∀ ph bytes, e.segmentData ph = .ok bytes →
      ∃ o, o + bytes.length ≤ data.length ∧ bytes = (data.drop o).take bytes.length) ∧
    (∀ rs, e.relocations = .ok rs →
      ∀ r ∈ rs, ∃ o, o + 24 ≤ data.length ∧ rela (data.drop o) = some r) ∧
    (e.checkedRelocations.isSome ↔ e.SumsFit) ∧
    ∀ r, e.checkedRelocations = some r → r = e.relocations := by
  refine ⟨fun entsize num h1 h2 => ?_, fun e h => ?_⟩
  · exact Nat.lt_of_lt_of_le (Nat.mul_lt_mul'' (u16At_lt h1) (u16At_lt h2)) (by decide)
  obtain ⟨rfl, hph⟩ := parseWith_bounds h
  refine ⟨?_, fun ph bytes hs => ?_, fun rs hrs r hr => ?_, checkedRelocations_spec hlen⟩
  · rw [checkedHeaders, mapM_sliceFrom hlen fun i hi => ?_]
    · show some _ = _
      rw [filterMap_map]
      rfl
    · have hi := Nat.mul_le_mul_right e.phentsize (Nat.le_of_lt (mem_range.1 hi))
      rw [Nat.mul_comm e.phnum] at hi
      omega
  · unfold segmentData at hs
    split at hs
    · cases hs
    split at hs
    · cases hs
    rename_i hin
    cases hs
    have hl : ((e.data.drop ph.pOffset.toNat).take ph.pFilesz.toNat).length = ph.pFilesz.toNat := by
      rw [length_take, length_drop]
      omega
    exact ⟨ph.pOffset.toNat, by omega, by rw [hl]⟩
  · rcases ht : e.relaTable with er | t
    · rw [relocations, ht] at hrs
      cases hrs
    rw [relocations_eq ht] at hrs
    repeat' split at hrs
    all_goals cases hrs
    · cases hr
    · rename_i seg _ hin
      obtain ⟨i, hi, hri⟩ := mem_filterMap.1 hr
      exact ⟨_, index_le (Nat.le_of_not_lt hin) (mem_range.1 hi), hri⟩

def words (ws : List Nat) : List UInt8 := ws.flatMap fun w => (range 8).map (leByte w)

/-- An image of a dynamic and a loadable segment, with a table of one relocation at
its end. -/
def sampleImage (offset vaddr filesz rela : Nat) : List UInt8 :=
  [0x7f, 0x45, 0x4c, 0x46, 2, 1] ++ replicate 10 0 ++ [2, 0, 0x3e, 0] ++
    replicate 12 0 ++ words [64] ++ replicate 14 0 ++ [56, 0, 2, 0] ++
    replicate 6 0 ++
    words [2, 176, 0, 0, 48, 48, 0, 1, offset, vaddr, 0, filesz, filesz, 0] ++
    words [7, rela, 8, 24, 0, 0] ++ words [0, 8, 0]

/-- The headers and the one relocation are read. -/
theorem reader_total_sample : ∃ e rs, parseWith (sampleImage 0 0 248 224) true = .ok e ∧
    e.checkedHeaders = some e.programHeaders ∧ e.SumsFit ∧ e.relocations = .ok rs ∧
    ∀ r ∈ rs, ∃ o, o + 24 ≤ (sampleImage 0 0 248 224).length ∧
      rela ((sampleImage 0 0 248 224).drop o) = some r := by
  have hok : (parseWith (sampleImage 0 0 248 224) true).toOption.map (fun e =>
      (e.checkedRelocations.isSome, e.relocations.toOption.map List.length)) = some (true, some 1) := by
    decide +kernel
  have htotal := (reader_total_iff (by decide +kernel : (sampleImage 0 0 248 224).length < 2 ^ 63)
    true).2
  rcases h : parseWith (sampleImage 0 0 248 224) true with er | e
  · rw [h] at hok
    cases hok
  rw [h] at hok
  obtain ⟨hheaders, -, hrelas, hsums, -⟩ := htotal e h
  obtain ⟨hsome, hrs⟩ := Prod.mk.inj (Option.some.inj hok)
  rcases hr : e.relocations with er | rs
  · rw [hr] at hrs
    cases hrs
  · exact ⟨e, rs, rfl, hheaders, hsums.1 hsome, hr, hrelas rs hr⟩

/-- A segment that ends at `2^64` overflows the end that the table is compared with,
a segment far into the file the offset of the table. -/
theorem relocation_sums_overflow :
    ((parseAny (sampleImage 0 (2 ^ 64 - 32) 32 (2 ^ 64 - 32))).toOption.map
      fun e => e.checkedRelocations.isNone) = some true ∧
    ((parseAny (sampleImage (2 ^ 64 - 8) 0 248 24)).toOption.map
      fun e => e.checkedRelocations.isNone) = some true ∧
    ((parseAny (sampleImage 0 0 248 224)).toOption.map
      fun e => e.checkedRelocations.isSome) = some true := by
  decide +kernel

end ElfFile
end NexoOS.Loader
