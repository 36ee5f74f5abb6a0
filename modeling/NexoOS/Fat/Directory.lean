import NexoOS.Fat.Layout

/-!
# Directories as lists of entries

The records of a directory in one list, the entries they hold with their
places, and `find_in_dir` and `find_entry_pos` as searches of these lists.
-/

namespace NexoOS.Fat.Volume

open List Option Prod

variable {v : Volume} {img : Image} {τ : Type} {f : τ → Entry → τ × Bool} {l : LongName} {t : τ}
  {name : List UInt8} {recs es : List Record} {ls : List Nat} {r : Record} {x : Entry}

/-- The entries of a list of records with their numbers, the first record
being number `i`. -/
def entriesFrom (v : Volume) : LongName → Nat → List Record → List (Nat × Entry)
  | _, _, [] => []
  | l, i, e :: es =>
    match v.scanRecord l e with
    | none => []
    | some (l, none) => entriesFrom v l (i + 1) es
    | some (l, some x) => (i, x) :: entriesFrom v l (i + 1) es

def entries (v : Volume) (img : Image) (d : Nat) : List (Nat × Entry) :=
  v.entriesFrom .none 0 (v.dirRecords img d)

/-! ## The loop of `for_each_entry` -/

theorem scanRecords_append : v.scanRecords f l t (recs ++ es) = match v.scanRecords f l t recs with
      | .inl (l, t) => v.scanRecords f l t es
      | .inr t => .inr t := by
  induction recs generalizing l t with
  | nil => rfl
  | cons e recs ih =>
    rw [cons_append, scanRecords, scanRecords]
    rcases v.scanRecord l e with _ | p
    · rfl
    obtain ⟨l', x⟩ := p
    cases x with
    | none => exact ih
    | some x =>
      dsimp only
      rcases f t x with ⟨t', _ | _⟩
      · rfl
      · exact ih

/-- What a scan has found, finished or not. -/
def outcome : (LongName × τ) ⊕ τ → τ := Sum.elim snd id

theorem Yields.scanLoop_eq {w : Walk} (h : v.Yields img w ls) : ∀ left l (t : τ), ls.length ≤ left →
      v.scanLoop img f left w l t =
        .ok (outcome (v.scanRecords f l t (ls.flatMap fun a => records (img a)))) := by
  induction h with
  | done h =>
    intro left l t _
    rw [scanLoop, h]
    rfl
  | next h _ ih =>
    intro left l t hlen
    rw [scanLoop, h]
    rcases left with _ | left
    · exact absurd hlen (by simp)
    rw [flatMap_cons, scanRecords_append]
    dsimp only
    rcases v.scanRecords f l t (records (img _)) with ⟨l', t'⟩ | t'
    · exact ih left l' t' (by simpa using hlen)
    · rfl

theorem outcome_scanRecords_find (i : Nat) : outcome (v.scanRecords
      (fun found e => if eqIgnoreCase e.name name then (some e, false) else (found, true)) l none
      recs) =
      ((v.entriesFrom l i recs).find? fun p => eqIgnoreCase p.2.name name).map snd := by
  induction recs generalizing l i with
  | nil => rfl
  | cons e recs ih =>
    rw [scanRecords, entriesFrom]
    rcases v.scanRecord l e with _ | p
    · rfl
    obtain ⟨l', x⟩ := p
    rcases x with _ | x
    · exact ih (i + 1)
    cases hx : eqIgnoreCase x.name name with
    | true => simp [outcome, hx]
    | false =>
      simp only [Bool.false_eq_true, if_false, find?_cons, hx]
      exact ih (i + 1)

theorem findInDir_eq (g : v.Geometry) {d : Nat} {cs : List Nat} (h : v.DirChain img d cs)
    (name : List UInt8) : v.findInDir img d name =
      .ok (((v.entries img d).find? fun p => eqIgnoreCase p.2.name name).map snd) := by
  rw [findInDir, forEachEntry, (h.yields g).1.scanLoop_eq _ _ _ (h.yields g).2,
    outcome_scanRecords_find 0, entries, dirRecords, h.dirLbas_eq g]

/-! ## Places of entries -/

/-- A record with a short name: not deleted, no long name, no label. -/
def isPlain (r : Record) : Prop := r 0 ≠ 0xe5 ∧ isLongName r = false ∧ isLabel r = false

/-- Record `i` is `r`, and no end mark stands up to it. -/
def Reached (recs : List Record) (i : Nat) (r : Record) : Prop :=
  recs[i]? = some r ∧ ∀ j ≤ i, ∀ e, recs[j]? = some e → e 0 ≠ 0

variable {e : Record} {i k : Nat}

theorem Reached.cons (he : e 0 ≠ 0) (h : Reached recs i r) : Reached (e :: recs) (i + 1) r := by
  refine ⟨h.1, fun j hj e' he' => ?_⟩
  cases j with
  | zero => exact some.inj he' ▸ he
  | succ j => exact h.2 j (by omega) e' he'

theorem reached_zero (he : e 0 ≠ 0) : Reached (e :: recs) 0 e := by
  refine ⟨rfl, fun j hj e' he' => ?_⟩
  obtain rfl : j = 0 := by omega
  exact some.inj he' ▸ he

theorem scanRecord_cases {l' : LongName} {o : Option Entry} (h : v.scanRecord l e = some (l', o)) :
    e 0 ≠ 0 ∧ ∀ x, o = some x → isPlain e ∧ x = v.entryOf l e := by
  unfold scanRecord at h
  split at h
  · cases h
  rename_i h0
  refine ⟨h0, fun x hx => ?_⟩
  split at h
  · cases h
    cases hx
  rename_i h1
  split at h
  · cases h
    cases hx
  rename_i h2
  split at h
  · cases h
    cases hx
  rename_i h3
  obtain ⟨_, ho⟩ := Prod.mk.inj (Option.some.inj h)
  subst hx
  split at ho
  · cases ho
  · exact ⟨⟨h1, Bool.eq_false_iff.2 h2, Bool.eq_false_iff.2 h3⟩, (Option.some.inj ho).symm⟩

theorem mem_entriesFrom (h : (i, x) ∈ v.entriesFrom l k recs) :
    k ≤ i ∧ ∃ r l', Reached recs (i - k) r ∧ isPlain r ∧ x = v.entryOf l' r := by
  induction recs generalizing l k with
  | nil => cases h
  | cons e recs ih =>
    rw [entriesFrom] at h
    rcases hs : v.scanRecord l e with _ | p
    · rw [hs] at h
      cases h
    obtain ⟨l', o⟩ := p
    rw [hs] at h
    obtain ⟨h0, hplain⟩ := scanRecord_cases hs
    have hrec : (i, x) ∈ v.entriesFrom l' (k + 1) recs → k ≤ i ∧
        ∃ r l', Reached (e :: recs) (i - k) r ∧ isPlain r ∧ x = v.entryOf l' r := by
      intro h
      obtain ⟨hk, r, l₁, hr, hp, hx⟩ := ih h
      refine ⟨by omega, r, l₁, ?_, hp, hx⟩
      have := hr.cons h0
      rwa [show i - (k + 1) + 1 = i - k by omega] at this
    rcases o with _ | y
    · exact hrec h
    rcases mem_cons.1 h with h | h
    · cases h
      obtain ⟨hp, hx⟩ := hplain x rfl
      exact ⟨Nat.le_refl _, e, l, by rw [Nat.sub_self]; exact reached_zero h0, hp, hx⟩
    · exact hrec h

theorem entryOf_cluster (v : Volume) (l : LongName) (r : Record) :
    (v.entryOf l r).cluster = v.recordCluster r := rfl

/-! ## `find_entry_pos` -/

theorem findRecord_ok {off cl : Nat} (h : v.findRecord name k recs = .ok (some (off, cl))) :
    ∃ m r, off = 32 * (k + m) ∧ Reached recs m r ∧ isPlain r ∧ bytes r 0 11 = name ∧
      cl = v.recordCluster r := by
  induction recs generalizing k with
  | nil => cases h
  | cons e recs ih =>
    rw [findRecord] at h
    split at h
    · cases h
    rename_i h0
    have hrec : v.findRecord name (k + 1) recs = .ok (some (off, cl)) →
        ∃ m r, off = 32 * (k + m) ∧ Reached (e :: recs) m r ∧ isPlain r ∧ bytes r 0 11 = name ∧
          cl = v.recordCluster r := by
      intro h
      obtain ⟨m, r, hoff, hr, hrest⟩ := ih h
      exact ⟨m + 1, r, by omega, hr.cons h0, hrest⟩
    split at h
    · exact hrec h
    rename_i hskip
    split at h
    · rename_i hname
      obtain ⟨hoff, hcl⟩ := Prod.mk.inj (Option.some.inj (Except.ok.inj h))
      simp only [not_or, Bool.not_eq_true] at hskip
      exact ⟨0, e, by omega, reached_zero h0, hskip, hname, hcl.symm⟩
    · exact hrec h

/-- When the records of a sector do not end the search, none of them is an end
mark. -/
theorem findRecord_none (h : v.findRecord name k recs = .ok none) : ∀ e ∈ recs, e 0 ≠ 0 := by
  induction recs generalizing k with
  | nil => exact nofun
  | cons e recs ih =>
    rw [findRecord] at h
    split at h
    · cases h
    rename_i h0
    have hrec : v.findRecord name (k + 1) recs = .ok none := by
      split at h
      · exact h
      split at h
      · cases h
      · exact h
    intro e' he'
    rcases mem_cons.1 he' with rfl | he'
    · exact h0
    · exact ih hrec e' he'

theorem Reached.append_left (h : Reached recs i r) : Reached (recs ++ es) i r := by
  have hlt : i < recs.length := (List.getElem?_eq_some_iff.1 h.1).1
  refine ⟨by rw [getElem?_append_left hlt]; exact h.1, fun j hj e he => ?_⟩
  rw [getElem?_append_left (by omega)] at he
  exact h.2 j hj e he

theorem Reached.append_right (hrecs : ∀ e ∈ recs, e 0 ≠ 0) (h : Reached es i r) :
    Reached (recs ++ es) (recs.length + i) r := by
  refine ⟨by rw [getElem?_append_right (by omega), Nat.add_sub_cancel_left]; exact h.1,
    fun j hj e he => ?_⟩
  by_cases hlt : j < recs.length
  · rw [getElem?_append_left hlt] at he
    exact hrecs e (mem_of_getElem? he)
  · rw [getElem?_append_right (by omega)] at he
    exact h.2 (j - recs.length) (by omega) e he

@[simp] theorem length_records (s : Sector) : (records s).length = 16 := by simp [records]

theorem records_getElem? {s : Sector} {m : Nat} (hm : m < 16) :
    (records s)[m]? = some (recordAt s m) := by
  simp [records, hm]

/-- A successful search: the record, its number in the directory, and the
sector it is in. -/
theorem Yields.findLoop_ok {w : Walk} (h : v.Yields img w ls) {lba off cl : Nat} :
    ∀ left, v.findLoop img name left w = .ok (lba, off, cl) →
      ∃ j m r, ls[j]? = some lba ∧ m < 16 ∧ off = 32 * m ∧
        Reached (ls.flatMap fun a => records (img a)) (16 * j + m) r ∧ isPlain r ∧
        bytes r 0 11 = name ∧ cl = v.recordCluster r := by
  induction h with
  | done h =>
    intro left hfind
    rw [findLoop, h] at hfind
    cases hfind
  | @next w w' a ls h _ ih =>
    intro left hfind
    rw [findLoop, h] at hfind
    rcases left with _ | left
    · cases hfind
    dsimp only at hfind
    rw [flatMap_cons]
    rcases hr : v.findRecord name 0 (records (img a)) with e | o
    · rw [hr] at hfind
      cases hfind
    rw [hr] at hfind
    cases o with
    | some p =>
      obtain ⟨off', cl'⟩ := p
      obtain ⟨rfl, h₂⟩ := Prod.mk.inj (Except.ok.inj hfind)
      cases h₂
      obtain ⟨m, r, hoff, hreach, hrest⟩ := findRecord_ok hr
      have hm : m < 16 := by
        have := (List.getElem?_eq_some_iff.1 hreach.1).1
        simpa using this
      refine ⟨0, m, r, rfl, hm, by omega, ?_, hrest⟩
      rw [Nat.mul_zero, Nat.zero_add]
      exact hreach.append_left
    | none =>
      obtain ⟨j, m, r, hj, hm, hoff, hreach, hrest⟩ := ih left hfind
      refine ⟨j + 1, m, r, hj, hm, hoff, ?_, hrest⟩
      have := hreach.append_right (findRecord_none hr)
      rwa [length_records, show 16 + (16 * j + m) = 16 * (j + 1) + m by omega] at this

/-- A record keeps its place in the sector list: number `16 * j + m` of the
directory is record `m` of sector `j`. -/
theorem flatMap_records_getElem? {j m a : Nat} (hj : ls[j]? = some a) (hm : m < 16) :
    (ls.flatMap fun a => records (img a))[16 * j + m]? = some (recordAt (img a) m) := by
  induction ls generalizing j with
  | nil => cases hj
  | cons b ls ih =>
    rw [flatMap_cons]
    cases j with
    | zero =>
      obtain rfl : b = a := some.inj hj
      rw [getElem?_append_left (by simpa using hm)]
      simpa using records_getElem? hm
    | succ j =>
      rw [getElem?_append_right (by simp; omega), length_records,
        show 16 * (j + 1) + m - 16 = 16 * j + m by omega]
      exact ih hj

end NexoOS.Fat.Volume
