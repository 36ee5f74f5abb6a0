import NexoOS.Fat.Commit

/-!
# Finding the record to rewrite

`rewrite_file` looks for the record by its short name in the last directory of
the path, a lookup by the names of entries on the whole path. On a well-formed
volume both end at one record, and paths that differ by more than case end at
different ones.
-/

namespace NexoOS.Fat.Volume

open List

variable {v : Volume} {img : Image} {owner : Nat → Option Owner} {o o' : Owner} {x y : Entry}
  {path name n : List UInt8}

/-! ## Short names -/

theorem eq_split_last {l : List UInt8} {c : UInt8} (h : c ∈ l) :
    l = (l.reverse.dropWhile (· ≠ c)).tail.reverse ++
      c :: (l.reverse.takeWhile (· ≠ c)).reverse := by
  have hsplit : l.reverse.takeWhile (· ≠ c) ++ l.reverse.dropWhile (· ≠ c) = l.reverse :=
    takeWhile_append_dropWhile
  have hne : l.reverse.dropWhile (· ≠ c) ≠ [] := by
    intro hnil
    rw [dropWhile_eq_nil_iff] at hnil
    have := hnil c (mem_reverse.2 h)
    simp at this
  have hhead : (l.reverse.dropWhile (· ≠ c)).head hne = c := by
    have := head_dropWhile_not (fun b => decide (b ≠ c)) hne
    simpa using this
  have hcons : l.reverse.dropWhile (· ≠ c) = c :: (l.reverse.dropWhile (· ≠ c)).tail := by
    conv_lhs => rw [← cons_head_tail hne, hhead]
  calc l = (l.reverse.takeWhile (· ≠ c) ++ l.reverse.dropWhile (· ≠ c)).reverse := by
        rw [hsplit, reverse_reverse]
    _ = _ := by
        rw [hcons, reverse_append, reverse_cons, append_assoc]
        rfl

theorem toUpper_toLower (c : UInt8) : toUpper (toLower c) = toUpper c := by
  unfold toUpper toLower
  grind

theorem toLower_eq_dot (c : UInt8) : toLower c = 0x2e ↔ c = 0x2e := by
  unfold toLower
  grind

theorem toUpper_backslash {c : UInt8} (h : c = 0x5c) : toUpper c = 0x5c := by
  subst h
  decide

/-- The short form of a name does not depend on its case. -/
theorem name83_map_toLower (name : List UInt8) : name83 (name.map toLower) = name83 name := by
  have hpred : ((fun b : UInt8 => decide (b ≠ 0x2e)) ∘ toLower) = fun b => decide (b ≠ 0x2e) := by
    funext c
    simp only [Function.comp, ne_eq, toLower_eq_dot]
  have hmem : 0x2e ∈ name.map toLower ↔ 0x2e ∈ name := by
    simp only [mem_map, toLower_eq_dot, exists_eq_right]
  have hupper : ∀ l : List UInt8, (l.map toLower).map toUpper = l.map toUpper := by
    intro l
    rw [map_map]
    exact map_congr_left fun c _ => toUpper_toLower c
  unfold name83
  by_cases hdot : 0x2e ∈ name
  · rw [if_pos hdot, if_pos (hmem.2 hdot), ← map_reverse, dropWhile_map,
      takeWhile_map, hpred]
    simp only [← map_reverse, ← map_tail, map_eq_nil_iff, length_map, hupper]
  · rw [if_neg hdot, if_neg fun h => hdot (hmem.1 h)]
    simp only [map_eq_nil_iff, length_map, hupper, length_nil, map_nil]

theorem name83_congr (h : eqIgnoreCase name n = true) : name83 name = name83 n := by
  rw [← name83_map_toLower name, ← name83_map_toLower n, of_decide_eq_true h]

/-- A name that has a short form is a component, and its bytes are in the
short form. -/
theorem name83_some (h : name83 name = some n) :
    name ≠ [] ∧ name ≠ [0x2e] ∧ (0x5c ∈ name → 0x5c ∈ n) := by
  refine ⟨?_, ?_, fun hmem => ?_⟩
  · rintro rfl
    cases h
  · rintro rfl
    cases h
  have hupper : ∀ l : List UInt8, 0x5c ∈ l → 0x5c ∈ l.map toUpper := fun l hl =>
    mem_map.2 ⟨_, hl, toUpper_backslash rfl⟩
  unfold name83 at h
  by_cases hdot : 0x2e ∈ name
  · rw [if_pos hdot] at h
    dsimp only at h
    split at h
    · cases h
    rw [eq_split_last hdot, mem_append, mem_cons] at hmem
    rw [← Option.some.inj h, mem_append, mem_append, mem_append]
    rcases hmem with hmem | hmem | hmem
    · exact .inl (.inl (hupper _ hmem))
    · exact absurd hmem (by decide)
    · exact .inr (.inl (hupper _ hmem))
  · rw [if_neg hdot] at h
    dsimp only at h
    split at h
    · cases h
    rw [← Option.some.inj h, mem_append, mem_append]
    exact .inl (.inl (hupper _ hmem))

/-! ## Components -/

theorem components_append_cons (l r : List UInt8) {c : UInt8} (hc : isSeparator c = true) :
    components (l ++ c :: r) = components l ++ components r := by
  rw [components, splitOnP_append_cons l r hc, filter_append]
  rfl

theorem components_name (h : ∀ c ∈ name, isSeparator c = false) (hne : name ≠ [])
    (hdot : name ≠ [0x2e]) : components name = [name] := by
  rw [components, splitOnP_eq_singleton h, filter_cons, if_pos (by simp [hne, hdot])]
  rfl

theorem components_splitPath (path : List UInt8) :
    components path = components (splitPath path).1 ++ components (splitPath path).2 ∧
      0x2f ∉ (splitPath path).2 := by
  unfold splitPath
  split
  · rename_i h
    constructor
    · conv_lhs => rw [eq_split_last h]
      exact components_append_cons _ _ (by decide)
    · rw [mem_reverse]
      intro hmem
      have := mem_takeWhile_imp hmem
      simp at this
  · rename_i h
    exact ⟨rfl, h⟩

/-- Paths whose components are equal up to case. -/
def samePath (p q : List UInt8) : Bool :=
  (components p).map (·.map toLower) = (components q).map (·.map toLower)

/-- An owner is reached by one list of components, up to case. -/
theorem Resolves.components_unique (hw : v.WellFormed img owner) {ns ms : List (List UInt8)}
    (h : v.Resolves img ns o x) (h' : v.Resolves img ms o y) :
    ns.map (·.map toLower) = ms.map (·.map toLower) := by
  induction h generalizing ms y with
  | root =>
    cases h'
    rfl
  | @step ns o e x n i hr hdir hfind ih =>
    generalize ho : Owner.entry e.cluster i = o₁ at h'
    cases h' with
    | root => cases ho
    | @step ms' o' e' _ n' i' hr' hdir' hfind' =>
      obtain ⟨hcl, rfl⟩ := Owner.entry.inj ho
      have hd' := hr'.isDir hdir'
      rw [← hcl] at hd' hfind'
      obtain rfl := hw.owner_unique (hr.isDir hdir) hd'
      obtain rfl := entriesFrom_index_unique (mem_of_find?_eq_some hfind)
        (mem_of_find?_eq_some hfind')
      have hn : x.name.map toLower = n.map toLower := by
        simpa [eqIgnoreCase] using List.find?_some hfind
      have hn' : x.name.map toLower = n'.map toLower := by
        simpa [eqIgnoreCase] using List.find?_some hfind'
      rw [map_append, map_append, ih hr', map_singleton, map_singleton,
        ← hn, ← hn']

/-! ## `locate` -/

/-- The directory `locate` searches. -/
theorem locate_ok {lba off old : Nat} (hw : v.WellFormed img owner)
    (h : v.locate path img = .ok (lba, off, old)) :
    ∃ o e n, v.Resolves img (components (splitPath path).1) o e ∧ e.isDir = true ∧
      name83 (splitPath path).2 = some n ∧ v.findEntryPos img e.cluster n = .ok (lba, off, old) := by
  unfold locate at h
  dsimp only at h
  by_cases hroot : (splitPath path).1 = [] ∨ (splitPath path).1 = [0x2f]
  · rw [if_pos hroot] at h
    have hempty : components (splitPath path).1 = [] := by
      rcases hroot with hroot | hroot <;> rw [hroot] <;> rfl
    rw [hempty]
    cases hn : name83 (splitPath path).2 with
    | none =>
      rw [hn] at h
      cases h
    | some n =>
      rw [hn] at h
      exact ⟨_, _, n, .root, rfl, rfl, h⟩
  · rw [if_neg hroot] at h
    rcases hl : v.lookup img (splitPath path).1 with e | e
    · rw [hl] at h
      cases h
    rw [hl] at h
    obtain ⟨o, hr⟩ := hw.resolves_of_lookup hl
    by_cases hdir : e.isDir = true
    · dsimp only at h
      rw [if_pos hdir] at h
      cases hn : name83 (splitPath path).2 with
      | none =>
        rw [hn] at h
        cases h
      | some n =>
        rw [hn] at h
        exact ⟨o, e, n, hr, hdir, rfl, h⟩
    · dsimp only at h
      rw [if_neg hdir] at h
      cases h

/-- The record found is that of the entry a lookup finds. -/
theorem WellFormed.locate_spec {lba off old : Nat} (hw : v.WellFormed img owner)
    (hl : v.lookup img path = .ok x) (h : v.locate path img = .ok (lba, off, old)) :
    ∃ o d j m, v.Place img o d j m lba ∧ off = 32 * m ∧ old = x.cluster ∧
      (16 * j + m, x) ∈ v.entries img d ∧
      v.Resolves img (components path) (.entry d (16 * j + m)) x := by
  obtain ⟨o, e, n, hr, hdir, hn, hfind⟩ := locate_ok hw h
  obtain ⟨hcomp, hslash⟩ := components_splitPath path
  generalize (splitPath path).1 = parent at hr hcomp
  generalize (splitPath path).2 = name at hn hcomp hslash
  obtain ⟨cs, hcs, _⟩ := hw.dir o _ (hr.isDir hdir)
  obtain ⟨j, m, r, hj, hm, hoff, hreach, hplain, hbytes, hold⟩ :=
    (hcs.yields hw.geometry).1.findLoop_ok _ hfind
  have hrec : (v.dirLbas img e.cluster) = v.chainLbas cs := hcs.dirLbas_eq hw.geometry
  rw [← hrec] at hj hreach
  have hr_eq : r = recordAt (img lba) m :=
    Option.some.inj (hreach.1.symm.trans (flatMap_records_getElem? hj hm))
  -- the name has no separator, so it is the last component
  have hname := name83_some hn
  have hsep : ∀ c ∈ name, isSeparator c = false := by
    intro c hc
    have h1 : c ≠ 0x2f := fun h => hslash (h ▸ hc)
    have h2 : c ≠ 0x5c := fun h =>
      hw.legal o _ (hr.isDir hdir) _ r hreach hplain (hbytes ▸ hname.2.2 (h ▸ hc))
    simp [isSeparator, h1, h2]
  rw [components_name hsep hname.1 hname.2.1] at hcomp
  -- a lookup finds an entry of this name
  rw [lookup, hcomp, lookupFrom_append, hw.lookupFrom_of_resolves hr] at hl
  dsimp only at hl
  rw [lookupFrom, if_pos hdir, findInDir_eq hw.geometry hcs] at hl
  rcases hf : (v.entries img e.cluster).find? fun p => eqIgnoreCase p.2.name name with _ | p
  · rw [hf] at hl
    cases hl
  obtain ⟨i, y⟩ := p
  rw [hf] at hl
  obtain rfl : y = x := Except.ok.inj hl
  have hy := mem_of_find?_eq_some hf
  have hsame : name83 y.name = name83 name :=
    name83_congr (by simpa using List.find?_some hf)
  -- which has the same short form, hence the same record
  obtain rfl : 16 * j + m = i := by
    by_contra hne
    refine hw.names o _ (hr.isDir hdir) i y hy _ r hne hreach hplain ?_
    rw [hsame, hn, hbytes]
  obtain ⟨_, r', l, hreach', _, hyr⟩ := mem_entriesFrom hy
  rw [Nat.sub_zero] at hreach'
  obtain rfl : r = r' := Option.some.inj (hreach.1.symm.trans hreach'.1)
  refine ⟨o, e.cluster, j, m, ⟨hr.isDir hdir, hj, hm, hr_eq ▸ hreach, hr_eq ▸ hplain⟩, hoff, ?_,
    hy, ?_⟩
  · rw [hold, hyr, entryOf_cluster]
  · rw [hcomp]
    exact .step hr hdir hf

end NexoOS.Fat.Volume
