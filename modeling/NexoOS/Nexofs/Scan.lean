import NexoOS.Nexofs.Image

/-!
# What a directory scan meets

`entries` is the list of the entries `for_each_entry` calls its closure with when
the closure never stops it, together with the error at the end of the scan. Every
scan is a run of its closure over that list (`forEachEntry_eq`), so what a scan
finds is a fact about lists.
-/

namespace NexoOS.Nexofs.Image

variable {σ : Type} (v : Image)

/-! ## The entries of a directory -/

def slotList (blk : Block) (entries base : Nat) :
    Nat → Nat → List (Nat × Dirent) × Option FsError
  | 0, _ => ([], none)
  | n + 1, i =>
    if entries ≤ base + i then ([], none)
    else
      match Dirent.decode (window blk (i * direntSize)) with
      | .error e => ([], some e)
      | .ok none => slotList blk entries base n (i + 1)
      | .ok (some e) =>
        let r := slotList blk entries base n (i + 1)
        ((base + i, e) :: r.1, r.2)

/-- The entries of a directory from block `k` on. -/
def blockList (dir : Inode) (entries : Nat) : Nat → Nat → List (Nat × Dirent) × Option FsError
  | 0, _ => ([], none)
  | n + 1, k =>
    if entries ≤ perBlock * k then ([], none)
    else
      match v.blockPtr dir k with
      | .error e => ([], some e)
      | .ok 0 => blockList dir entries n (k + 1)
      | .ok (ptr + 1) =>
        match v.block (ptr + 1) with
        | .error e => ([], some e)
        | .ok blk =>
          match slotList blk entries (perBlock * k) perBlock 0 with
          | (l, some e) => (l, some e)
          | (l, none) =>
            let r := blockList dir entries n (k + 1)
            (l ++ r.1, r.2)

def entries (dir : Inode) : List (Nat × Dirent) × Option FsError :=
  v.blockList dir (dir.size / direntSize) (ndirect + ptrsPerBlock + 1) 0

/-! ## Scans as runs over the list -/

/-- The closure `f` over a list of entries until it stops the scan. -/
def visit (f : σ → Nat → Dirent → σ × Bool) : List (Nat × Dirent) → σ → σ × Bool
  | [], s => (s, true)
  | (i, e) :: l, s =>
    match f s i e with
    | (s', true) => visit f l s'
    | (s', false) => (s', false)

/-- A scan that was not stopped ends with the error of its list. -/
def conclude : σ × Bool → Option FsError → Except FsError (σ × Bool)
  | (s, false), _ => .ok (s, false)
  | (s, true), none => .ok (s, true)
  | (_, true), some e => .error e

variable (f : σ → Nat → Dirent → σ × Bool)

theorem visit_append (l l' : List (Nat × Dirent)) (s : σ) : visit f (l ++ l') s =
      if (visit f l s).2 then visit f l' (visit f l s).1 else visit f l s := by
  induction l generalizing s with
  | nil => rfl
  | cons x l ih =>
    obtain ⟨i, e⟩ := x
    rcases hf : f s i e with ⟨s', _ | _⟩
    · simp [visit, hf]
    · simpa [visit, hf] using ih s'

theorem forSlots_eq (blk : Block) (entries base n i : Nat) (s : σ) :
    forSlots f blk entries base n i s =
      conclude (visit f (slotList blk entries base n i).1 s) (slotList blk entries base n i).2 := by
  induction n generalizing i s with
  | zero => rfl
  | succ n ih =>
    unfold forSlots slotList
    by_cases hend : entries ≤ base + i
    · rw [if_pos hend, if_pos hend]
      rfl
    rw [if_neg hend, if_neg hend]
    rcases Dirent.decode (window blk (i * direntSize)) with e | _ | e
    · rfl
    · exact ih (i + 1) s
    simp only [visit]
    rcases f s (base + i) e with ⟨s', _ | _⟩
    · rfl
    · exact ih (i + 1) s'

variable (dir : Inode)

theorem forBlocks_eq (entries n k : Nat) (s : σ) : v.forBlocks f dir entries n k s =
      (conclude (visit f (v.blockList dir entries n k).1 s)
        (v.blockList dir entries n k).2).map Prod.fst := by
  induction n generalizing k s with
  | zero => rfl
  | succ n ih =>
    unfold forBlocks blockList
    by_cases hend : entries ≤ perBlock * k
    · rw [if_pos hend, if_pos hend]
      rfl
    rw [if_neg hend, if_neg hend]
    rcases v.blockPtr dir k with e | _ | ptr
    · rfl
    · exact ih (k + 1) s
    rcases hb : v.block (ptr + 1) with e | blk
    · simp only [hb]
      rfl
    simp only [hb, forSlots_eq]
    rcases slotList blk entries (perBlock * k) perBlock 0 with ⟨l, _ | e⟩
    · simp only [visit_append]
      rcases visit f l s with ⟨s', _ | _⟩
      · rfl
      · simpa [conclude] using ih (k + 1) s'
    · rcases visit f l s with ⟨s', _ | _⟩ <;> simp [conclude, Except.map]

/-- A scan runs its closure over the entries of the directory. -/
theorem forEachEntry_eq (s : σ) : v.forEachEntry f dir s =
      (conclude (visit f (v.entries dir).1 s) (v.entries dir).2).map Prod.fst :=
  v.forBlocks_eq f dir _ _ _ s

/-- The search of `find_in_dir` and of the recovery walk. -/
theorem visit_first (p : Nat → Dirent → Bool) (l : List (Nat × Dirent)) :
    visit (fun found i e => if p i e then (some (i, e.ino), false) else (found, true)) l none =
      match l.find? fun x => p x.1 x.2 with
      | some x => (some (x.1, x.2.ino), false)
      | none => (none, true) := by
  induction l with
  | nil => rfl
  | cons x l ih =>
    obtain ⟨i, e⟩ := x
    rw [visit, List.find?_cons]
    cases hp : p i e with
    | true => simp
    | false => simpa using ih

theorem firstEntry_eq (p : Nat → Dirent → Bool) : v.firstEntry dir p =
      match (v.entries dir).1.find? fun x => p x.1 x.2 with
      | some x => .ok (some (x.1, x.2.ino))
      | none => match (v.entries dir).2 with
        | some e => .error e
        | none => .ok none := by
  unfold firstEntry
  rw [forEachEntry_eq, visit_first]
  cases (v.entries dir).1.find? fun x => p x.1 x.2 with
  | some x => rfl
  | none => cases (v.entries dir).2 <;> rfl

/-! ## Slot by slot -/

/-- What a scan finds in slot `j`. -/
def slotAt (j : Nat) : Except FsError (Option Dirent) :=
  match v.blockPtr dir (j / perBlock) with
  | .error e => .error e
  | .ok 0 => .ok none
  | .ok (ptr + 1) =>
    match v.block (ptr + 1) with
    | .error e => .error e
    | .ok blk => Dirent.decode (window blk (j % perBlock * direntSize))

/-- The entries among `n` slots from `j` on, up to the first error. -/
def collect (g : Nat → Except FsError (Option Dirent)) :
    Nat → Nat → List (Nat × Dirent) × Option FsError
  | 0, _ => ([], none)
  | n + 1, j =>
    match g j with
    | .error e => ([], some e)
    | .ok none => collect g n (j + 1)
    | .ok (some e) => ((j, e) :: (collect g n (j + 1)).1, (collect g n (j + 1)).2)

variable {g : Nat → Except FsError (Option Dirent)} {n j c : Nat} {dir : Inode}

theorem collect_error {e : FsError} (hn : 0 < n) (h : g j = .error e) :
    collect g n j = ([], some e) := by
  obtain ⟨n, rfl⟩ := Nat.exists_eq_succ_of_ne_zero hn.ne'
  simp [collect, h]

theorem collect_none (h : ∀ i, i < c → g (j + i) = .ok none) :
    collect g n j = collect g (n - c) (j + c) := by
  induction c generalizing n j with
  | zero => simp
  | succ c ih =>
    rcases n with _ | n
    · simp [collect]
    have h₀ : g j = .ok none := h 0 (Nat.succ_pos c)
    have hrest := ih (n := n) (j := j + 1) fun i hi => by
      have := h (i + 1) (by omega)
      rwa [add_comm i 1, ← add_assoc] at this
    rw [collect, h₀]
    simp only
    rw [hrest, Nat.add_sub_add_right, add_assoc, add_comm 1 c]

theorem collect_slotList (blk : Block) (entries base c i : Nat)
    (h : ∀ t, t < c → g (base + i + t) = Dirent.decode (window blk ((i + t) * direntSize))) :
    collect g (entries - (base + i)) (base + i) = match slotList blk entries base c i with
      | (l, some e) => (l, some e)
      | (l, none) => (l ++ (collect g (entries - (base + i + c)) (base + i + c)).1,
          (collect g (entries - (base + i + c)) (base + i + c)).2) := by
  induction c generalizing i with
  | zero => rfl
  | succ c ih =>
    have h₀ : g (base + i) = Dirent.decode (window blk (i * direntSize)) := h 0 (Nat.succ_pos c)
    have hrest := ih (i + 1) fun t ht => by
      have := h (t + 1) (by omega)
      rwa [add_comm t 1, ← add_assoc, ← add_assoc] at this
    rw [← add_assoc base i 1, add_assoc (base + i) 1 c, add_comm 1 c] at hrest
    unfold slotList
    by_cases hend : entries ≤ base + i
    · rw [if_pos hend, Nat.sub_eq_zero_of_le hend, Nat.sub_eq_zero_of_le (by omega)]
      rfl
    rw [if_neg hend]
    obtain ⟨n, hn⟩ : ∃ n, entries - (base + i) = n + 1 := ⟨entries - (base + i) - 1, by omega⟩
    have hn' : entries - (base + i + 1) = n := by omega
    rw [hn'] at hrest
    rw [hn, collect, h₀]
    rcases Dirent.decode (window blk (i * direntSize)) with e | _ | e
    · rfl
    · exact hrest
    · simp only [hrest]
      rcases slotList blk entries base c (i + 1) with ⟨l, _ | e'⟩ <;> rfl

theorem slotAt_in_block (dir : Inode) (k : Nat) {t : Nat} (ht : t < perBlock) :
    v.slotAt dir (perBlock * k + t) = match v.blockPtr dir k with
      | .error e => .error e
      | .ok 0 => .ok none
      | .ok (ptr + 1) => match v.block (ptr + 1) with
        | .error e => .error e
        | .ok blk => Dirent.decode (window blk (t * direntSize)) := by
  have hdiv : (perBlock * k + t) / perBlock = k := by
    unfold perBlock at ht ⊢
    omega
  have hmod : (perBlock * k + t) % perBlock = t := by
    unfold perBlock at ht ⊢
    omega
  unfold slotAt
  rw [hdiv, hmod]

theorem blockPtr_tooBig {k : Nat} (hk : ndirect + ptrsPerBlock ≤ k) :
    v.blockPtr dir k = .error .tooBig := by
  unfold blockPtr
  rw [if_neg (by unfold ptrsPerBlock at hk; omega), if_pos (by omega)]

theorem blockList_eq (dir : Inode) (entries : Nat) {k : Nat} (h : k + n = ndirect + ptrsPerBlock) :
    v.blockList dir entries (n + 1) k =
      collect (v.slotAt dir) (entries - perBlock * k) (perBlock * k) := by
  induction n generalizing k with
  | zero =>
    unfold blockList
    by_cases hend : entries ≤ perBlock * k
    · rw [if_pos hend, Nat.sub_eq_zero_of_le hend]
      rfl
    have hslot : v.slotAt dir (perBlock * k) = .error .tooBig := by
      rw [← add_zero (perBlock * k), v.slotAt_in_block dir k (by decide),
        v.blockPtr_tooBig (by omega)]
    rw [if_neg hend, v.blockPtr_tooBig (by omega), collect_error (by omega) hslot]
  | succ n ih =>
    have hnext := ih (k := k + 1) (by omega)
    have hmul : perBlock * (k + 1) = perBlock * k + perBlock := Nat.mul_succ _ _
    rw [hmul] at hnext
    unfold blockList
    by_cases hend : entries ≤ perBlock * k
    · rw [if_pos hend, Nat.sub_eq_zero_of_le hend]
      rfl
    rw [if_neg hend]
    have hslot := fun t ht => v.slotAt_in_block dir k (t := t) ht
    have hfirst := hslot 0 (by decide)
    rcases hptr : v.blockPtr dir k with e | _ | ptr
    · rw [hptr, add_zero] at hfirst
      rw [collect_error (by omega) hfirst]
    · rw [hptr] at hslot
      rw [collect_none (c := perBlock) hslot, Nat.sub_sub]
      exact hnext
    rcases hblk : v.block (ptr + 1) with e | blk
    · rw [hptr, add_zero] at hfirst
      simp only [hblk] at hfirst ⊢
      rw [collect_error (by omega) hfirst]
    simp only [hptr, hblk] at hslot ⊢
    have hcol := collect_slotList (g := v.slotAt dir) blk entries (perBlock * k) perBlock 0
      fun t ht => by
        rw [add_zero, zero_add]
        exact hslot t ht
    rw [add_zero] at hcol
    rw [hcol]
    rcases slotList blk entries (perBlock * k) perBlock 0 with ⟨l, _ | e⟩
    · simp only [hnext]
    · rfl

/-- A scan goes through the slots of the directory one by one. -/
theorem entries_eq (dir : Inode) :
    v.entries dir = collect (v.slotAt dir) (dir.size / direntSize) 0 :=
  v.blockList_eq dir (dir.size / direntSize) (by rw [zero_add])

/-! ## Searches from a slot on -/

/-- The first entry among `n` slots from `j` on: slot and inode number. -/
def search (g : Nat → Except FsError (Option Dirent)) :
    Nat → Nat → Except FsError (Option (Nat × Nat))
  | 0, _ => .ok none
  | n + 1, j =>
    match g j with
    | .error e => .error e
    | .ok none => search g n (j + 1)
    | .ok (some e) => .ok (some (j, e.ino))

/-- The outcome of a search for the first slot from `next` on in a list of entries. -/
def outcome (next : Nat) (r : List (Nat × Dirent) × Option FsError) :
    Except FsError (Option (Nat × Nat)) :=
  match r.1.find? fun x => next ≤ x.1 with
  | some x => .ok (some (x.1, x.2.ino))
  | none =>
    match r.2 with
    | some e => .error e
    | none => .ok none

theorem outcome_collect_of_le {next : Nat} (h : next ≤ j) :
    outcome next (collect g n j) = search g n j := by
  induction n generalizing j with
  | zero => rfl
  | succ n ih =>
    rw [collect, search]
    rcases g j with e | _ | e
    · rfl
    · exact ih (by omega)
    · simp [outcome, h]

theorem outcome_collect (h : ∀ i, j ≤ i → i < j + c → ∃ o, g i = .ok o) :
    outcome (j + c) (collect g n j) = search g (n - c) (j + c) := by
  induction c generalizing n j with
  | zero => exact outcome_collect_of_le (le_refl j)
  | succ c ih =>
    rcases n with _ | n
    · simp [collect, search, outcome]
    have hrest := ih (n := n) (j := j + 1) fun i hi hi' => h i (by omega) (by omega)
    rw [add_right_comm, add_assoc] at hrest
    obtain ⟨o, ho⟩ := h j (le_refl j) (by omega)
    rw [collect, ho, Nat.add_sub_add_right]
    cases o with
    | none => exact hrest
    | some e =>
      have hlt : ¬ j + (c + 1) ≤ j := by omega
      simpa [outcome, hlt] using hrest

/-- A search from `next` on whose earlier slots are readable does not depend on them. -/
theorem firstEntry_from {next : Nat} (h : ∀ j, j < next → ∃ o, v.slotAt dir j = .ok o) :
    (v.firstEntry dir fun i _ => decide (next ≤ i)) =
      search (v.slotAt dir) (dir.size / direntSize - next) next := by
  have hout : (v.firstEntry dir fun i _ => decide (next ≤ i)) = outcome next (v.entries dir) := by
    rw [firstEntry_eq]
    rfl
  have hcol := outcome_collect (g := v.slotAt dir) (c := next) (n := dir.size / direntSize) (j := 0)
    fun i _ hi => h i (by omega)
  rw [zero_add] at hcol
  rw [hout, entries_eq, hcol]

theorem search_some {i child : Nat} (h : search g n j = .ok (some (i, child))) :
    j ≤ i ∧ i < j + n ∧ (∃ e, g i = .ok (some e) ∧ e.ino = child) ∧
      ∀ k, j ≤ k → k < i → g k = .ok none := by
  induction n generalizing j with
  | zero => cases h
  | succ n ih =>
    rw [search] at h
    split at h
    · cases h
    · rename_i hj
      obtain ⟨hle, hlt, he, hnone⟩ := ih h
      refine ⟨by omega, by omega, he, fun k hk hki => ?_⟩
      rcases Nat.eq_or_lt_of_le hk with rfl | hk
      · exact hj
      · exact hnone k hk hki
    · rename_i e hj
      obtain ⟨rfl, rfl⟩ := Prod.mk.inj (Option.some.inj (Except.ok.inj h))
      exact ⟨le_refl j, by omega, ⟨e, hj, rfl⟩, fun k hk hki => by omega⟩

theorem search_none (h : search g n j = .ok none) : ∀ k, j ≤ k → k < j + n → g k = .ok none := by
  induction n generalizing j with
  | zero => exact fun k hk hk' => by omega
  | succ n ih =>
    rw [search] at h
    split at h
    · cases h
    · rename_i hj
      intro k hk hk'
      rcases Nat.eq_or_lt_of_le hk with rfl | hk
      · exact hj
      · exact ih h k hk (by omega)
    · cases h

theorem search_skip (h : ∀ k, j ≤ k → k < j + c → k < j + n → g k = .ok none) :
    search g n j = search g (n - c) (j + c) := by
  induction c generalizing n j with
  | zero => rfl
  | succ c ih =>
    cases n with
    | zero => simp [search]
    | succ n =>
      rw [search, h j (le_refl j) (by omega) (by omega), Nat.add_sub_add_right]
      simp only
      rw [ih fun k hk hk' hk'' => h k (by omega) (by omega) (by omega), add_right_comm,
        add_assoc]

theorem search_found {i : Nat} {e : Dirent} (hle : j ≤ i) (hlt : i < j + n)
    (he : g i = .ok (some e)) (hnone : ∀ k, j ≤ k → k < i → g k = .ok none) :
    search g n j = .ok (some (i, e.ino)) := by
  obtain ⟨c, rfl⟩ := Nat.exists_eq_add_of_le hle
  rw [search_skip (c := c) fun k hk hk' _ => hnone k hk hk']
  obtain ⟨r, hr⟩ : ∃ r, n - c = r + 1 := ⟨n - c - 1, by omega⟩
  rw [hr, search, he]

theorem search_missing (h : ∀ k, j ≤ k → k < j + n → g k = .ok none) : search g n j = .ok none := by
  rw [search_skip (c := n) fun k hk hk' _ => h k hk hk', Nat.sub_self]
  rfl

theorem search_congr {g' : Nat → Except FsError (Option Dirent)}
    (h : ∀ k, j ≤ k → k < j + n → g k = g' k) : search g n j = search g' n j := by
  induction n generalizing j with
  | zero => rfl
  | succ n ih =>
    rw [search, search, h j (le_refl j) (by omega)]
    rw [ih fun k hk hk' => h k (by omega) (by omega)]

/-- Past the last pointer there is no slot. -/
theorem slotAt_lt {o : Option Dirent} (h : v.slotAt dir j = .ok o) :
    j < (ndirect + ptrsPerBlock) * perBlock := by
  by_contra hge
  have hk : ndirect + ptrsPerBlock ≤ j / perBlock := by
    unfold ndirect ptrsPerBlock perBlock at hge ⊢
    omega
  rw [slotAt, v.blockPtr_tooBig hk] at h
  cases h

end NexoOS.Nexofs.Image
