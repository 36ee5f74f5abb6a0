import NexoOS.Paging.Mapper

/-!
# What the mapper's walks do to the tree

`translate` reads the entry where the path of an address stops. A walk that
creates tables changes no translation, also when it fails half way: it only
hangs empty tables under entries that were not present. The results are
relative to a set of paths whose tables are kept apart, so that they also
hold of one half of a tree whose other half belongs to somebody else.
-/

namespace NexoOS.Paging

open List TableTree

def child (e : PageTableEntry) : Option PhysAddr :=
  if e.isPresent && !e.isHuge then some e.addr else none

variable (virt : VirtAddr)

/-- The indices of the first `k` levels. -/
def path (k : Nat) : List Nat :=
  (List.range k).map fun j => virt.tableIndex (4 - j)

/-- The indices of the levels from `k` down. -/
def below (virt : VirtAddr) : Nat → List Nat
  | 0 => []
  | k + 1 => virt.tableIndex (k + 1) :: below virt k

theorem path_succ (k : Nat) : path virt (k + 1) = path virt k ++ [virt.tableIndex (4 - k)] := by
  simp [path, range_succ]

@[simp] theorem length_path (k : Nat) : (path virt k).length = k := by
  simp [path]

@[simp] theorem length_below (k : Nat) : (below virt k).length = k := by
  induction k with
  | zero => rfl
  | succ k ih => simp [below, ih]

theorem path_append_below {k : Nat} (h : k ≤ 4) :
    path virt k ++ below virt (4 - k) = path virt 4 := by
  obtain rfl | rfl | rfl | rfl | rfl : k = 0 ∨ k = 1 ∨ k = 2 ∨ k = 3 ∨ k = 4 := by omega
  all_goals rfl

theorem path_four : path virt 4 = virt.tableIndex 4 :: below virt 3 := rfl

/-! ## Translation as a descent -/

/-- What the entry where a path stops says, at the level where it stops. -/
def leaf (level : Nat) (e : PageTableEntry) : Option Translation :=
  if !e.isPresent then none
  else if level = 1 then
    some { phys := e.addr + virt.pageOffset, flags := e.flags, pageSize := pageSize }
  else if e.isHuge && (level = 2 || level = 3) then
    let size := if level = 2 then page2m else page1g
    let base := e.addr &&& ~~~(size - 1)
    some { phys := base + (virt &&& (size - 1)), flags := e.flags.without .huge,
           pageSize := size }
  else none

variable {e : PageTableEntry} {root : PhysAddr} {virt : VirtAddr} {R : Region}

theorem leaf_of_not_present (virt : VirtAddr) (level : Nat) (h : e.isPresent = false) :
    leaf virt level e = none := by
  simp [leaf, h]

theorem child_of_not_present (h : e.isPresent = false) : child e = none := by
  simp [child, h]

theorem child_of_huge (h : e.isHuge = true) : child e = none := by
  simp [child, h]

theorem child_of_plain (h : e.isPresent = true) (hh : e.isHuge = false) :
    child e = some e.addr := by
  simp [child, h, hh]

theorem empty_not_present : PageTableEntry.empty.isPresent = false := by decide

theorem child_empty : child .empty = none := child_of_not_present empty_not_present

theorem translateFrom_eq (mem : Memory) (virt : VirtAddr) (level : Nat) (h : level ≤ 2)
    (table : PhysAddr) : translateFrom mem virt (level + 1) table =
      leaf virt ((descend child mem table (virt.tableIndex (level + 1)) (below virt level)).1.length
        + 1) (descend child mem table (virt.tableIndex (level + 1)) (below virt level)).2 := by
  induction level generalizing table with
  | zero =>
    rw [translateFrom]
    by_cases hp : (mem table (virt.tableIndex 1)).isPresent <;> simp [below, descend, leaf, hp]
  | succ n ih =>
    rw [translateFrom, below, descend]
    by_cases hp : (mem table (virt.tableIndex (n + 1 + 1))).isPresent
    · by_cases hh : (mem table (virt.tableIndex (n + 1 + 1))).isHuge
      · have hn : n = 0 ∨ n = 1 := by omega
        simp [child_of_huge hh, leaf, hp, hh, hn]
      · simp only [Bool.not_eq_true] at hh
        simp [child_of_plain hp hh, hp, hh, ih (by omega)]
    · simp only [Bool.not_eq_true] at hp
      simp [child_of_not_present hp, leaf, hp]

/-- Where a translation's path stops. -/
def stop (root : PhysAddr) (mem : Memory) (virt : VirtAddr) : List Nat × PageTableEntry :=
  descend child mem root (virt.tableIndex 4) (below virt 3)

theorem translate_eq {mem : Memory} (h : (mem root (virt.tableIndex 4)).isHuge = false) :
    translate root mem virt =
      leaf virt ((stop root mem virt).1.length + 1) (stop root mem virt).2 := by
  rw [translate, translateFrom, stop, below, descend]
  by_cases hp : (mem root (virt.tableIndex 4)).isPresent
  · simp [child_of_plain hp h, hp, h, translateFrom_eq mem virt 2 (Nat.le_refl _)]
  · simp only [Bool.not_eq_true] at hp
    simp [child_of_not_present hp, leaf, hp]

/-! ## Tables kept apart -/

/-- A set of paths to tables, with the paths they start with, and frames that
are kept for other uses than tables. -/
structure Region where
  holds : List Nat → Prop
  reserved : PhysAddr → Prop
  closed : ∀ p i, holds (p ++ [i]) → holds p
  short : ∀ p, holds p → p.length ≤ 3

/-- The address is translated through tables of the region. -/
def Region.Covers (R : Region) (virt : VirtAddr) : Prop := R.holds (path virt 3)

theorem Region.Covers.path (h : R.Covers virt) {k : Nat} (hk : k ≤ 3) : R.holds (path virt k) := by
  have h2 : R.holds (Paging.path virt 2) := R.closed _ _ h
  have h1 : R.holds (Paging.path virt 1) := R.closed _ _ h2
  obtain rfl | rfl | rfl | rfl : k = 0 ∨ k = 1 ∨ k = 2 ∨ k = 3 := by omega
  · exact R.closed _ _ h1
  · exact h1
  · exact h2
  · exact h

/-- The tables of the region are apart, neither the frames to come nor those
kept for other uses are among them, and the entries of the root are not
huge. -/
structure Good (R : Region) (root : PhysAddr) (s : Machine) : Prop where
  separated : Separated R.holds child s.mem root
  plain : ∀ i, R.holds [i] → (s.mem root i).isHuge = false
  fresh : ∀ f, some f ∈ s.frames → Fresh R.holds child s.mem root f
  nodup : (s.frames.filterMap id).Nodup
  frame : ∀ f, some f ∈ s.frames → f &&& addrMask = f
  reserved : ∀ f, R.reserved f → Fresh R.holds child s.mem root f ∧ some f ∉ s.frames

/-- Every address of the region is translated the same way. -/
def SameView (R : Region) (root : PhysAddr) (mem mem' : Memory) : Prop :=
  ∀ virt, R.Covers virt → translate root mem' virt = translate root mem virt

theorem SameView.refl (R : Region) (root : PhysAddr) (mem : Memory) : SameView R root mem mem :=
  fun _ _ => rfl

theorem SameView.trans {m m' m'' : Memory} (h : SameView R root m m')
    (h' : SameView R root m' m'') : SameView R root m m'' :=
  fun virt hv => (h' virt hv).trans (h virt hv)

theorem Good.translate_eq {s : Machine} (h : Good R root s) (hv : R.Covers virt) :
    translate root s.mem virt =
      leaf virt ((stop root s.mem virt).1.length + 1) (stop root s.mem virt).2 :=
  Paging.translate_eq (h.plain _ (hv.path (k := 1) (by decide)))

theorem Good.dropFrame {s : Machine} {f : Option PhysAddr} {fs : List (Option PhysAddr)}
    (h : Good R root s) (hf : s.frames = f :: fs) : Good R root { s with frames := fs } where
  __ := h
  fresh := fun g hg => h.fresh g (hf ▸ mem_cons_of_mem _ hg)
  nodup := by
    have := h.nodup
    rw [hf] at this
    cases f with
    | none => exact this
    | some f => exact (nodup_cons.mp this).2
  frame := fun g hg => h.frame g (hf ▸ mem_cons_of_mem _ hg)
  reserved := by
    intro g hg
    obtain ⟨hfresh, hnot⟩ := h.reserved g hg
    exact ⟨hfresh, fun hmem => hnot (hf ▸ mem_cons_of_mem _ hmem)⟩

theorem interFlags_present (flags : PageFlags) : (interFlags flags).raw &&& 1 = 1 := by
  unfold interFlags
  split <;> decide

theorem interFlags_huge (flags : PageFlags) : (interFlags flags).raw &&& 128 = 0 := by
  unfold interFlags
  split <;> decide

theorem child_new {f : PhysAddr} (hf : f &&& addrMask = f) (flags : PageFlags) :
    child (.new f (interFlags flags)) = some f := by
  have hh : (PageTableEntry.new f (interFlags flags)).isHuge = false := by
    rw [new_isHuge, interFlags_huge]
    rfl
  rw [child_of_plain (new_isPresent f (interFlags_present flags)) hh, new_addr, hf]

section
variable {R : Region} {root : PhysAddr} {s : Machine} {virt : VirtAddr} {k : Nat}
  {table frame : PhysAddr} {fs : List (Option PhysAddr)}

/-- One new table, hung under an entry that is not present. -/
theorem Good.link (h : Good R root s) (hv : R.Covers virt) (hk : k < 3)
    (ht : tableAt child s.mem root (path virt k) = some table)
    (hold : (s.mem table (virt.tableIndex (4 - k))).isPresent = false)
    (hf : s.frames = some frame :: fs) (flags : PageFlags) : let s' : Machine :=
      { mem := TableTree.link s.mem table (virt.tableIndex (4 - k)) frame .empty
          (.new frame (interFlags flags)),
        frames := fs }
    Good R root s' ∧ SameView R root s.mem s'.mem ∧
      tableAt child s'.mem root (path virt (k + 1)) = some frame := by
  intro s'
  have hmem : some frame ∈ s.frames := hf ▸ mem_cons_self
  have hfresh := h.fresh frame hmem
  have hchild := child_new (h.frame frame hmem) flags
  have hnone := child_of_not_present hold
  have hp := hv.path (Nat.le_of_lt hk)
  have hp1 := hv.path (k := k + 1) hk
  have htables : ∀ q, R.holds q → tableAt child s'.mem root q =
      if q = path virt (k + 1) then some frame else tableAt child s.mem root q := by
    intro q hq
    rw [path_succ]
    exact tableAt_link R.closed h.separated hp ht hfresh hnone child_empty hchild hq
  have hkeep : ∀ g, Fresh R.holds child s.mem root g → g ≠ frame →
      Fresh R.holds child s'.mem root g := by
    intro g hg hne q hq hqg
    rw [htables q hq] at hqg
    split at hqg
    · cases hqg
      exact hne rfl
    · exact hg q hq hqg
  have hnodup : frame ∉ fs.filterMap id ∧ (fs.filterMap id).Nodup := by
    have := h.nodup
    rw [hf] at this
    exact nodup_cons.mp this
  have hgood : Good R root s' := by
    constructor
    case separated =>
      exact separated_link R.closed h.separated hp ht hfresh hnone child_empty hchild
    case plain =>
      intro i hi
      have hroot : root ≠ frame := by
        intro he
        exact hfresh [] (hv.path (k := 0) (by decide)) (congrArg some he)
      show (TableTree.link s.mem table _ frame .empty _ root i).isHuge = false
      unfold TableTree.link write
      split
      · rw [new_isHuge, interFlags_huge]
        rfl
      · rw [fill, if_neg hroot]
        exact h.plain i hi
    case fresh =>
      intro g hg
      refine hkeep g (h.fresh g (hf ▸ mem_cons_of_mem _ hg)) ?_
      rintro rfl
      exact hnodup.1 (mem_filterMap.mpr ⟨some g, hg, rfl⟩)
    case nodup => exact hnodup.2
    case frame => exact fun g hg => h.frame g (hf ▸ mem_cons_of_mem _ hg)
    case reserved =>
      intro g hg
      obtain ⟨hgf, hnot⟩ := h.reserved g hg
      refine ⟨hkeep g hgf ?_, fun hmem' => hnot (hf ▸ mem_cons_of_mem _ hmem')⟩
      rintro rfl
      exact hnot hmem
  refine ⟨hgood, ?_, ?_⟩
  · intro v hvc
    rw [hgood.translate_eq hvc, h.translate_eq hvc]
    by_cases hpre : path virt k ++ [virt.tableIndex (4 - k)] <+: path v 4
    · -- the path stopped at the absent entry and now stops in the new table
      obtain ⟨r, hr⟩ := hpre
      cases r with
      | nil =>
        have := congrArg List.length hr
        simp at this
        omega
      | cons j r =>
        have hr' : v.tableIndex 4 :: below v 3 =
            path virt k ++ virt.tableIndex (4 - k) :: j :: r := by
          rw [← path_four, ← hr]
          simp
        have hpk : R.holds (path virt k ++ [virt.tableIndex (4 - k)]) := by
          rw [← path_succ]
          exact hp1
        have hafter : stop root s'.mem v = (r, .empty) :=
          descend_link_self R.closed h.separated hp ht hfresh hnone child_empty hchild hpk hr'
        have hbefore : stop root s.mem v = (j :: r, s.mem table (virt.tableIndex (4 - k))) :=
          descend_eq hr' ht (.inr hnone)
        rw [hafter, hbefore, leaf_of_not_present _ _ empty_not_present, leaf_of_not_present _ _ hold]
    · have : stop root s'.mem v = stop root s.mem v :=
        descend_link R.closed h.separated hp ht hfresh hvc hpre
      rw [this]
  · rw [htables _ hp1, if_pos rfl]

/-- A walk that creates tables keeps every translation, whether or not it
gets to its level; if it does, the table it returns is that of the path. -/
theorem walkCreate_spec (h : Good R root s) (hv : R.Covers virt) (target : Nat) (flags : PageFlags)
    (n : Nat) (hk : k + n = 4 - target) (htarget : 1 ≤ target) (htarget4 : target ≤ 4)
    (ht : tableAt child s.mem root (path virt k) = some table) :
    let r := walkCreate virt target (interFlags flags) n table s
    Good R root r.2 ∧ SameView R root s.mem r.2.mem ∧
      ∀ t, r.1 = .ok t → tableAt child r.2.mem root (path virt (4 - target)) = some t := by
  induction n generalizing k table s with
  | zero =>
    refine ⟨h, .refl _ _ _, ?_⟩
    intro t hr
    cases hr
    rw [← hk]
    exact ht
  | succ n ih =>
    have hlevel : target + n + 1 = 4 - k := by omega
    simp only [walkCreate, hlevel]
    split
    · rename_i hp
      split
      · exact ⟨h, .refl _ _ _, nofun⟩
      rename_i hh
      simp only [Bool.not_eq_true] at hh
      refine ih h (k := k + 1) (by omega) ?_
      rw [path_succ, tableAt_snoc, ht]
      exact child_of_plain hp hh
    · rename_i hp
      simp only [Bool.not_eq_true] at hp
      rcases hfs : s.frames with _ | ⟨_ | frame, fs⟩
      · simp only [allocateFrame]
        refine ⟨?_, .refl _ _ _, nofun⟩
        rwa [← hfs]
      · exact ⟨h.dropFrame hfs, .refl _ _ _, nofun⟩
      obtain ⟨hg, hsame, ht'⟩ := h.link hv (by omega) ht hp hfs flags
      obtain ⟨hg', hsame', hok⟩ := ih hg (k := k + 1) (by omega) ht'
      exact ⟨hg', hsame.trans hsame', hok⟩

theorem walk_spec {mem : Memory} (target : Nat) (n : Nat) (hk : k + n = 4 - target)
    (htarget : 1 ≤ target) (htarget4 : target ≤ 4)
    (ht : tableAt child mem root (path virt k) = some table) {t : PhysAddr}
    (hw : walk mem virt target n table = .ok t) :
    tableAt child mem root (path virt (4 - target)) = some t := by
  induction n generalizing k table with
  | zero =>
    cases hw
    rw [← hk]
    exact ht
  | succ n ih =>
    have hlevel : target + n + 1 = 4 - k := by omega
    simp only [walk, hlevel] at hw
    split at hw
    · cases hw
    rename_i hp
    split at hw
    · cases hw
    rename_i hh
    simp only [Bool.not_eq_true', Bool.not_eq_false] at hp
    simp only [Bool.not_eq_true] at hh
    refine ih (k := k + 1) (by omega) ?_ hw
    rw [path_succ, tableAt_snoc, ht]
    exact child_of_plain hp hh

/-- An address whose path stops at an entry is translated by it. -/
theorem Good.translate_at (h : Good R root s) (hk : k ≤ 3)
    (ht : tableAt child s.mem root (path virt k) = some table)
    (hs : k = 3 ∨ child (s.mem table (virt.tableIndex (4 - k))) = none) {v : VirtAddr}
    (hv : R.Covers v) (heq : path v (k + 1) = path virt (k + 1)) :
    translate root s.mem v = leaf v (4 - k) (s.mem table (virt.tableIndex (4 - k))) := by
  have hsplit : v.tableIndex 4 :: below v 3 =
      path virt k ++ virt.tableIndex (4 - k) :: below v (3 - k) := by
    rw [← path_four, ← path_append_below v (k := k + 1) (by omega), heq, path_succ,
      append_assoc, singleton_append, show 4 - (k + 1) = 3 - k by omega]
  have hstop : stop root s.mem v = (below v (3 - k), s.mem table (virt.tableIndex (4 - k))) := by
    refine descend_eq hsplit ht ?_
    rcases hs with rfl | hs
    · exact .inl rfl
    · exact .inr hs
  rw [h.translate_eq hv, hstop, length_below, show 3 - k + 1 = 4 - k by omega]

/-- Writing a leaf entry in the table of a path: below it no path of the
region goes on, or neither the old nor the new entry leads anywhere. -/
theorem Good.writeLeaf (h : Good R root s) (hv : R.Covers virt) (hk : k ≤ 3) (hk1 : 1 ≤ k)
    (ht : tableAt child s.mem root (path virt k) = some table) {e : PageTableEntry}
    (hleaf : k = 3 ∨ child (s.mem table (virt.tableIndex (4 - k))) = none ∧ child e = none) :
    let mem' := write s.mem table (virt.tableIndex (4 - k)) e
    Good R root { s with mem := mem' } ∧
      (∀ v, R.Covers v → path v (k + 1) ≠ path virt (k + 1) →
        translate root mem' v = translate root s.mem v) ∧
      ∀ v, R.Covers v → path v (k + 1) = path virt (k + 1) →
        translate root mem' v = leaf v (4 - k) e := by
  intro mem'
  have hp := hv.path hk
  have hleaf' : R.holds (path virt k ++ [virt.tableIndex (4 - k)]) →
      child (s.mem table (virt.tableIndex (4 - k))) = none ∧ child e = none := by
    intro hq
    rcases hleaf with rfl | hleaf
    · have := R.short _ hq
      simp at this
    · exact hleaf
  have hroot : table ≠ root := by
    rintro rfl
    have := h.separated (path virt k) [] table hp (hv.path (k := 0) (by decide)) ht rfl
    have hlen := congrArg List.length this
    rw [length_path, length_nil] at hlen
    omega
  have hkeep : ∀ g, Fresh R.holds child s.mem root g → Fresh R.holds child mem' root g := by
    intro g hg q hq
    rw [tableAt_write_leaf R.closed h.separated hp ht hleaf' hq]
    exact hg q hq
  have hgood : Good R root { s with mem := mem' } := by
    constructor
    case separated => exact separated_write_leaf R.closed h.separated hp ht hleaf'
    case plain =>
      intro i hi
      show (write s.mem table _ e root i).isHuge = false
      rw [write, if_neg fun hc => hroot hc.1.symm]
      exact h.plain i hi
    case fresh => exact fun g hg => hkeep g (h.fresh g hg)
    case nodup => exact h.nodup
    case frame => exact h.frame
    case reserved => exact fun g hg => ⟨hkeep g (h.reserved g hg).1, (h.reserved g hg).2⟩
  refine ⟨hgood, ?_, ?_⟩
  · intro v hvc hne
    have hstop : stop root mem' v = stop root s.mem v := by
      refine descend_write R.closed h.separated hp ht e hvc ?_
      rw [← path_succ, ← path_four, ← path_append_below v (k := k + 1) (by omega)]
      intro hpre
      have := prefix_of_prefix_length_le hpre (prefix_append _ _) (by simp)
      exact hne (this.eq_of_length (by simp)).symm
    rw [show translate root mem' v = _ from hgood.translate_eq hvc, h.translate_eq hvc, hstop]
  · intro v hvc heq
    have hread : mem' table (virt.tableIndex (4 - k)) = e := if_pos ⟨rfl, rfl⟩
    have hs : k = 3 ∨ child (mem' table (virt.tableIndex (4 - k))) = none := by
      rw [hread]
      exact hleaf.imp_right And.right
    have hat : translate root mem' v = leaf v (4 - k) (mem' table (virt.tableIndex (4 - k))) :=
      hgood.translate_at hk (tableAt_write_here R.closed h.separated hp ht e) hs hvc heq
    rwa [hread] at hat

/-! ## The operations -/

/-- A call on the entry at depth `k` of an address's path: if it fails, no
translation changes; if it succeeds, the addresses that stop at this entry
went by `old` and go by `new`, and no other does. -/
structure LeafOp {β : Type} (R : Region) (root : PhysAddr) (k : Nat) (virt : VirtAddr)
    (mem mem' : Memory) (res : Except MapError β) (old new : PageTableEntry) : Prop where
  failed : ∀ err, res = .error err → SameView R root mem mem'
  others : ∀ v, R.Covers v → path v (k + 1) ≠ path virt (k + 1) →
    translate root mem' v = translate root mem v
  here : ∀ b, res = .ok b → ∀ v, R.Covers v → path v (k + 1) = path virt (k + 1) →
    translate root mem v = leaf v (4 - k) old ∧ translate root mem' v = leaf v (4 - k) new

theorem LeafOp.of_error {β : Type} {mem mem' : Memory} (h : SameView R root mem mem')
    (err : MapError) (old new : PageTableEntry) :
    LeafOp R root k virt mem mem' (.error err : Except MapError β) old new where
  failed := fun _ _ => h
  others := fun v hv _ => h v hv
  here := nofun

theorem child_new_huge (phys : PhysAddr) (flags : PageFlags) :
    child (.new phys (flags ||| .huge)) = none := by
  apply child_of_huge
  have hbit : (flags ||| PageFlags.huge).raw &&& 128 = 128 := union_and flags .huge
  rw [new_isHuge, hbit]
  rfl

section
variable (h : Good R root s) (hv : R.Covers virt)
include h hv

theorem mapLeaf_spec (flags : PageFlags)
    (e : PageTableEntry) {target : Nat} (htarget : target = 1 ∨ target = 2 ∧ child e = none) :
    let r := mapLeaf virt (virt.tableIndex target) e
      (walkCreate virt target (interFlags flags) (4 - target) root s)
    Good R root r.2 ∧ ∃ old, old.isPresent = false ∧
      LeafOp R root (4 - target) virt s.mem r.2.mem r.1 old e := by
  have ht2 : 1 ≤ target ∧ target ≤ 2 := by omega
  obtain ⟨hg, hsame, hok⟩ := walkCreate_spec (k := 0) h hv target flags
    (4 - target) (by omega) ht2.1 (by omega) (rfl : tableAt child s.mem root [] = some root)
  rcases hw : walkCreate virt target (interFlags flags) (4 - target) root s with ⟨err | table, s1⟩
  · rw [hw] at hg hsame
    exact ⟨hg, .empty, empty_not_present, .of_error hsame _ _ _⟩
  rw [hw] at hg hsame hok
  have ht := hok table rfl
  intro r
  have hr : r = if (s1.mem table (virt.tableIndex target)).isPresent
      then (.error (.alreadyMapped virt), s1)
      else (.ok (), { s1 with mem := write s1.mem table (virt.tableIndex target) e }) := rfl
  by_cases hp : (s1.mem table (virt.tableIndex target)).isPresent
  · rw [if_pos hp] at hr
    rw [hr]
    exact ⟨hg, .empty, empty_not_present, .of_error hsame _ _ _⟩
  rw [if_neg hp] at hr
  rw [hr]
  simp only [Bool.not_eq_true] at hp
  have hnone := child_of_not_present hp
  have hidx : 4 - (4 - target) = target := by omega
  have hleaf : 4 - target = 3 ∨
      child (s1.mem table (virt.tableIndex (4 - (4 - target)))) = none ∧ child e = none := by
    rw [hidx]
    rcases htarget with rfl | ⟨rfl, he⟩
    · exact .inl rfl
    · exact .inr ⟨hnone, he⟩
  obtain ⟨hg', hothers, hhere⟩ := hg.writeLeaf hv (by omega) (by omega) ht hleaf
  rw [hidx] at hg' hothers hhere
  refine ⟨hg', _, hp, ?_⟩
  constructor
  case failed => exact nofun
  case others => exact fun v hvc hne => (hothers v hvc hne).trans (hsame v hvc)
  case here =>
    intro _ _ v hvc heq
    have hold := hg.translate_at (by omega) ht (hleaf.imp_right And.left) hvc heq
    rw [hidx] at hold
    rw [hidx, ← hsame v hvc]
    exact ⟨hold, hhere v hvc heq⟩

theorem map4k_spec (phys : PhysAddr) (flags : PageFlags) :
    let r := map4k root virt phys flags s
    Good R root r.2 ∧ ∃ old, old.isPresent = false ∧
      LeafOp R root 3 virt s.mem r.2.mem r.1 old (.new phys (flags ||| .present)) := by
  intro r
  by_cases ha : (!isAligned virt pageSize || !isAligned phys pageSize) = true
  · have hr : r = (.error (.unaligned virt), s) := if_pos ha
    rw [hr]
    exact ⟨h, .empty, empty_not_present, .of_error (.refl _ _ _) _ _ _⟩
  have hr : r = _ := if_neg ha
  rw [hr]
  exact mapLeaf_spec h hv flags _ (.inl rfl)

theorem map2m_spec (phys : PhysAddr) (flags : PageFlags) :
    let r := map2m root virt phys flags s
    Good R root r.2 ∧ ∃ old, old.isPresent = false ∧
      LeafOp R root 2 virt s.mem r.2.mem r.1 old (.new phys (flags ||| .present ||| .huge)) := by
  intro r
  by_cases ha : (!isAligned virt page2m || !isAligned phys page2m) = true
  · have hr : r = (.error (.unaligned virt), s) := if_pos ha
    rw [hr]
    exact ⟨h, .empty, empty_not_present, .of_error (.refl _ _ _) _ _ _⟩
  have hr : r = _ := if_neg ha
  rw [hr]
  exact mapLeaf_spec h hv flags _ (.inr ⟨rfl, child_new_huge _ _⟩)

theorem writeFound {β : Type}
    (hw : walk s.mem virt 1 3 root = .ok table) (e : PageTableEntry) (b : β) :
    let mem' := write s.mem table (virt.tableIndex 1) e
    Good R root { s with mem := mem' } ∧
      LeafOp R root 3 virt s.mem mem' (.ok b : Except MapError β)
        (s.mem table (virt.tableIndex 1)) e := by
  have ht : tableAt child s.mem root (path virt 3) = some table :=
    walk_spec (k := 0) 1 3 rfl (by decide) (by decide) rfl hw
  obtain ⟨hg, hothers, hhere⟩ := h.writeLeaf hv (Nat.le_refl 3) (by decide) ht (.inl rfl)
  refine ⟨hg, nofun, hothers, ?_⟩
  intro _ _ v hvc heq
  exact ⟨h.translate_at (Nat.le_refl 3) ht (.inl rfl) hvc heq, hhere v hvc heq⟩

theorem unmap4k_spec : let r := unmap4k root virt s.mem
    Good R root { s with mem := r.2 } ∧ ∃ old, LeafOp R root 3 virt s.mem r.2 r.1 old .empty ∧
      ∀ frame, r.1 = .ok frame → old.isPresent = true ∧ frame = old.addr := by
  unfold unmap4k
  split
  · exact ⟨h, .empty, .of_error (.refl _ _ _) _ _ _, by simp⟩
  split
  · exact ⟨h, .empty, .of_error (.refl _ _ _) _ _ _, by simp⟩
  rename_i table hw
  dsimp only
  split
  · exact ⟨h, .empty, .of_error (.refl _ _ _) _ _ _, by simp⟩
  rename_i hp
  obtain ⟨hg, hop⟩ := writeFound h hv hw .empty (s.mem table (virt.tableIndex 1)).addr
  refine ⟨hg, _, hop, ?_⟩
  intro frame hr
  cases hr
  exact ⟨by simpa using hp, rfl⟩

theorem updateFlags4k_spec (flags : PageFlags) :
    let r := updateFlags4k root virt flags s.mem
    Good R root { s with mem := r.2 } ∧ ∃ old,
      LeafOp R root 3 virt s.mem r.2 r.1 old (.new old.addr (flags ||| .present)) ∧
      ∀ b, r.1 = .ok b → old.isPresent = true := by
  unfold updateFlags4k
  split
  · exact ⟨h, .empty, .of_error (.refl _ _ _) _ _ _, by simp⟩
  split
  · exact ⟨h, .empty, .of_error (.refl _ _ _) _ _ _, by simp⟩
  rename_i table hw
  dsimp only
  split
  · exact ⟨h, .empty, .of_error (.refl _ _ _) _ _ _, by simp⟩
  rename_i hp
  obtain ⟨hg, hop⟩ := writeFound h hv hw
    (.new (s.mem table (virt.tableIndex 1)).addr (flags ||| .present)) ()
  exact ⟨hg, _, hop, fun _ _ => by simpa using hp⟩

end

end

end NexoOS.Paging
