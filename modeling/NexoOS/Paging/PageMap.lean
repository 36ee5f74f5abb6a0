import NexoOS.Paging.Walk

/-!
# The mapper refines a map from pages

What the tables are for: a map from pages of two sizes to frames and flags.
A call that succeeds does to this map what its name says, a call that fails
does nothing, and translation is a lookup.
-/

namespace NexoOS.Paging

open Function

open TableTree PageFlags

inductive Call where
  | map4k (virt : VirtAddr) (phys : PhysAddr) (flags : PageFlags)
  | map2m (virt : VirtAddr) (phys : PhysAddr) (flags : PageFlags)
  | unmap4k (virt : VirtAddr)
  | updateFlags4k (virt : VirtAddr) (flags : PageFlags)

/-- The call on the tables at `root`; only `unmap_4k` returns a frame. -/
def Call.exec (root : PhysAddr) (s : Machine) :
    Call → Except MapError (Option PhysAddr) × Machine
  | .map4k virt phys flags =>
    let r := Paging.map4k root virt phys flags s
    (r.1.map fun _ => none, r.2)
  | .map2m virt phys flags =>
    let r := Paging.map2m root virt phys flags s
    (r.1.map fun _ => none, r.2)
  | .unmap4k virt =>
    let r := Paging.unmap4k root virt s.mem
    (r.1.map some, { s with mem := r.2 })
  | .updateFlags4k virt flags =>
    let r := Paging.updateFlags4k root virt flags s.mem
    (r.1.map fun _ => none, { s with mem := r.2 })

/-- Frames and flags by page number, for pages of 4 KiB and of 2 MiB. -/
structure PageMap where
  small : Nat → Option (PhysAddr × PageFlags)
  large : Nat → Option (PhysAddr × PageFlags)

def smallPage (v : VirtAddr) : Nat := v.toNat / 4096
def largePage (v : VirtAddr) : Nat := v.toNat / 2097152

namespace PageMap

def empty : PageMap := { small := fun _ => none, large := fun _ => none }

def translate (a : PageMap) (v : VirtAddr) : Option Translation :=
  match a.small (smallPage v) with
  | some (frame, flags) =>
    some { phys := frame + v.pageOffset, flags := flags, pageSize := Paging.pageSize }
  | none =>
    (a.large (largePage v)).map fun x =>
      { phys := x.1 + (v &&& (page2m - 1)), flags := x.2, pageSize := page2m }

def stored (flags : PageFlags) : PageFlags := .fromBits (flags ||| .present).raw

/-- What a call that succeeds is meant to do. -/
def apply (a : PageMap) : Call → PageMap
  | .map4k virt phys flags =>
    { a with small := update a.small (smallPage virt) (some (phys, stored flags)) }
  | .map2m virt phys flags =>
    { a with
      large := update a.large (largePage virt)
        (some (phys, (stored flags).without .huge)) }
  | .unmap4k virt => { a with small := update a.small (smallPage virt) none }
  | .updateFlags4k virt flags =>
    { a with
      small := update a.small (smallPage virt)
        ((a.small (smallPage virt)).map fun x => (x.1, stored flags)) }

end PageMap

/-- The tables and the map side by side; a failed call leaves the map. -/
def step (root : PhysAddr) (x : Machine × PageMap) (c : Call) : Machine × PageMap :=
  let r := c.exec root x.1
  match r.1 with
  | .ok _ => (r.2, x.2.apply c)
  | .error _ => (r.2, x.2)

def run (root : PhysAddr) (x : Machine × PageMap) (calls : List Call) : Machine × PageMap :=
  calls.foldl (step root) x

/-- The address lies in the page the call names. -/
def Call.Names (v : VirtAddr) : Call → Prop
  | .map4k virt _ _ => smallPage v = smallPage virt
  | .map2m virt _ _ => largePage v = largePage virt
  | .unmap4k virt => smallPage v = smallPage virt
  | .updateFlags4k virt _ => smallPage v = smallPage virt

/-- A canonical page and, where one is given, a frame an entry can hold. -/
def Call.Valid : Call → Prop
  | .map4k virt phys _ => virt.isCanonical = true ∧ phys.toNat < 2 ^ 52
  | .map2m virt phys _ => virt.isCanonical = true ∧ phys.toNat < 2 ^ 52
  | .unmap4k virt => virt.isCanonical = true
  | .updateFlags4k virt _ => virt.isCanonical = true

/-! ## Pages and paths -/

/-- Canonical addresses whose paths start the same lie in the same page. -/
theorem path_eq_iff {v w : VirtAddr} (hv : v.isCanonical = true) (hw : w.isCanonical = true) :
    (path v 4 = path w 4 ↔ smallPage v = smallPage w) ∧
      (path v 3 = path w 3 ↔ largePage v = largePage w) := by
  rw [isCanonical_iff] at hv hw
  have hv' := v.toNat_lt
  have hw' := w.toNat_lt
  have hfour : ∀ x : VirtAddr,
      path x 4 = [x.tableIndex 4, x.tableIndex 3, x.tableIndex 2, x.tableIndex 1] := fun _ => rfl
  have hthree : ∀ x : VirtAddr,
      path x 3 = [x.tableIndex 4, x.tableIndex 3, x.tableIndex 2] := fun _ => rfl
  simp only [hfour, hthree, List.cons.injEq, and_true, smallPage, largePage,
    tableIndex_eq _ (show 1 ≤ 4 by decide) (show 4 ≤ 4 by decide),
    tableIndex_eq _ (show 1 ≤ 3 by decide) (show 3 ≤ 4 by decide),
    tableIndex_eq _ (show 1 ≤ 2 by decide) (show 2 ≤ 4 by decide),
    tableIndex_eq _ (show 1 ≤ 1 by decide) (show 1 ≤ 4 by decide)]
  omega

/-! ## New entries -/

theorem leaf_new_small {phys : PhysAddr} (ha : isAligned phys pageSize = true)
    (hlt : phys.toNat < 2 ^ 52) (flags : PageFlags) (v : VirtAddr) :
    leaf v 1 (.new phys (flags ||| .present)) =
      some { phys := phys + v.pageOffset, flags := PageMap.stored flags, pageSize := pageSize } := by
  have hp := new_isPresent phys (union_and flags .present)
  simp only [leaf, hp, new_addr_frame ha hlt, new_flags]
  rfl

theorem stored_large (flags : PageFlags) :
    without ⟨(flags ||| present ||| huge).bits⟩ .huge =
      (PageMap.stored flags).without .huge := by
  have key : ∀ f h mask : UInt64, ((f ||| h) &&& ~~~mask) &&& ~~~h = (f &&& ~~~mask) &&& ~~~h := by
    intro f h mask
    apply UInt64.toBitVec_inj.1
    ext i
    simp
    grind
  exact congrArg mk (key _ _ _)

theorem present_of_huge (flags : PageFlags) :
    (flags ||| present ||| huge).raw &&& 1 = 1 := by
  show ((flags.raw ||| 1) ||| 128) &&& 1 = 1
  apply UInt64.toBitVec_inj.1
  ext i
  simp
  grind

theorem leaf_new_large {phys : PhysAddr} (ha : isAligned phys page2m = true)
    (hlt : phys.toNat < 2 ^ 52) (flags : PageFlags) (v : VirtAddr) :
    leaf v 2 (.new phys (flags ||| .present ||| .huge)) =
      some { phys := phys + (v &&& (page2m - 1)), flags := (PageMap.stored flags).without .huge,
             pageSize := page2m } := by
  have hp := new_isPresent phys (present_of_huge flags)
  have hh : (PageTableEntry.new phys (flags ||| .present ||| .huge)).isHuge = true := by
    have hbit : (flags ||| present ||| huge).raw &&& 128 = 128 :=
      union_and _ .huge
    rw [new_isHuge, hbit]
    rfl
  have hsmall : isAligned phys pageSize = true := by
    rw [isAligned_page2m] at ha
    rw [isAligned_pageSize]
    omega
  simp [leaf, hp, hh, new_addr_frame hsmall hlt, new_flags, stored_large, and_not_of_aligned ha]

/-! ## Refinement -/

/-- All paths to tables of the four levels. -/
def Region.all : Region where
  holds := fun p => p.length ≤ 3
  reserved := fun _ => False
  closed := by
    intro p i h
    rw [List.length_append] at h
    exact Nat.le_of_succ_le h
  short := fun _ h => h

theorem covers_all (v : VirtAddr) : Region.all.Covers v := by
  simp [Region.Covers, Region.all]

/-- The tables hold the map, and no small page lies in a large one. -/
structure Refines (root : PhysAddr) (s : Machine) (a : PageMap) : Prop where
  good : Good .all root s
  agree : ∀ v : VirtAddr, v.isCanonical = true → translate root s.mem v = a.translate v
  apart : ∀ v : VirtAddr, v.isCanonical = true → a.small (smallPage v) ≠ none →
    a.large (largePage v) = none

namespace PageMap

variable {a : PageMap} {v : VirtAddr} {flags : PageFlags}

theorem translate_congr {b : PageMap} (hs : b.small (smallPage v) = a.small (smallPage v))
    (hl : b.large (largePage v) = a.large (largePage v)) : b.translate v = a.translate v := by
  rw [translate, translate, hs, hl]

theorem translate_eq_none :
    a.translate v = none ↔ a.small (smallPage v) = none ∧ a.large (largePage v) = none := by
  rw [translate]
  cases a.small (smallPage v) <;> simp

theorem translate_large {frame : PhysAddr} (hs : a.small (smallPage v) = none)
    (h : a.large (largePage v) = some (frame, flags)) : a.translate v =
      some { phys := frame + (v &&& (page2m - 1)), flags := flags, pageSize := page2m } := by
  rw [translate, hs, h]
  rfl

theorem small_of_translate {phys : PhysAddr} (h : a.translate v =
      some { phys := phys + v.pageOffset, flags := flags, pageSize := Paging.pageSize }) :
    a.small (smallPage v) = some (phys, flags) := by
  rw [translate] at h
  split at h
  · rename_i frame fl hs
    simp only [Option.some.injEq, Translation.mk.injEq, and_true] at h
    obtain ⟨hphys, rfl⟩ := h
    rw [hs, (UInt64.add_left_inj _).1 hphys]
  · rcases hl : a.large (largePage v) with _ | x
    · simp [hl] at h
    · simp [hl, Paging.pageSize, page2m] at h

end PageMap

theorem refines_empty {root : PhysAddr} {s : Machine} (hzero : ∀ i, s.mem root i = .empty)
    (hnodup : (s.frames.filterMap id).Nodup) (hframe : ∀ f, some f ∈ s.frames →
      isAligned f pageSize = true ∧ f.toNat < 2 ^ 52 ∧ f ≠ root) : Refines root s .empty := by
  have htable : ∀ p t, tableAt child s.mem root p = some t → p = [] ∧ t = root := by
    intro p t h
    cases p with
    | nil =>
      cases h
      exact ⟨rfl, rfl⟩
    | cons i p => simp [tableAt, hzero, child_empty] at h
  constructor
  case good =>
    constructor
    case separated =>
      intro p q t _ _ hp hq
      rw [(htable p t hp).1, (htable q t hq).1]
    case plain =>
      intro i _
      rw [hzero]
      decide
    case fresh =>
      intro f hf p _ hp
      exact (hframe f hf).2.2 (htable p f hp).2
    case nodup => exact hnodup
    case frame => exact fun f hf => addr_of_aligned (hframe f hf).1 (hframe f hf).2.1
    case reserved => exact fun _ hf => hf.elim
  case agree =>
    intro v _
    rw [translate, translateFrom, hzero]
    rfl
  case apart => exact fun _ _ _ => rfl

theorem leaf_of_present {e : PageTableEntry} (h : e.isPresent = true) (v : VirtAddr) :
    leaf v 1 e = some { phys := e.addr + v.pageOffset, flags := e.flags, pageSize := pageSize } := by
  simp [leaf, h]

section
variable {root : PhysAddr} {s : Machine} {a : PageMap} {virt : VirtAddr}

theorem Refines.of_failed (h : Refines root s a) {s' : Machine} (hg : Good .all root s')
    (hsame : SameView .all root s.mem s'.mem) : Refines root s' a :=
  ⟨hg, fun v hv => (hsame v (covers_all v)).trans (h.agree v hv), h.apart⟩

section
variable (h : Refines root s a) (hv : virt.isCanonical = true)
include h hv

/-- A small page gets a new value: nothing, or a frame where no large page
lies. -/
theorem Refines.setSmall {s' : Machine}
    (hg : Good .all root s') {β : Type} {res : Except MapError β} {old new : PageTableEntry}
    (hop : LeafOp .all root 3 virt s.mem s'.mem res old new) {b : β} (hres : res = .ok b)
    {x : Option (PhysAddr × PageFlags)} (hlarge : a.large (largePage virt) = none)
    (hnew : ∀ v, leaf v 1 new =
      x.map fun y => { phys := y.1 + v.pageOffset, flags := y.2, pageSize := pageSize }) :
    Refines root s' { a with small := update a.small (smallPage virt) x } := by
  have hpage : ∀ v, smallPage v = smallPage virt → largePage v = largePage virt := by
    intro v hs
    simp only [smallPage, largePage] at hs ⊢
    omega
  refine ⟨hg, ?_, ?_⟩
  · intro v hvc
    by_cases hs : smallPage v = smallPage virt
    · have hpath := (path_eq_iff hvc hv).1.2 hs
      have hl : a.large (largePage v) = none := by rw [hpage v hs, hlarge]
      rw [(hop.here b hres v (covers_all v) hpath).2]
      simp only [PageMap.translate, hs, update_self, hl]
      cases x <;> exact hnew v
    · have hpath : path v 4 ≠ path virt 4 := fun hp => hs ((path_eq_iff hvc hv).1.1 hp)
      rw [hop.others v (covers_all v) hpath, h.agree v hvc]
      symm
      apply PageMap.translate_congr
      · exact update_of_ne hs ..
      · rfl
  · intro v hvc hne
    by_cases hs : smallPage v = smallPage virt
    · show a.large (largePage v) = none
      rw [hpage v hs, hlarge]
    apply h.apart v hvc
    intro hnone
    exact hne ((update_of_ne hs ..).trans hnone)

theorem Refines.setLarge {s' : Machine}
    (hg : Good .all root s') {β : Type} {res : Except MapError β} {old new : PageTableEntry}
    (hold : old.isPresent = false) (hop : LeafOp .all root 2 virt s.mem s'.mem res old new) {b : β}
    (hres : res = .ok b) {frame : PhysAddr} {flags : PageFlags} (hnew : ∀ v, leaf v 2 new =
      some { phys := frame + (v &&& (page2m - 1)), flags := flags, pageSize := page2m }) :
    Refines root s' { a with large := update a.large (largePage virt) (some (frame, flags)) } := by
  -- nothing was mapped in the large page
  have hvacant : ∀ v : VirtAddr, v.isCanonical = true → largePage v = largePage virt →
      translate root s'.mem v = leaf v 2 new ∧ a.small (smallPage v) = none := by
    intro v hvc hl
    obtain ⟨hbefore, hafter⟩ :=
      hop.here b hres v (covers_all v) ((path_eq_iff hvc hv).2.2 hl)
    rw [leaf_of_not_present _ _ hold, h.agree v hvc] at hbefore
    exact ⟨hafter, (PageMap.translate_eq_none.1 hbefore).1⟩
  refine ⟨hg, ?_, ?_⟩
  · intro v hvc
    by_cases hl : largePage v = largePage virt
    · obtain ⟨hafter, hsmall⟩ := hvacant v hvc hl
      rw [hafter, hnew]
      symm
      apply PageMap.translate_large
      · exact hsmall
      · show update a.large (largePage virt) _ (largePage v) = _
        rw [hl, update_self]
    · have hpath : path v 3 ≠ path virt 3 := fun hp => hl ((path_eq_iff hvc hv).2.1 hp)
      rw [hop.others v (covers_all v) hpath, h.agree v hvc]
      symm
      apply PageMap.translate_congr
      · rfl
      · exact update_of_ne hl ..
  · intro v hvc hne
    by_cases hl : largePage v = largePage virt
    · exact absurd (hvacant v hvc hl).2 hne
    · exact (update_of_ne hl ..).trans (h.apart v hvc hne)

theorem Refines.small_of_present
    {old : PageTableEntry} (hp : old.isPresent = true)
    (hold : translate root s.mem virt = leaf virt 1 old) :
    a.small (smallPage virt) = some (old.addr, old.flags) ∧ a.large (largePage virt) = none := by
  rw [h.agree virt hv, leaf_of_present hp] at hold
  have hsmall := PageMap.small_of_translate hold
  refine ⟨hsmall, h.apart virt hv ?_⟩
  rw [hsmall]
  exact Option.some_ne_none _

end

/-- The address a call is about, and the depth of its entry. -/
def Call.target : Call → VirtAddr × Nat
  | .map4k virt _ _ => (virt, 3)
  | .map2m virt _ _ => (virt, 2)
  | .unmap4k virt => (virt, 3)
  | .updateFlags4k virt _ => (virt, 3)

theorem LeafOp.map {β γ : Type} {R : Region} {k : Nat} {mem mem' : Memory}
    {res : Except MapError β} {old new : PageTableEntry}
    (h : LeafOp R root k virt mem mem' res old new) (f : β → γ) :
    LeafOp R root k virt mem mem' (res.map f) old new := by
  cases res with
  | error err => exact .of_error (h.failed err rfl) err old new
  | ok b => exact ⟨nofun, h.others, fun _ _ => h.here b rfl⟩

/-- What a call that succeeds found at its entry, and what it put there. -/
def Call.Wrote (old new : PageTableEntry) : Call → Prop
  | .map4k _ phys flags => old.isPresent = false ∧ isAligned phys pageSize = true ∧
    new = .new phys (flags ||| .present)
  | .map2m _ phys flags => old.isPresent = false ∧ isAligned phys page2m = true ∧
    new = .new phys (flags ||| .present ||| .huge)
  | .unmap4k _ => old.isPresent = true ∧ new = .empty
  | .updateFlags4k _ flags => old.isPresent = true ∧ new = .new old.addr (flags ||| .present)

theorem Good.exec (h : Good .all root s) (c : Call) : Good .all root (c.exec root s).2 ∧
    ∃ old new, LeafOp .all root c.target.2 c.target.1 s.mem (c.exec root s).2.mem
      (c.exec root s).1 old new ∧ ∀ b, (c.exec root s).1 = .ok b → c.Wrote old new := by
  have haligned : ∀ {β : Type} {p q : Bool} {x : Machine} {y : Except MapError β × Machine}
      {err : MapError} {f : β → Option PhysAddr} {b : Option PhysAddr},
      ((if !p || !q then (.error err, x) else y).1.map f) = .ok b → q = true := by
    intro β p q x y err f b hb
    by_contra hq
    rw [Bool.not_eq_true] at hq
    simp [hq] at hb
    cases hb
  have hok : ∀ {β : Type} {r : Except MapError β} {f : β → Option PhysAddr} {b},
      r.map f = .ok b → ∃ b', r = .ok b' := by
    intro β r f b hb
    cases r with
    | error err => cases hb
    | ok b' => exact ⟨b', rfl⟩
  cases c with
  | map4k virt phys flags =>
    obtain ⟨hg, old, hold, hop⟩ := map4k_spec h (covers_all virt) phys flags
    exact ⟨hg, old, _, hop.map _, fun b hb => ⟨hold, haligned hb, rfl⟩⟩
  | map2m virt phys flags =>
    obtain ⟨hg, old, hold, hop⟩ := map2m_spec h (covers_all virt) phys flags
    exact ⟨hg, old, _, hop.map _, fun b hb => ⟨hold, haligned hb, rfl⟩⟩
  | unmap4k virt =>
    obtain ⟨hg, old, hop, hp⟩ := unmap4k_spec h (covers_all virt)
    refine ⟨hg, old, _, hop.map _, fun b hb => ⟨?_, rfl⟩⟩
    obtain ⟨b', hb'⟩ := hok hb
    exact (hp b' hb').1
  | updateFlags4k virt flags =>
    obtain ⟨hg, old, hop, hp⟩ := updateFlags4k_spec h (covers_all virt) flags
    refine ⟨hg, old, _, hop.map _, fun b hb => ⟨?_, rfl⟩⟩
    obtain ⟨b', hb'⟩ := hok hb
    exact hp b' hb'

theorem Call.names_iff {c : Call} (hc : c.Valid) {v : VirtAddr} (hv : v.isCanonical = true) :
    path v (c.target.2 + 1) = path c.target.1 (c.target.2 + 1) ↔ c.Names v := by
  cases c with
  | map4k virt phys flags => exact (path_eq_iff hv hc.1).1
  | map2m virt phys flags => exact (path_eq_iff hv hc.1).2
  | unmap4k | updateFlags4k => exact (path_eq_iff hv hc).1

/-- What a call may change: nothing if it fails, and only the page it
names. -/
theorem Good.exec_local (h : Good .all root s) {c : Call} (hc : c.Valid) :
    (∀ err, (c.exec root s).1 = .error err → SameView .all root s.mem (c.exec root s).2.mem) ∧
    ∀ v : VirtAddr, v.isCanonical = true → ¬ c.Names v →
      translate root (c.exec root s).2.mem v = translate root s.mem v := by
  obtain ⟨-, old, new, hop, -⟩ := h.exec c
  exact ⟨hop.failed, fun v hv hn => hop.others v (covers_all v) fun hp =>
    hn ((Call.names_iff hc hv).1 hp)⟩

theorem Refines.exec (h : Refines root s a) {c : Call} (hc : c.Valid) {b : Option PhysAddr}
    (hres : (c.exec root s).1 = .ok b) : Refines root (c.exec root s).2 (a.apply c) := by
  obtain ⟨hg, old, new, hop, hwrote⟩ := h.good.exec c
  have hold := (hop.here b hres c.target.1 (covers_all _) rfl).1
  cases c with
  | map4k virt phys flags =>
    obtain ⟨hvacant, haligned, rfl⟩ := hwrote b hres
    rw [leaf_of_not_present _ _ hvacant] at hold
    have hnone := (h.agree virt hc.1).symm.trans hold
    exact h.setSmall hc.1 hg hop hres (PageMap.translate_eq_none.1 hnone).2
      (leaf_new_small haligned hc.2 flags)
  | map2m virt phys flags =>
    obtain ⟨hvacant, haligned, rfl⟩ := hwrote b hres
    exact h.setLarge hc.1 hg hvacant hop hres (leaf_new_large haligned hc.2 flags)
  | unmap4k virt =>
    obtain ⟨hp, rfl⟩ := hwrote b hres
    exact h.setSmall hc hg hop hres (h.small_of_present hc hp hold).2
      fun v => leaf_of_not_present v 1 empty_not_present
  | updateFlags4k virt flags =>
    obtain ⟨hp, rfl⟩ := hwrote b hres
    obtain ⟨hsmall, hlarge⟩ := h.small_of_present hc hp hold
    refine h.setSmall hc hg hop hres hlarge fun v => ?_
    rw [hsmall, leaf_of_present (new_isPresent _ (union_and flags .present)), new_addr, new_flags]
    have hmask : old.addr &&& addrMask = old.addr := by
      show (old.raw &&& addrMask) &&& addrMask = old.raw &&& addrMask
      rw [UInt64.and_assoc, UInt64.and_self]
    rw [hmask]
    rfl

theorem Refines.step {x : Machine × PageMap} (h : Refines root x.1 x.2) {c : Call}
    (hc : c.Valid) : Refines root (step root x c).1 (step root x c).2 := by
  unfold Paging.step
  dsimp only
  split
  · rename_i b hres
    exact h.exec hc hres
  · rename_i err hres
    exact h.of_failed (h.good.exec c).1 ((h.good.exec_local hc).1 err hres)

theorem Refines.run {x : Machine × PageMap} (h : Refines root x.1 x.2) (calls : List Call)
    (hcalls : ∀ c ∈ calls, c.Valid) : Refines root (run root x calls).1 (run root x calls).2 := by
  induction calls generalizing x with
  | nil => exact h
  | cons c calls ih =>
    obtain ⟨hc, hrest⟩ := List.forall_mem_cons.1 hcalls
    exact ih (h.step hc) hrest

/-- From an empty root table, with an allocator that hands out each frame once
and may run out: after any sequence of calls on canonical addresses and frames
an entry can hold, translation is lookup in the map; a further call that fails
changes no translation, and one that succeeds only that of the page it
names. -/
theorem mapper_refines_pageMap (hzero : ∀ i, s.mem root i = .empty)
    (hnodup : (s.frames.filterMap id).Nodup)
    (hframe : ∀ f, some f ∈ s.frames → isAligned f pageSize = true ∧ f.toNat < 2 ^ 52 ∧ f ≠ root)
    (calls : List Call) (hcalls : ∀ c ∈ calls, c.Valid) (c : Call) (hc : c.Valid) :
    (∀ v : VirtAddr, v.isCanonical = true → translate root (run root (s, .empty) calls).1.mem v =
        (run root (s, .empty) calls).2.translate v) ∧
    (∀ err, (c.exec root (run root (s, .empty) calls).1).1 = .error err → ∀ v,
      translate root (c.exec root (run root (s, .empty) calls).1).2.mem v =
        translate root (run root (s, .empty) calls).1.mem v) ∧
    ∀ v : VirtAddr, v.isCanonical = true → ¬ c.Names v →
      translate root (c.exec root (run root (s, .empty) calls).1).2.mem v =
        translate root (run root (s, .empty) calls).1.mem v := by
  have href : Refines root (run root (s, .empty) calls).1 (run root (s, .empty) calls).2 :=
    Refines.run (x := (s, .empty)) (refines_empty hzero hnodup hframe) calls hcalls
  obtain ⟨hfail, hlocal⟩ := href.good.exec_local hc
  exact ⟨href.agree, fun err he v => hfail err he v (covers_all v), hlocal⟩

end

/-- Empty memory and five frames. -/
def freshMachine : Machine :=
  { mem := fun _ _ => .empty,
    frames := [some 0x2000, some 0x3000, some 0x4000, none, some 0x5000] }

theorem mapper_refines_pageMap_sample : translate 0x1000 (run 0x1000 (freshMachine, .empty)
          [.map4k 0x400000 0x9000 .present, .map2m 0x40000000 0x200000 .writable]).1.mem 0x400123 =
      some { phys := 0x9123, flags := .present, pageSize := 4096 } := by
  have h := mapper_refines_pageMap (s := freshMachine)
    (fun _ => rfl : ∀ i, freshMachine.mem 0x1000 i = .empty)
    (by decide)
    (by
      intro f hf
      simp only [freshMachine, List.mem_cons, List.not_mem_nil, Option.some.injEq, or_false,
        reduceCtorEq, false_or] at hf
      rcases hf with rfl | rfl | rfl | rfl <;> decide)
    [.map4k 0x400000 0x9000 .present, .map2m 0x40000000 0x200000 .writable]
    (by
      intro c hc
      simp only [List.mem_cons, List.not_mem_nil, or_false] at hc
      rcases hc with rfl | rfl
      · exact ⟨by decide, by decide⟩
      · exact ⟨by decide, by decide⟩)
    (.unmap4k 0x400000) (by decide : VirtAddr.isCanonical 0x400000 = true)
  rw [h.1 0x400123 (by decide)]
  decide +kernel

/-- The index bits do not see the upper bits of an address, and an entry has
no room for the upper bits of a frame: a call on the non-canonical address
`2 ^ 48` maps page 0, and mapping the frame at `2 ^ 52` maps frame 0. -/
theorem noncanonical_call_maps_other_page :
    (Call.exec 0x1000 freshMachine (.map4k 0x1000000000000 0x9000 .present)).1 = .ok none ∧
    ¬ (Call.map4k 0x1000000000000 0x9000 .present).Names 0 ∧
    translate 0x1000 freshMachine.mem 0 = none ∧ translate 0x1000
        (Call.exec 0x1000 freshMachine (.map4k 0x1000000000000 0x9000 .present)).2.mem 0 =
      some { phys := 0x9000, flags := .present, pageSize := 4096 } ∧ translate 0x1000
        (Call.exec 0x1000 freshMachine (.map4k 0 0x10000000000000 .present)).2.mem 0 =
      some { phys := 0, flags := .present, pageSize := 4096 } := by
  refine ⟨by decide +kernel, ?_, by decide +kernel, by decide +kernel, by decide +kernel⟩
  show ¬ smallPage 0 = smallPage 0x1000000000000
  decide +kernel

end NexoOS.Paging
