import NexoOS.Lib.Bytes

/-!
# Physical frames and address spaces

The bitmap allocator of `kernel/lib/mm/src/bitmap.rs` and the user half of
an `AddressSpace` of `kernel/src/process.rs`. Frames and pages are numbered
in units of 4 KiB; the page tables are kept as the set of tables present and
the leaf entries, because only allocation and the leaves matter here.
-/

namespace NexoOS.Kernel

open Function

/-- A physical frame, by its index. -/
abbrev Frame := Nat

def pageSize : Nat := 4096
/-- End of the user half of an address space. -/
def userAddressLimit : Nat := 0x0000800000000000
/-- Start of the region for device and shared mappings. -/
def userDeviceRegion : Nat := 0x0000600000000000

/-! ## The bitmap allocator -/

/-- `used` and `usable` are the two bitmaps; `hint` is the word the search
starts from. -/
structure FrameAllocator where
  capacity : Nat
  used : Frame → Bool
  usable : Frame → Bool
  hint : Nat

namespace FrameAllocator

variable (a : FrameAllocator)

def isFree (f : Frame) : Bool := f < a.capacity && !a.used f

/-- The first clear bit of a 64-bit word of the bitmap. -/
def firstClear (w : Nat) : Option Frame :=
  ((List.range 64).map fun b => w * 64 + b).find? fun f => !a.used f

/-- The frame `allocate` takes: words are scanned cyclically from the hint,
and a clear bit past the capacity is skipped. -/
def pick : Option Frame :=
  let words := (a.capacity + 63) / 64
  (List.range words).findSome? fun step =>
    (a.firstClear ((a.hint + step) % words)).filter fun f => f < a.capacity

def allocate : Option (Frame × FrameAllocator) :=
  a.pick.map fun f => (f, { a with used := update a.used f true, hint := f / 64 })

/-- The errors of `free` (out of range, not usable, double free) are ignored
by its callers. -/
def free (f : Frame) : FrameAllocator :=
  if f < a.capacity ∧ a.usable f ∧ a.used f then
    { a with used := update a.used f false, hint := min a.hint (f / 64) }
  else a

def freeAll (fs : List Frame) : FrameAllocator := fs.foldl free a

theorem pick_free {a : FrameAllocator} {f : Frame} (h : a.pick = some f) :
    f < a.capacity ∧ a.used f = false := by
  unfold pick at h
  obtain ⟨step, _, hs⟩ := List.exists_of_findSome?_eq_some h
  rw [Option.filter_eq_some_iff] at hs
  refine ⟨by simpa using hs.2, ?_⟩
  have := List.find?_some hs.1
  simpa using this

theorem allocate_spec {a a' : FrameAllocator} {f : Frame} (h : a.allocate = some (f, a')) :
    a.used f = false ∧ a'.used = update a.used f true ∧ a'.capacity = a.capacity ∧
      a'.usable = a.usable := by
  unfold allocate at h
  rw [Option.map_eq_some_iff] at h
  obtain ⟨g, hg, he⟩ := h
  cases he
  exact ⟨(pick_free hg).2, rfl, rfl, rfl⟩

theorem free_used (f g : Frame) (h : g ≠ f) : (a.free f).used g = a.used g := by
  unfold free
  split
  · exact update_of_ne h ..
  · rfl

theorem freeAll_used {a : FrameAllocator} {fs : List Frame} {g : Frame} (h : g ∉ fs) :
    (a.freeAll fs).used g = a.used g := by
  induction fs generalizing a with
  | nil => rfl
  | cons f fs ih =>
    show ((a.free f).freeAll fs).used g = a.used g
    rw [ih fun hg => h (List.mem_cons_of_mem _ hg)]
    exact free_used a f g fun he => h (he ▸ List.mem_cons_self)

end FrameAllocator

/-! ## Address spaces -/

/-- `pages` are the leaf entries by virtual page number, `tables` the
intermediate tables present (level and address prefix), and `frames` what
the space owns: its page tables and its private pages. -/
structure AddressSpace where
  root : Frame
  pages : Nat → Option Frame
  tables : List (Nat × Nat)
  frames : List Frame

namespace AddressSpace

variable (s : AddressSpace)

/-- One level of `walk_create`: a missing table takes a frame, which the
space records. -/
def createTable (a : FrameAllocator) (key : Nat × Nat) : Option (AddressSpace × FrameAllocator) :=
  if key ∈ s.tables then some (s, a)
  else
    a.allocate.map fun (f, a') =>
      ({ s with tables := key :: s.tables, frames := f :: s.frames }, a')

/-- One turn of the walk: after a failure nothing more happens, and what was
created before it stays. -/
def walkStep (st : AddressSpace × FrameAllocator × Bool) (key : Nat × Nat) :
    AddressSpace × FrameAllocator × Bool :=
  if st.2.2 then
    match st.1.createTable st.2.1 key with
    | some (s, a) => (s, a, true)
    | none => (st.1, st.2.1, false)
  else st

/-- The tables of levels 3, 2 and 1 on the way to virtual page `v`. -/
def walkCreate (a : FrameAllocator) (v : Nat) : AddressSpace × FrameAllocator × Bool :=
  [(3, v / 2 ^ 27), (2, v / 2 ^ 18), (1, v / 2 ^ 9)].foldl walkStep (s, a, true)

/-- `map_user_shared`: a frame the space does not own, at page `v`; the last
component says whether it was mapped. -/
def mapUserShared (a : FrameAllocator) (v : Nat) (f : Frame) :
    AddressSpace × FrameAllocator × Bool :=
  if v * pageSize ≥ userAddressLimit then (s, a, false)
  else
    let (s, a, ok) := s.walkCreate a v
    if ok ∧ s.pages v = none then
      ({ s with pages := update s.pages v (some f) }, a, true)
    else (s, a, false)

/-- The loop of `memory_map`: consecutive pages, up to the first failure. -/
def mapAll (s : AddressSpace) (a : FrameAllocator) (v : Nat) :
    List Frame → AddressSpace × FrameAllocator × Bool
  | [] => (s, a, true)
  | f :: fs =>
    match s.mapUserShared a v f with
    | (s, a, true) => s.mapAll a (v + 1) fs
    | (s, a, false) => (s, a, false)

/-- `unmap_user_shared` clears the leaf entries and frees nothing. -/
def unmapUserShared (v n : Nat) : AddressSpace :=
  { s with pages := fun u => if v ≤ u ∧ u < v + n then none else s.pages u }

end AddressSpace
end NexoOS.Kernel
