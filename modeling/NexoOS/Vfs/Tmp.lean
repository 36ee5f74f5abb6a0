import NexoOS.Vfs.Effects

/-! # The files of `/tmp`

What `/tmp` is for is a map from names to byte arrays. The table of `vfs` is
related to such a map by reading each file up to its size; the bytes past it,
which the source never clears, are what an update has to be careful about. -/

namespace NexoOS.Vfs

open Function

open Confine List

/-! ## Names and byte arrays -/

abbrev Files := List UInt8 → Option (List UInt8)

/-- `data` at `offset` of a file. A gap before it is filled with zeros. -/
def overwrite (f : List UInt8) (offset : Nat) (data : List UInt8) : List UInt8 :=
  (f ++ replicate (offset - f.length) 0).take offset ++ data ++ f.drop (offset + data.length)

inductive TmpOp where
  | create (name : List UInt8)
  | unlink (name : List UInt8)
  | rename (src dst : List UInt8)
  | write (name : List UInt8) (offset : Nat) (data : List UInt8)
  | truncate (name : List UInt8) (size : Nat)
  | read (name : List UInt8) (offset len : Nat)

/-- What an operation makes of the files. -/
def TmpOp.apply (files : Files) : TmpOp → Files
  | .create name => update files name (some [])
  | .unlink name => update files name none
  | .rename src dst => update (update files src none) dst (files src)
  | .write name offset data =>
    update files name ((files name).map (overwrite · offset data))
  | .truncate name size => update files name ((files name).map (·.take size))
  | .read .. => files

theorem getElem?_overwrite (f data : List UInt8) (offset j : Nat) : (overwrite f offset data)[j]? =
      if j < offset then some (f.getD j 0)
      else if j < offset + data.length then data[j - offset]? else f[j]? := by
  have hlen : ((f ++ replicate (offset - f.length) 0).take offset).length = offset := by
    simp only [length_take, length_append, length_replicate]
    omega
  rw [overwrite, append_assoc]
  split
  · rename_i hlt
    rw [getElem?_append_left (by omega), getElem?_take_of_lt hlt]
    by_cases hf : j < f.length
    · rw [getElem?_append_left hf, getD_eq_getElem?_getD, getElem?_eq_getElem hf]
      rfl
    rw [getElem?_append_right (by omega), getElem?_replicate, if_pos (by omega),
      getD_eq_getElem?_getD, getElem?_eq_none (by omega)]
    rfl
  · rename_i hge
    rw [getElem?_append_right (by omega), hlen]
    split
    · rw [getElem?_append_left (by omega)]
    rw [getElem?_append_right (by omega), getElem?_drop]
    congr 1
    omega

/-! ## The table as such a map -/

variable (f : RamFile)

def RamFile.content : List UInt8 := bytes f.data 0 f.size.toNat

theorem RamFile.getElem?_content (j : Nat) :
    f.content[j]? = if j < f.size.toNat then some (f.data j) else none := by
  rw [content, getElem?_bytes, Nat.zero_add]

theorem RamFile.length_content : f.content.length = f.size.toNat := length_bytes ..

/-- The bytes of the place between the end of the file and `offset` are zero. -/
def RamFile.GapZero (offset : Nat) : Prop :=
  ∀ j, f.size.toNat ≤ j → j < offset → f.data j = 0

/-- The size after a write that ends at `stop`. -/
theorem toNat_max_size {size : UInt32} {stop : Nat} (h : stop ≤ RAM_FILE_MAX) :
    (max size (UInt32.ofNat stop)).toNat = max size.toNat stop := by
  have hstop : (UInt32.ofNat stop).toNat = stop := by
    rw [UInt32.toNat_ofNat']
    unfold RAM_FILE_MAX at h
    omega
  show (if size ≤ UInt32.ofNat stop then UInt32.ofNat stop else size).toNat = _
  split
  · rename_i hle
    rw [UInt32.le_iff_toNat_le, hstop] at hle
    omega
  rename_i hlt
  rw [UInt32.le_iff_toNat_le, hstop] at hlt
  omega

/-- A write does to the bytes of a file what it should if and only if the gap
before it happens to hold zeros. -/
theorem RamFile.content_write_iff {f : RamFile} {offset stop : Nat} {data : List UInt8}
    (hstop : stop = offset + data.length) (hmax : stop ≤ RAM_FILE_MAX) : ({ f with
        data := splice f.data offset data.length fun j => data.getD j 0
        size := max f.size (UInt32.ofNat stop) } : RamFile).content =
      overwrite f.content offset data ↔ f.GapZero offset := by
  have hbyte : ∀ j, ({ f with
        data := splice f.data offset data.length fun j => data.getD j 0
        size := max f.size (UInt32.ofNat stop) } : RamFile).content[j]? =
      if j < offset then some (f.data j)
      else (overwrite f.content offset data)[j]? := by
    intro j
    rw [getElem?_content, getElem?_overwrite, getElem?_content]
    dsimp only
    rw [toNat_max_size hmax, hstop]
    by_cases hoff : j < offset
    · rw [if_pos hoff, if_pos (by omega), splice_of_not_mem (by omega)]
    rw [if_neg hoff, if_neg hoff]
    by_cases hin : j < offset + data.length
    · rw [if_pos hin, if_pos (by omega), splice, if_pos ⟨by omega, hin⟩,
        getD_eq_getElem?_getD, getElem?_eq_getElem (by omega)]
      rfl
    rw [if_neg hin, splice_of_not_mem (by omega)]
    by_cases hsize : j < f.size.toNat
    · rw [if_pos hsize, if_pos (by omega)]
    · rw [if_neg hsize, if_neg (by omega)]
  constructor
  · intro h j hsize hoff
    have hj := hbyte j
    rw [h, if_pos hoff, getElem?_overwrite, if_pos hoff, getD_eq_getElem?_getD,
      getElem?_content, if_neg (by omega)] at hj
    exact (Option.some.inj hj).symm
  · intro h
    refine ext_getElem? fun j => ?_
    rw [hbyte j]
    split
    · rename_i hoff
      rw [getElem?_overwrite, if_pos hoff, getD_eq_getElem?_getD, getElem?_content]
      split
      · rfl
      · rw [h j (by omega) hoff]
        rfl
    · rfl

namespace Ramfs

def files (r : Ramfs) : Files := fun name => (r.find name).map fun i => (r i).content

/-- What holds of the table in every run. -/
structure Ok (r : Ramfs) : Prop where
  distinct : ∀ i j, (r i).used = true → (r j).used = true → (r i).name = (r j).name → i = j
  name : ∀ i, (r i).used = true → badName (r i).name = false
  size : ∀ i, (r i).used = true → (r i).size.toNat ≤ RAM_FILE_MAX

variable {r : Ramfs} {name : List UInt8} {i : Fin RAM_FILES}

theorem find_some (h : r.find name = some i) : (r i).used = true ∧ (r i).name = name := by
  have := find?_some h
  simpa using this

theorem find_none (h : r.find name = none) (j : Fin RAM_FILES) :
    ¬ ((r j).used = true ∧ (r j).name = name) := by
  have := find?_eq_none.mp h j (mem_finRange j)
  simpa using this

theorem free_some (h : r.free = some i) : (r i).used = false := by
  have := find?_some h
  simpa using this

theorem Ok.find_name (hr : r.Ok) (hi : (r i).used = true) : r.find (r i).name = some i := by
  cases hf : r.find (r i).name with
  | none => exact absurd ⟨hi, rfl⟩ (find_none hf i)
  | some j =>
    obtain ⟨hj, hname⟩ := find_some hf
    rw [hr.distinct j i hj hi hname]

theorem Ok.files_name (hr : r.Ok) (hi : (r i).used = true) :
    r.files (r i).name = some (r i).content := by
  rw [files, hr.find_name hi]
  rfl

/-- A file that neither had nor gets a name says nothing about it. -/
theorem files_update_of_ne {f : RamFile} (hold : ¬ ((r i).used = true ∧ (r i).name = name))
    (hnew : ¬ (f.used = true ∧ f.name = name)) :
    files (update r i f) name = r.files name := by
  have hfind : find (update r i f) name = r.find name := by
    unfold find
    congr 1
    funext j
    by_cases hj : j = i
    · rw [hj, update_self, Bool.eq_iff_iff]
      simp only [Bool.and_eq_true, beq_iff_eq]
      exact iff_of_false hnew hold
    · rw [update_of_ne hj]
  unfold files
  rw [hfind]
  cases hf : r.find name with
  | none => rfl
  | some j =>
    have hj : j ≠ i := by
      rintro rfl
      exact hold (find_some hf)
    rw [Option.map_some, Option.map_some, update_of_ne hj]

theorem not_used_of_find_none (h : r.find name = none) :
    ∀ j, (r j).used = true → (r j).name ≠ name :=
  fun j hj hname => find_none h j ⟨hj, hname⟩

/-! ## The invariant -/

theorem Ok.update {f : RamFile} (hr : r.Ok) (hname : f.used = true → badName f.name = false)
    (hsize : f.used = true → f.size.toNat ≤ RAM_FILE_MAX)
    (hother : f.used = true → ∀ j ≠ i, (r j).used = true → (r j).name ≠ f.name) :
    Ok (update r i f) := by
  constructor
  case distinct =>
    intro j k hj hk heq
    by_cases hji : j = i
    · by_cases hki : k = i
      · rw [hji, hki]
      · rw [hji, update_self] at hj heq
        rw [update_of_ne hki] at hk heq
        exact absurd heq.symm (hother hj k hki hk)
    · by_cases hki : k = i
      · rw [hki, update_self] at hk heq
        rw [update_of_ne hji] at hj heq
        exact absurd heq (hother hk j hji hj)
      · rw [update_of_ne hji] at hj heq
        rw [update_of_ne hki] at hk heq
        exact hr.distinct j k hj hk heq
  case name =>
    intro j hj
    by_cases hji : j = i
    · rw [hji, update_self] at hj ⊢
      exact hname hj
    · rw [update_of_ne hji] at hj ⊢
      exact hr.name j hj
  case size =>
    intro j hj
    by_cases hji : j = i
    · rw [hji, update_self] at hj ⊢
      exact hsize hj
    · rw [update_of_ne hji] at hj ⊢
      exact hr.size j hj

theorem Ok.update_same {f : RamFile} (hr : r.Ok) (hi : (r i).used = true)
    (hname : f.name = (r i).name) (hsize : f.size.toNat ≤ RAM_FILE_MAX) :
    Ok (Function.update r i f) := by
  refine hr.update (fun _ => ?_) (fun _ => hsize) fun _ j hj hused heq => ?_
  · rw [hname]
    exact hr.name i hi
  · exact hj (hr.distinct j i hused hi (heq.trans hname))

theorem Ok.step {r' : Ramfs} (hr : r.Ok) (h : r.Step r') : r'.Ok := by
  cases h with
  | create hname hnew hfree =>
    exact hr.update (fun _ => hname) (fun _ => Nat.zero_le _)
      fun _ j _ hused => not_used_of_find_none hnew j hused
  | unlink hold => exact hr.update nofun nofun nofun
  | rename hname hnew hold =>
    refine hr.update (fun _ => hname) (fun _ => hr.size _ (find_some hold).1)
      fun _ j _ hused => not_used_of_find_none hnew j hused
  | write hused hstop hmax hwrap =>
    refine hr.update_same hused rfl ?_
    rw [toNat_max_size hmax]
    exact Nat.max_le.mpr ⟨hr.size _ hused, hmax⟩
  | truncate size hused =>
    unfold truncate
    split
    · rename_i hlt
      refine hr.update_same hused rfl ?_
      have := hr.size _ hused
      rw [UInt64.lt_iff_toNat_lt, UInt32.toNat_toUInt64] at hlt
      rw [UInt64.toNat_toUInt32]
      omega
    · exact hr

/-! ## The updates and their operations -/

theorem files_update_same {f : RamFile} (hr : r.Ok) (hi : (r i).used = true)
    (hused : f.used = true) (hname : f.name = (r i).name) (hsize : f.size.toNat ≤ RAM_FILE_MAX) :
    files (update r i f) = update r.files (r i).name (some f.content) := by
  funext name
  by_cases h : name = (r i).name
  · have hr' : Ok (update r i f) := hr.update_same hi hname hsize
    have hself : (update r i f i) = f := update_self i f r
    have hf := hr'.files_name (i := i) (by rw [hself]; exact hused)
    rw [hself, hname] at hf
    rw [h, update_self, hf]
  · rw [update_of_ne h]
    refine files_update_of_ne (fun ho => h ho.2.symm) fun hn => h ?_
    rw [← hn.2, hname]

theorem files_create (hr : r.Ok) (hname : badName name = false) (hnew : r.find name = none)
    (hfree : r.free = some i) : (r.create i name).files = (TmpOp.create name).apply r.files := by
  have hr' : (r.create i name).Ok := hr.step (.create hname hnew hfree)
  funext n
  by_cases h : n = name
  · have hself : (r.create i name) i = { r i with used := true, name := name, size := 0 } :=
      update_self ..
    have hf := hr'.files_name (i := i) (by rw [hself])
    rw [hself] at hf
    rw [h, TmpOp.apply, update_self]
    exact hf
  · rw [TmpOp.apply, update_of_ne h]
    refine files_update_of_ne (fun ho => ?_) fun hn => h hn.2.symm
    rw [free_some hfree] at ho
    cases ho.1

theorem files_unlink (hr : r.Ok) (hold : r.find name = some i) :
    (r.unlink i).files = (TmpOp.unlink name).apply r.files := by
  obtain ⟨hused, hname⟩ := find_some hold
  funext n
  by_cases h : n = name
  · rw [h, TmpOp.apply, update_self, files]
    rcases hf : (r.unlink i).find name with _ | j
    · rfl
    obtain ⟨hj, hjname⟩ := find_some hf
    by_cases hji : j = i
    · rw [hji, unlink, update_self] at hj
      cases hj
    · rw [unlink, update_of_ne hji] at hj hjname
      exact absurd (hr.distinct j i hj hused (hjname.trans hname.symm)) hji
  · rw [TmpOp.apply, update_of_ne h]
    exact files_update_of_ne (fun ho => h (ho.2.symm.trans hname)) fun hn => absurd hn.1 nofun

theorem files_rename {src dst : List UInt8} (hr : r.Ok) (hname : badName dst = false)
    (hnew : r.find dst = none) (hold : r.find src = some i) :
    (r.rename i dst).files = (TmpOp.rename src dst).apply r.files := by
  have hr' : (r.rename i dst).Ok := hr.step (.rename hname hnew hold)
  obtain ⟨hused, hsrc⟩ := find_some hold
  have hself : (r.rename i dst) i = { r i with name := dst } := update_self ..
  funext n
  by_cases h : n = dst
  · have hf := hr'.files_name (i := i) (by rw [hself]; exact hused)
    rw [hself] at hf
    rw [h, TmpOp.apply, update_self, ← hsrc, hr.files_name hused]
    exact hf
  · rw [TmpOp.apply, update_of_ne h]
    by_cases h' : n = src
    · rw [h', update_self, files]
      rcases hf : (r.rename i dst).find src with _ | j
      · rfl
      obtain ⟨hj, hjname⟩ := find_some hf
      by_cases hji : j = i
      · rw [hji, hself] at hjname
        exact absurd (h'.trans hjname.symm) h
      · rw [rename, update_of_ne hji] at hj hjname
        exact absurd (hr.distinct j i hj hused (hjname.trans hsrc.symm)) hji
    · rw [update_of_ne h']
      exact files_update_of_ne (fun ho => h' (ho.2.symm.trans hsrc)) fun hn => h hn.2.symm

theorem files_write_iff {offset stop : Nat} {data : List UInt8} (hr : r.Ok)
    (hused : (r i).used = true) (hstop : stop = offset + data.length) (hmax : stop ≤ RAM_FILE_MAX) :
    (r.write i offset data stop).files = (TmpOp.write (r i).name offset data).apply r.files ↔
      (r i).GapZero offset := by
  have hsize : (max (r i).size (UInt32.ofNat stop)).toNat ≤ RAM_FILE_MAX := by
    rw [toNat_max_size hmax]
    exact Nat.max_le.mpr ⟨hr.size _ hused, hmax⟩
  rw [write, files_update_same hr hused (by exact hused) (by rfl) (by exact hsize), TmpOp.apply,
    hr.files_name hused, Option.map_some, ← RamFile.content_write_iff hstop hmax]
  constructor
  · intro h
    have := congrFun h (r i).name
    rw [update_self, update_self] at this
    exact Option.some.inj this
  · intro h
    rw [h]

theorem files_truncate {size : UInt64} (hr : r.Ok) (hused : (r i).used = true) :
    (r.truncate i size).files = (TmpOp.truncate (r i).name size.toNat).apply r.files := by
  have hle := hr.size i hused
  rw [TmpOp.apply, hr.files_name hused, Option.map_some]
  unfold truncate
  split
  · rename_i hlt
    rw [UInt64.lt_iff_toNat_lt, UInt32.toNat_toUInt64] at hlt
    have hsize : size.toUInt32.toNat = size.toNat := by
      rw [UInt64.toNat_toUInt32]
      unfold RAM_FILE_MAX at hle
      omega
    have hsmall : size.toUInt32.toNat ≤ RAM_FILE_MAX := by omega
    rw [files_update_same hr hused (by exact hused) (by rfl) (by exact hsmall)]
    congr 2
    refine ext_getElem? fun j => ?_
    rw [RamFile.getElem?_content, getElem?_take, RamFile.getElem?_content]
    rw [hsize]
    split
    · rw [if_pos (by omega)]
    · rfl
  · rename_i hge
    rw [UInt64.lt_iff_toNat_lt, UInt32.toNat_toUInt64] at hge
    rw [take_of_length_le (by rw [RamFile.length_content]; omega), ← hr.files_name hused,
      Function.update_eq_self]

theorem Ok.empty : Ramfs.empty.Ok where
  distinct _ _ h := absurd h nofun
  name _ h := absurd h nofun
  size _ h := absurd h nofun

end Ramfs
end NexoOS.Vfs
