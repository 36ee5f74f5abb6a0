import NexoOS.Fat.InPlace
import NexoOS.Update.Machine

/-!
# The disk of an A/B system

What loader and service do to the disk at every cut, in terms of the state of
the slots and the pairs they hold.
-/

namespace NexoOS.Update

open Function

open Fat Disk Prog Volume

variable {count base : Nat} {v : Volume} {lba : Nat} {img d : Image} {st : SlotState}
  {pair : Fin 2 → Pair}

/-! ## The disk -/

/-- The disk has a block of state, whatever the slots hold. -/
structure HasState (count base : Nat) (v : Volume) (lba : Nat) (img : Image) (st : SlotState) :
    Prop where
  mounted : mount img count base = .ok v
  wellFormed : ∃ owner, v.WellFormed img owner
  slots : ∃ x, v.lookup img slotsPath = .ok x ∧ x.isDir = false ∧ x.size = slotsBytes ∧
    v.clusterLba x.cluster = .ok lba
  state : readSlots v img = some st

/-- The disk has the layout of an A/B system with state `st`, and slot `i`
holds `pair i`. -/
structure OnDisk (count base : Nat) (v : Volume) (lba : Nat) (img : Image) (st : SlotState)
    (pair : Fin 2 → Pair) : Prop extends HasState count base v lba img st where
  files : ∀ i, Holds v img i (pair i)

theorem slots_ne_file : ∀ i : Fin 2, samePath slotsPath (kernelPath i) = false ∧
    samePath slotsPath (initrdPath i) = false ∧
    samePath (kernelPath i) slotsPath = false ∧
    samePath (initrdPath i) slotsPath = false := by
  decide +kernel

theorem kernel_ne_initrd : ∀ i j : Fin 2, samePath (kernelPath i) (initrdPath j) = false ∧
    samePath (initrdPath i) (kernelPath j) = false := by
  decide +kernel

theorem file_ne : ∀ i j : Fin 2, i ≠ j → samePath (kernelPath i) (kernelPath j) = false ∧
    samePath (initrdPath i) (initrdPath j) = false := by
  decide +kernel

section
variable (h : HasState count base v lba img st)
include h

theorem HasState.readState : Upd.readState ⟨v, lba⟩ img = some st := by
  obtain ⟨owner, hw⟩ := h.wellFormed
  obtain ⟨x, hl, hfile, hsize, hlba⟩ := h.slots
  have hstate := h.state
  rw [readSlots, hw.readFile_sector hl hfile hsize hlba] at hstate
  exact hstate

theorem HasState.slotsLba_eq : slotsLba v img = .ok lba := by
  obtain ⟨x, hl, _, _, hlba⟩ := h.slots
  rw [slotsLba, hl]
  exact hlba

theorem HasState.start_eq : Upd.start img count base = .ok ⟨v, lba⟩ := by
  obtain ⟨x, hl, _, hsize, hlba⟩ := h.slots
  rw [Upd.start, h.mounted]
  dsimp only
  rw [hl]
  dsimp only
  rw [if_neg (not_not.2 hsize), hlba]

theorem HasState.write (st' : SlotState) :
    HasState count base v lba (img.write lba st'.encode) st' := by
  obtain ⟨owner, hw⟩ := h.wellFormed
  obtain ⟨x, hl, hfile, hsize, hlba⟩ := h.slots
  obtain ⟨hw', hbase, hl'⟩ := hw.write_sector hl hfile hsize hlba st'.encode
  refine ⟨?_, ⟨owner, hw'⟩, ⟨x, hl', hfile, hsize, hlba⟩, ?_⟩
  · rw [mount_congr (base_of_mount h.mounted ▸ hbase), h.mounted]
  · rw [readSlots, hw'.readFile_sector hl' hfile hsize hlba, write_self]
    exact st'.decode_encode

theorem HasState.confirma_writes :
    (Upd.confirma ⟨v, lba⟩ () img).2.2 = [(lba, st.confirm.encode)] := by
  have hread : reading (fun img => .ok (Upd.readState ⟨v, lba⟩ img)) () img =
      ((.ok (some st) : Except FatError (Option SlotState)), (), ([] : Writes Sector)) := by
    rw [reading, h.readState]
  rw [Upd.confirma, bind_ok hread]
  rfl

end

/-- Writing the block of state changes nothing but the state. -/
theorem OnDisk.write (h : OnDisk count base v lba img st pair) (st' : SlotState) :
    OnDisk count base v lba (img.write lba st'.encode) st' pair := by
  obtain ⟨owner, hw⟩ := h.wellFormed
  obtain ⟨x, hl, hfile, hsize, hlba⟩ := h.slots
  have hsame : ∀ {p bs : List UInt8}, v.readFile img p = .ok bs →
      samePath p slotsPath = false → v.readFile (img.write lba st'.encode) p = .ok bs := by
    intro p bs hr hne
    obtain ⟨y, hly, hyfile, hread⟩ := readFile_ok hr
    exact (hw.sameFile_write hl hfile hsize hlba _ hly hyfile hne).readFile_eq hread
  refine ⟨h.toHasState.write st', fun i => ?_⟩
  exact ⟨hsame (h.files i).1 (slots_ne_file i).2.2.1, hsame (h.files i).2 (slots_ne_file i).2.2.2⟩

variable (count base v lba st pair) in
/-- The layout and the state, with slot `t` alone changed. -/
abbrev OnDiskBut (t : Fin 2) (d : Image) : Prop :=
  ∃ pair', OnDisk count base v lba d st pair' ∧ ∀ i, i ≠ t → pair' i = pair i

/-- A rewrite of a file of slot `t`, also when it is cut, changes nothing but
that file. -/
theorem OnDisk.intact (h : OnDisk count base v lba img st pair) {t : Fin 2}
    {dst old new : List UInt8} (hdst : dst = kernelPath t ∨ dst = initrdPath t)
    (hi : v.Intact img d dst old new) : OnDiskBut count base v lba st pair t d := by
  obtain ⟨x, hl, hfile, hsize, hlba⟩ := h.slots
  have hslots : samePath slotsPath dst = false := by
    rcases hdst with rfl | rfl
    · exact (slots_ne_file t).1
    · exact (slots_ne_file t).2.1
  have hothers : ∀ i, i ≠ t → Holds v d i (pair i) := by
    intro i hne
    rcases hdst with rfl | rfl
    · exact ⟨hi.readFile_eq (h.files i).1 (file_ne i t hne).1,
        hi.readFile_eq (h.files i).2 (kernel_ne_initrd i t).2⟩
    · exact ⟨hi.readFile_eq (h.files i).1 (kernel_ne_initrd i t).1,
        hi.readFile_eq (h.files i).2 (file_ne i t hne).2⟩
  have hthis : ∃ p, Holds v d t p := by
    have hread : ∃ bs, v.readFile d dst = .ok bs := hi.file.elim (⟨_, ·⟩) (⟨_, ·⟩)
    obtain ⟨bs, hread⟩ := hread
    rcases hdst with rfl | rfl
    · exact ⟨⟨bs, _⟩, hread, hi.readFile_eq (h.files t).2 (kernel_ne_initrd t t).2⟩
    · exact ⟨⟨_, bs⟩, hi.readFile_eq (h.files t).1 (kernel_ne_initrd t t).1, hread⟩
  obtain ⟨p, hp⟩ := hthis
  have hsame := hi.others _ _ hl hfile hslots
  refine ⟨update pair t p, ⟨⟨?_, hi.wellFormed, ⟨x, hsame.1, hfile, hsize, hlba⟩, ?_⟩, ?_⟩,
    fun i hne => update_of_ne hne _ _⟩
  · rw [mount_congr (base_of_mount h.mounted ▸ hi.base), h.mounted]
  · have hstate := h.state
    unfold readSlots at hstate ⊢
    split at hstate
    · cases hstate
    rename_i data hr
    rw [hi.readFile_eq hr hslots]
    exact hstate
  · intro i
    by_cases hne : i = t
    · subst hne
      rw [update_self]
      exact hp
    · rw [update_of_ne hne]
      exact hothers i hne

/-! ## The programs -/

theorem readAll_length {path data : List UInt8} (h : Upd.readAll v path img = .ok data) :
    data.length < 2 ^ 32 := by
  unfold Upd.readAll at h
  split at h
  · cases h
  rename_i x hl
  split at h
  · cases h
  rename_i hmax
  split at h
  · cases h
  rename_i bs hr
  split at h
  · cases h
  rename_i hlen
  cases h
  unfold fileMax at hmax
  omega

section
variable (h : OnDisk count base v lba img st pair)
include h

/-- Copying a file into slot `t` keeps the layout, the state and the other
slot, at every cut. -/
theorem OnDisk.holds_copyFile {t : Fin 2}
    {src dst : List UInt8} (hdst : dst = kernelPath t ∨ dst = initrdPath t) :
    Prog.Holds whole (Upd.copyFile v src dst) () img (OnDiskBut count base v lba st pair t)
      fun _ _ => OnDiskBut count base v lba st pair t := by
  have hstart : OnDiskBut count base v lba st pair t img := ⟨pair, h, fun _ _ => rfl⟩
  refine holds_bind (R := fun r _ d => d = img ∧ r = Upd.readAll v src img)
    (holds_reading hstart ⟨rfl, rfl⟩) ?_ (fun e _ d hd => hd.1 ▸ hstart)
  rintro data _ d' ⟨hd, hread⟩
  subst d'
  obtain ⟨owner, hw⟩ := h.wellFormed
  have hold : ∃ old, v.readFile img dst = .ok old := by
    rcases hdst with rfl | rfl
    · exact ⟨_, (h.files t).1⟩
    · exact ⟨_, (h.files t).2⟩
  obtain ⟨old, hold⟩ := hold
  exact (holds_rewriteFile hw hold (supplies_sourceOf data)
    (readAll_length hread.symm)).imp (fun d hi => h.intact hdst hi) fun _ _ d hi => h.intact hdst hi.1

theorem OnDisk.holds_copySlot (s t : Fin 2) : Prog.Holds whole (Upd.copySlot v s t) () img
      (OnDiskBut count base v lba st pair t) fun _ _ => OnDiskBut count base v lba st pair t := by
  refine holds_bind (h.holds_copyFile (.inl rfl)) ?_ fun _ _ _ hd => hd
  rintro _ _ d ⟨pair₁, h₁, hsame₁⟩
  have htrans : ∀ {d}, OnDiskBut count base v lba st pair₁ t d →
      OnDiskBut count base v lba st pair t d := by
    rintro d ⟨pair₂, h₂, hsame₂⟩
    exact ⟨pair₂, h₂, fun i hne => (hsame₂ i hne).trans (hsame₁ i hne)⟩
  exact (h₁.holds_copyFile (.inr rfl)).imp (fun _ => htrans) fun _ _ _ => htrans

/-- At every cut of `aplica` the selected slot is as it was; when the request
succeeds the other one is pending. -/
theorem OnDisk.holds_aplica : Prog.Holds whole (Upd.aplica ⟨v, lba⟩) () img
      (fun d => ∃ st' pair', OnDisk count base v lba d st' pair' ∧ st'.selected = st.selected ∧
        st'.slot st.selected = st.slot st.selected ∧ pair' st.selected = pair st.selected)
      (fun r _ d => ∀ reply, r = .ok reply →
        ∃ pair', OnDisk count base v lba d (st.pend (other st.selected)) pair') := by
  have hne : st.selected ≠ other st.selected := (other_ne _).symm
  refine holds_bind_reading (congrArg _ h.toHasState.readState) ?_
  refine holds_bind ((h.holds_copySlot _ _).imp
    (fun d ⟨pair', h', hsame⟩ => ⟨st, pair', h', rfl, rfl, hsame _ hne⟩) fun _ _ _ hd => hd) ?_
    fun _ _ _ _ => nofun
  rintro _ _ d ⟨pair', h', hsame⟩
  have hwrite := h'.write (st.pend (other st.selected))
  refine holds_bind_write ⟨st, pair', h', rfl, rfl, hsame _ hne⟩ (fun _ ht => ht.elim) ?_
  exact holds_pure ⟨_, pair', hwrite, rfl, update_of_ne hne _ _, hsame _ hne⟩
    fun _ _ => ⟨pair', hwrite⟩

theorem bootable_kernel {i : Fin 2} {kernel : List UInt8}
    (hb : bootable v img st i = some kernel) : kernel = (pair i).kernel := by
  unfold bootable at hb
  rw [(h.files i).1] at hb
  dsimp only at hb
  split at hb
  · split at hb
    · exact (Option.some.inj hb).symm
    · cases hb
  · cases hb

theorem firstBootable_kernel {i chosen : Fin 2}
    {kernel : List UInt8} (hb : firstBootable v img st chosen = some (i, kernel)) :
    kernel = (pair i).kernel := by
  unfold firstBootable at hb
  split at hb
  · rename_i k hk
    cases hb
    exact bootable_kernel h hk
  obtain ⟨k, hk, heq⟩ := Option.map_eq_some_iff.1 hb
  cases heq
  exact bootable_kernel h hk

end

theorem SlotState.select_successful (st : SlotState) (i j : Fin 2) :
    ((st.select i).slot j).successful = (st.slot j).successful := by
  unfold select
  dsimp only
  by_cases hj : j = i
  · subst hj
    rw [update_self]
    split <;> rfl
  · rw [update_of_ne hj]

theorem SlotState.selected_select (st : SlotState) (i : Fin 2) : (st.select i).selected = i := by
  match i with
  | 0 => rfl
  | 1 => rfl

theorem SlotState.confirm_successful (st : SlotState) {i : Fin 2}
    (h : (st.slot i).successful = 1) : (st.confirm.slot i).successful = 1 := by
  unfold confirm
  dsimp only
  by_cases hi : i = other st.selected
  · rw [hi, update_self, ← hi, if_pos h]
    exact h
  rw [update_of_ne hi]
  by_cases hsel : i = st.selected
  · rw [hsel, update_self]
  · exact absurd (eq_other hsel) hi

/-- The loader changes only the tries and the selected slot. -/
theorem OnDisk.holds_loadSystem (h : OnDisk count base v lba img st pair) :
    Prog.Holds whole (loadSystem v) () img
      (fun d => ∃ st', OnDisk count base v lba d st' pair ∧
        ∀ i, (st'.slot i).successful = (st.slot i).successful)
      (fun r _ d => ∃ st', OnDisk count base v lba d st' pair ∧
        (∀ i, (st'.slot i).successful = (st.slot i).successful) ∧
        ∀ i p, r = .ok (.slot i p) → st'.selected = i ∧ pair i = p) := by
  have hstart : ∃ st', OnDisk count base v lba img st' pair ∧
      ∀ i, (st'.slot i).successful = (st.slot i).successful := ⟨st, h, fun _ => rfl⟩
  have hrecovery : Prog.Holds whole (loadRecovery v) () img
      (fun d => ∃ st', OnDisk count base v lba d st' pair ∧
        ∀ i, (st'.slot i).successful = (st.slot i).successful)
      (fun r _ d => ∃ st', OnDisk count base v lba d st' pair ∧
        (∀ i, (st'.slot i).successful = (st.slot i).successful) ∧
        ∀ i p, r = .ok (.slot i p) → st'.selected = i ∧ pair i = p) := by
    refine holds_reading hstart ⟨st, h, fun _ => rfl, fun i p hr => ?_⟩
    split at hr
    · cases hr
    · split at hr <;> exact nomatch hr
  refine holds_bind_reading (congrArg _ h.state) ?_
  dsimp only
  rcases st.choose with _ | chosen
  · exact hrecovery
  refine holds_bind_reading rfl ?_
  rcases hfound : firstBootable v img st chosen with _ | p
  · exact hrecovery
  obtain ⟨i, kernel⟩ := p
  have hkernel : kernel = (pair i).kernel := firstBootable_kernel h hfound
  have hwrite := h.write (st.select i)
  have hsucc := st.select_successful i
  refine holds_bind (R := fun r _ d => r = .ok () ∧
      d = img.write lba (st.select i).encode) ?_ ?_ fun _ _ _ hr => nomatch hr.1
  · refine holds_bind_reading (congrArg _ h.toHasState.slotsLba_eq) ?_
    exact holds_write hstart (fun _ ht => ht.elim) ⟨_, hwrite, hsucc⟩ ⟨rfl, rfl⟩
  rintro _ _ d' ⟨_, rfl⟩
  refine holds_reading ⟨_, hwrite, hsucc⟩ ⟨_, hwrite, hsucc, fun j p hr => ?_⟩
  have hinitrd : readOrEmpty v (img.write lba (st.select i).encode) (initrdPath i) =
      (pair i).initrd := by
    rw [readOrEmpty, (hwrite.files i).2]
  rw [hinitrd, hkernel] at hr
  cases hr
  exact ⟨st.selected_select _, rfl⟩

end NexoOS.Update
