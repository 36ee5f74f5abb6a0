import NexoOS.Update.KnownGood

/-!
# Which slot is confirmed

`confirma` takes the slot that the block of state names as the last one
selected. That is the slot that runs if the loader chose a slot and could write
its choice; a system that was started from the recovery environment, or whose
choice did not reach the disk, confirms a slot that it was not loaded from.
-/

namespace NexoOS.Update

open Fat Except Machine Option Prog

variable {count base : Nat} {v : Volume} {lba : Nat} {img : Image} {st : SlotState}

/-! ## The loader, with the write of the state as a parameter -/

/-- `load_system`, where `save` writes the state. -/
def loadSystemWith (save : SlotState → LoaderM Unit) (v : Volume) : LoaderM Booted := do
  let state ← reading fun img => .ok (readSlots v img)
  match state with
  | none => loadClassic v
  | some st =>
    match st.choose with
    | none => loadRecovery v
    | some chosen => do
      let found ← reading fun img => .ok (firstBootable v img st chosen)
      match found with
      | none => loadRecovery v
      | some (i, kernel) => do
        save (st.select i)
        reading fun img => .ok (.slot i ⟨kernel, readOrEmpty v img (initrdPath i)⟩)

theorem loadSystem_eq_with (v : Volume) : loadSystem v = loadSystemWith (writeSlots v) v := rfl

/-- The firmware refuses the write of the state, and the loader goes on. -/
def loadUnsaved (v : Volume) : LoaderM Booted := loadSystemWith (fun _ => pure ()) v

/-- The slot that the loader takes, unless it falls back to another layout. -/
def picks (v : Volume) (img : Image) : Option (Fin 2) :=
  match readSlots v img with
  | none => none
  | some st =>
    match st.choose with
    | none => none
    | some chosen => (firstBootable v img st chosen).map Prod.fst

/-- What `save` promises holds when a slot was picked; nothing is written
otherwise. -/
theorem holds_loadSystemWith (save : SlotState → LoaderM Unit) {I : Image → Prop}
    {R : Fin 2 → Image → Prop} (hst : readSlots v img = some st) (hI : I img)
    (hsave : ∀ i, Prog.Holds Disk.whole (save (st.select i)) () img I
      (fun r _ d => r = .ok () ∧ I d ∧ R i d)) :
    Prog.Holds Disk.whole (loadSystemWith save v) () img I
      (fun r _ d => (picks v img = none ∧ d = img ∧ ∀ i p, r ≠ .ok (.slot i p)) ∨
        ∃ i p, picks v img = some i ∧ R i d ∧ r = .ok (.slot i p)) := by
  have hrecovery : picks v img = none → Prog.Holds Disk.whole (loadRecovery v) () img I
      (fun r _ d => (picks v img = none ∧ d = img ∧ ∀ i p, r ≠ .ok (.slot i p)) ∨
        ∃ i p, picks v img = some i ∧ R i d ∧ r = .ok (.slot i p)) := by
    intro hpick
    refine holds_reading hI (.inl ⟨hpick, rfl, fun i p hr => ?_⟩)
    split at hr
    · cases hr
    · split at hr <;> exact nomatch hr
  refine holds_bind_reading (congrArg _ hst) ?_
  dsimp only
  cases hchoose : st.choose with
  | none =>
    refine hrecovery ?_
    rw [picks, hst]
    dsimp only
    rw [hchoose]
  | some chosen =>
    have hpicks : picks v img = (firstBootable v img st chosen).map Prod.fst := by
      rw [picks, hst]
      dsimp only
      rw [hchoose]
    refine holds_bind_reading rfl ?_
    rcases hfound : firstBootable v img st chosen with _ | p
    · rw [hfound] at hpicks
      exact hrecovery hpicks
    rw [hfound] at hpicks
    obtain ⟨i, kernel⟩ := p
    refine holds_bind (hsave i) ?_ fun _ _ _ hr => nomatch hr.1
    rintro _ _ d ⟨-, hId, hR⟩
    exact holds_reading hId (.inr ⟨i, _, hpicks, hR, rfl⟩)

theorem HasState.holds_loadSystem (h : HasState count base v lba img st) :
    Prog.Holds Disk.whole (loadSystem v) () img (fun d => ∃ st', HasState count base v lba d st')
      (fun r _ d => (picks v img = none ∧ d = img ∧ ∀ i p, r ≠ .ok (.slot i p)) ∨
        ∃ i p, picks v img = some i ∧
          (∃ st', HasState count base v lba d st' ∧ st'.selected = i) ∧ r = .ok (.slot i p)) := by
  rw [loadSystem_eq_with]
  refine holds_loadSystemWith _ h.state ⟨st, h⟩ fun i => ?_
  have hwrite := h.write (st.select i)
  refine holds_bind_reading (congrArg _ h.slotsLba_eq) ?_
  exact holds_write ⟨st, h⟩ (fun _ ht => ht.elim) ⟨_, hwrite⟩
    ⟨rfl, ⟨_, hwrite⟩, _, hwrite, st.selected_select i⟩

theorem loadUnsaved_result (hst : readSlots v img = some st) :
    (picks v img = none ∧ ∀ i p, (loadUnsaved v () img).1 ≠ .ok (.slot i p)) ∨
      ∃ i p, picks v img = some i ∧ (loadUnsaved v () img).1 = .ok (.slot i p) := by
  have hload := (holds_loadSystemWith (fun _ => pure ()) (I := fun _ => True)
    (R := fun _ _ => True) hst trivial fun i =>
      holds_pure trivial ⟨rfl, trivial, trivial⟩).2
  rcases hload with ⟨hnone, -, hr⟩ | ⟨i, p, hpick, -, hr⟩
  · exact .inl ⟨hnone, hr⟩
  · exact .inr ⟨i, p, hpick, hr⟩

/-! ## Runs of boots and confirmations -/

inductive BootEvent where
  | powerOff
  | boot (cut : Option Nat)
  /-- A boot whose state could not be written. -/
  | bootUnsaved
  | confirma (cut : Option Nat)

namespace Machine

variable (count base : Nat) (m : Machine)

def bootUnsaved : Machine :=
  match mount m.img count base with
  | .error _ => { m with session := none }
  | .ok v => { m with session := afterBoot count base m.img none (loadUnsaved v () m.img).1 }

def bootStep : BootEvent → Machine
  | .powerOff => m.step count base .powerOff
  | .boot cut => m.step count base (.boot cut)
  | .bootUnsaved => m.bootUnsaved count base
  | .confirma cut => m.step count base (.confirma cut)

def bootRun (es : List BootEvent) : Machine := es.foldl (bootStep count base) m

/-- The slot on which a `confirma` sets `successful`. -/
def marks (cut : Option Nat) : Option (Fin 2) :=
  match m.session with
  | some { upd := some u, .. } =>
    if (reaching cut (u.confirma () m.img).2.2).isEmpty then none
    else (u.readState m.img).map SlotState.selected
  | _ => none

/-- The running system was loaded from slot `i`. -/
def RunsSlot (i : Fin 2) : Prop := ∃ p upd, m.session = some { booted := .slot i p, upd }

/-- The loader finds a slot to boot. -/
def Picks : Prop := ∃ v i, mount m.img count base = .ok v ∧ picks v m.img = some i

/-- The loader finds a slot, and it is the one selected before. -/
def PicksSelected : Prop :=
  ∃ v st, mount m.img count base = .ok v ∧ readSlots v m.img = some st ∧
    picks v m.img = some st.selected

end Machine

/-- Whether the last boot found a slot and left it on disk as the selected one. -/
def pickedAfter (count base : Nat) (m : Machine) (picked : Prop) : BootEvent → Prop
  | .boot _ => m.Picks count base
  | .bootUnsaved => m.PicksSelected count base
  | _ => picked

/-- Every `confirma` of the run follows a boot that found a slot and left it on
disk as the selected one. -/
def ConfirmsPicked (count base : Nat) : Prop → Machine → List BootEvent → Prop
  | _, _, [] => True
  | picked, m, e :: es =>
    (∀ cut, e = .confirma cut → picked) ∧
      ConfirmsPicked count base (pickedAfter count base m picked e) (m.bootStep count base e) es

/-- What holds between two events; `picked` tells of the last boot. -/
structure Tracks (count base : Nat) (v : Volume) (lba : Nat) (m : Machine) (st : SlotState)
    (picked : Prop) : Prop where
  disk : HasState count base v lba m.img st
  upd : ∀ s u, m.session = some s → s.upd = some u → u = ⟨v, lba⟩
  booted : picked → ∀ s, m.session = some s → ∃ p, s.booted = .slot st.selected p

section
variable {m : Machine} {picked : Prop} {cut : Option Nat} {i : Fin 2}

section
variable (h : Tracks count base v lba m st picked)
include h

theorem Tracks.boot (cut : Option Nat) :
    ∃ st', Tracks count base v lba (m.boot count base cut) st' (m.Picks count base) := by
  obtain ⟨hcut, hfinal⟩ := h.disk.holds_loadSystem
  unfold Machine.boot
  rw [h.disk.mounted]
  dsimp only
  cases cut with
  | some k =>
    obtain ⟨st', hdisk⟩ := hcut _ (cut_reaching m.img (some k) _)
    exact ⟨st', hdisk, nofun, nofun⟩
  | none =>
    rw [show reaching none (loadSystem v () m.img).2.2 = (loadSystem v () m.img).2.2 from rfl]
    generalize m.img.writeAll (loadSystem v () m.img).2.2 = d at hfinal
    rcases hfinal with ⟨hnone, rfl, -⟩ | ⟨i, p, hpick, ⟨st', hdisk, rfl⟩, hr⟩
    · refine ⟨st, h.disk, fun s u hs hu => ?_, ?_⟩
      · exact some.inj (hu.symm.trans (h.disk.afterBoot hs).2)
      · rintro ⟨v', i, hv, hpick⟩
        obtain rfl := ok.inj (h.disk.mounted.symm.trans hv)
        cases hnone.symm.trans hpick
    · refine ⟨st', hdisk, fun s u hs hu => ?_, fun _ s hs => ⟨p, ?_⟩⟩
      · exact some.inj (hu.symm.trans (hdisk.afterBoot hs).2)
      · exact ok.inj ((hdisk.afterBoot hs).1.symm.trans hr)

theorem Tracks.bootUnsaved :
    Tracks count base v lba (m.bootUnsaved count base) st (m.PicksSelected count base) := by
  unfold Machine.bootUnsaved
  rw [h.disk.mounted]
  refine ⟨h.disk, fun s u hs hu => ?_, ?_⟩
  · exact some.inj (hu.symm.trans (h.disk.afterBoot hs).2)
  rintro ⟨v', st', hv, hst, hpick⟩ s hs
  obtain rfl := ok.inj (h.disk.mounted.symm.trans hv)
  obtain rfl := some.inj (h.disk.state.symm.trans hst)
  rcases loadUnsaved_result h.disk.state with ⟨hnone, -⟩ | ⟨i, p, hpick', hr⟩
  · cases hnone.symm.trans hpick
  · obtain rfl := some.inj (hpick'.symm.trans hpick)
    exact ⟨p, ok.inj ((h.disk.afterBoot hs).1.symm.trans hr)⟩

theorem Tracks.confirma (cut : Option Nat) :
    ∃ st', Tracks count base v lba (m.confirma cut) st' picked := by
  unfold Machine.confirma
  split
  · rename_i booted u hsession
    obtain rfl := h.upd _ u hsession rfl
    rw [h.disk.confirma_writes]
    rcases reaching_single cut (lba, st.confirm.encode) with hws | hws
    · rw [hws]
      exact ⟨st, h.disk, fun s u hs => h.upd s u (of_afterRequest hs),
        fun hp s hs => h.booted hp s (of_afterRequest hs)⟩
    rw [hws]
    exact ⟨st.confirm, h.disk.write st.confirm,
      fun s u hs => h.upd s u (of_afterRequest hs),
      fun hp s hs => h.booted hp s (of_afterRequest hs)⟩
  · exact ⟨st, h⟩

theorem Tracks.step (e : BootEvent) : ∃ st', Tracks count base v lba (m.bootStep count base e) st'
      (pickedAfter count base m picked e) := by
  cases e with
  | powerOff => exact ⟨st, h.disk, nofun, nofun⟩
  | boot cut => exact h.boot cut
  | bootUnsaved => exact ⟨st, h.bootUnsaved⟩
  | confirma cut => exact h.confirma cut

theorem Tracks.marks_eq (hm : m.marks cut = some i) :
    ∃ s, m.session = some s ∧ i = st.selected := by
  unfold marks at hm
  split at hm
  · rename_i booted u hsession
    obtain rfl := h.upd _ u hsession rfl
    rw [h.disk.readState] at hm
    split at hm
    · cases hm
    · exact ⟨_, hsession, (some.inj hm).symm⟩
  · cases hm

theorem Tracks.runsSlot (hp : picked) (hm : m.marks cut = some i) : m.RunsSlot i := by
  obtain ⟨s, hs, rfl⟩ := h.marks_eq hm
  obtain ⟨p, hb⟩ := h.booted hp s hs
  exact ⟨p, s.upd, by rw [hs, ← hb]⟩

end

end

/-- From a machine that is off, through every run of boots and confirmations
whose confirmations follow a boot that found a slot and left it on disk as the
selected one: a slot is marked only while the system loaded from it runs. -/
theorem confirms_only_running_slot {m : Machine} (h : HasState count base v lba m.img st)
    (hoff : m.session = none) (es : List BootEvent) (hc : ConfirmsPicked count base False m es)
    (before : List BootEvent) (cut : Option Nat) (after : List BootEvent)
    (hes : es = before ++ .confirma cut :: after) (i : Fin 2)
    (hm : (m.bootRun count base before).marks cut = some i) :
    (m.bootRun count base before).RunsSlot i := by
  have hstart : Tracks count base v lba m st False :=
    ⟨h, fun _ _ hs => (nomatch hoff.symm.trans hs), nofun⟩
  generalize False = picked at hc hstart
  subst hes
  clear h hoff
  -- along the events before the request
  induction before generalizing m st picked with
  | nil => exact hstart.runsSlot (hc.1 cut rfl) hm
  | cons e before ih =>
    obtain ⟨st', h'⟩ := hstart.step e
    exact ih hm _ h' hc.2

/-- B, an update, is booted and confirmed. -/
theorem abMachine_confirms_running_slot :
    (({ abMachine with session := none } : Machine).bootRun 17 0 [.boot none]).marks none = some 1 ∧
      (({ abMachine with session := none } : Machine).bootRun 17 0 [.boot none]).RunsSlot 1 := by
  have hm : (({ abMachine with session := none } : Machine).bootRun 17 0 [.boot none]).marks none =
      some 1 := by
    decide +kernel
  have hpick : picks abVolume abImage = some 1 := by
    decide +kernel
  have hc : ConfirmsPicked 17 0 False { abMachine with session := none }
      [.boot none, .confirma none] :=
    ⟨nofun, fun _ _ => ⟨abVolume, 1, abImage_mount, hpick⟩, trivial⟩
  exact ⟨hm, confirms_only_running_slot (m := { abMachine with session := none })
    abImage_onDisk.toHasState rfl _ hc [.boot none] none [] rfl 1 hm⟩

/-! ## A recovery that confirms a broken slot -/

/-- A is to be tried once more, B was given up. -/
def lastTry : SlotState where
  slot := fun i => if i = 0 then ⟨3, 1, 0⟩ else ⟨2, 0, 0⟩
  lastSelected := 0

def rescuePair : Pair := ⟨elfHeader 0xc, [0x63]⟩

/-- The volume of `abImage` with a recovery environment in clusters 10 to 12. -/
def rescueImage : Image := fun a =>
  match a with
  | 3 => sectorFrom (record "A          " 0x10 3 0 ++ record "B          " 0x10 4 0 ++
      record "SLOTS   BIN" 0 5 512 ++ record "RECOVERY   " 0x10 10 0)
  | 1 => sectorFrom (0xf8 :: List.replicate 18 0xff)
  | 6 => lastTry.encode
  | 11 => sectorFrom (record "KERNEL  ELF" 0 11 58 ++ record "INITRD     " 0 12 1)
  | 12 => sectorFrom rescuePair.kernel
  | 13 => sectorFrom rescuePair.initrd
  | a => abImage a

def rescueMachine : Machine where
  img := rescueImage
  session := none
  confirmed := fun _ => none

/-- A is tried and hangs, the recovery environment starts, and its health check
confirms A. -/
theorem recovery_confirms_broken_slot :
    ((rescueMachine.bootRun 17 0 [.boot none]).session.map Session.booted =
        some (.slot 0 (abPair 0))) ∧
      ((rescueMachine.bootRun 17 0 [.boot none, .powerOff, .boot none]).session.map
        Session.booted = some (.recovery rescuePair)) ∧
      (rescueMachine.bootRun 17 0 [.boot none, .powerOff, .boot none]).marks none = some 0 ∧
      ¬ (rescueMachine.bootRun 17 0 [.boot none, .powerOff, .boot none]).RunsSlot 0 := by
  have hrec : (rescueMachine.bootRun 17 0 [.boot none, .powerOff, .boot none]).session.map
      Session.booted = some (.recovery rescuePair) := by
    decide +kernel
  refine ⟨by decide +kernel, hrec, by decide +kernel, ?_⟩
  rintro ⟨p, upd, hs⟩
  rw [hs] at hrec
  cases some.inj hrec

end NexoOS.Update
