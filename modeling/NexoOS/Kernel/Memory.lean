import NexoOS.Kernel.Lifetime
import NexoOS.Lib.Slots

/-!
# Freed frames and live mappings

A mapping made by `memory_map` holds no reference to its memory object, so
the object, and with it the frames, may go while some process still has them
mapped. The results here bound that: frames are otherwise owned exclusively,
and as long as no call takes away the last handle of an object that a live
process has mapped, no free frame is ever mapped.
-/

namespace NexoOS.Kernel

open Channel Function HandleTable List

/-! ## Who owns a frame -/

/-- The owner of a frame in use: an address space or a memory object. -/
inductive Owner where
  | proc (pid : Nat)
  | mem (o : Nat)

/-- Some page of the process is mapped to a frame of the object. -/
def Process.Maps (p : Process) (m : MemoryObject) : Prop :=
  ∃ v f, p.space.pages v = some f ∧ f ∈ m.frames

namespace KState

def Owns (k : KState) : Owner → Frame → Prop
  | .proc pid, f => ∃ p, k.procs[pid]? = some p ∧ p.reaped = false ∧
      (f ∈ p.space.frames ∨ f = p.space.root)
  | .mem o, f => ∃ m, k.mems[o]? = some (some m) ∧ f ∈ m.frames

/-- The object was not dropped. -/
def Alive (k : KState) (o : Nat) : Prop := ∃ m, k.mems[o]? = some (some m)

/-- Frames in use have one owner, handles refer to existing objects, and a
live process maps only frames of its own or of existing objects. -/
structure Inv (k : KState) : Prop where
  used : ∀ w f, k.Owns w f → k.alloc.used f = true
  excl : ∀ w w' f, k.Owns w f → k.Owns w' f → w = w'
  refs : ∀ o, k.Referenced (.memory o) → k.Alive o
  mapped : ∀ (pid : Nat) (p : Process) (v : Nat) (f : Frame), k.procs[pid]? = some p →
    p.exited = false → p.space.pages v = some f →
    k.Owns (.proc pid) f ∨ ∃ o, k.Owns (.mem o) f

/-- No frame the allocator considers free is mapped in a live process. -/
def NoFreeMapped (k : KState) : Prop :=
  ∀ (pid : Nat) (p : Process) (v : Nat) (f : Frame), k.procs[pid]? = some p →
    p.exited = false → p.space.pages v = some f → k.alloc.isFree f = false

variable {k k' k₁ : KState} {p : Process}

theorem Inv.noFreeMapped (h : k.Inv) : k.NoFreeMapped := by
  intro pid p v f hp hx hv
  have hused : k.alloc.used f = true := by
    rcases h.mapped pid p v f hp hx hv with ho | ⟨o, ho⟩
    · exact h.used _ f ho
    · exact h.used _ f ho
  simp [FrameAllocator.isFree, hused]

/-! ## Handles that a call leaves -/

def tableOf (k : KState) (pid : Nat) : Option HandleTable := k.procs[pid]?.map Process.handles

/-- The call takes the handle in slot `s` of the caller's table. -/
def Call.takes : Call → Nat → Prop
  | .handleClose i, s => s = i
  | .channelSend _ _ ids _, s => s ∈ ids
  | .exit, _ => True
  | _, _ => False

/-- What the call leaves of a queue whose end stays in use. The collector runs at an exit
and may empty any queue. -/
def Call.waiting : Call → List Message → List Message
  | .channelRecv _ _ _ _, q => q.tail
  | .exit, _ => []
  | _, q => q

/-- Slot `s` of process `j` holds `g`. -/
def Slot (k : KState) (j s : Nat) (g : Handle) : Prop :=
  ∃ t, k.tableOf j = some t ∧ t[s]? = some (some g)

/-- `g` is a handle to the object, or to an end where a message of `w` has one. -/
def Leads (k : KState) (w : List Message → List Message) (g : Handle) (o : Nat) : Prop :=
  g.object = .memory o ∨ ∃ e side ch msg h, g.object = .channel e side ∧ k.chans[e]? = some ch ∧
    msg ∈ w (ch.queue side) ∧ h ∈ msg.handles ∧ h.object = .memory o

/-- The tables have a handle that leads to the object and that the call does not take. -/
def Held (k : KState) (pid : Nat) (c : Call) (o : Nat) : Prop :=
  ∃ j s g, k.Slot j s g ∧ (j = pid → ¬ c.takes s) ∧ k.Leads c.waiting g o

/-- The call leaves a handle of each object that a process which stays alive has
mapped. -/
def Guarded (k : KState) (pid : Nat) (c : Call) : Prop :=
  ∀ (i : Nat) (p : Process) (o : Nat) (m : MemoryObject), k.procs[i]? = some p →
    p.exited = false → (c = .exit → i ≠ pid) → k.mems[o]? = some (some m) → p.Maps m →
    k.Held pid c o

variable {pid j s o i : Nat} {g hd : Handle} {c : Call}

/-! ## Steps that keep the invariant -/

theorem procs_setProc (hp : k.procs[pid]? = some p) (q : Process) (i : Nat) :
    (k.setProc pid q).procs[i]? = if i = pid then some q else k.procs[i]? := by
  show (k.procs.set pid q)[i]? = _
  split
  · rename_i he
    rw [he, List.getElem?_set_self (List.getElem?_eq_some_iff.mp hp).1]
  · rename_i he
    exact getElem?_set_ne fun hc => he hc.symm

theorem getElem?_of_core (h : k'.procs.map Process.core = k.procs.map Process.core)
    (hp : k'.procs[i]? = some p) : ∃ q, k.procs[i]? = some q ∧ q.core = p.core := by
  have := congrArg (·[i]?) h
  simp only [getElem?_map, hp, Option.map_some] at this
  obtain ⟨q, hq, he⟩ := Option.map_eq_some_iff.mp this.symm
  exact ⟨q, hq, he⟩

theorem Released.tableOf (h : Released k k') (pid : Nat) : k'.tableOf pid = k.tableOf pid := by
  have := congrArg (fun l : List (HandleTable × AddressSpace × Bool × Bool) =>
    l[pid]?.map Prod.fst) h.procs
  simpa [KState.tableOf, Process.core, comp_def] using this

theorem tableOf_setProc (hp : k.procs[pid]? = some p) (q : Process) :
    (k.setProc pid q).tableOf pid = some q.handles := by
  obtain ⟨hlt, -⟩ := List.getElem?_eq_some_iff.1 hp
  simp [tableOf, setProc, hlt]

theorem Released.owns (h : Released k k') {w : Owner} {f : Frame} (ho : k'.Owns w f) :
    k.Owns w f := by
  cases w with
  | proc pid =>
    obtain ⟨p, hp, hr, hf⟩ := ho
    obtain ⟨q, hq, he⟩ := getElem?_of_core h.procs hp
    simp only [Process.core, Prod.mk.injEq] at he
    obtain ⟨-, hs, -, hr'⟩ := he
    exact ⟨q, hq, by rw [hr', hr], by rw [hs]; exact hf⟩
  | mem o =>
    obtain ⟨m, hm, hf⟩ := ho
    rcases h.mems o with he | he
    · exact ⟨m, he ▸ hm, hf⟩
    · rw [he.1] at hm
      cases hm

/-- An object mapped in a live process has a handle afterwards, or is there all the
same. -/
def Keeps (k k' : KState) : Prop :=
  ∀ (i : Nat) (p : Process) (o : Nat) (m : MemoryObject), k.procs[i]? = some p →
    p.exited = false → k.mems[o]? = some (some m) → p.Maps m →
    k'.Referenced (.memory o) ∨ k'.Alive o

/-- Dropping keeps the invariant if no object mapped in a live process goes. -/
theorem Inv.released (h : k.Inv) (hrel : Released k k') (hkeep : Keeps k k') : k'.Inv := by
  refine ⟨fun w f ho => ?_, fun w w' f ho ho' => ?_, fun o ho => ?_, fun pid p v f hp hx hv => ?_⟩
  · have hold := hrel.owns ho
    rcases hrel.used f with he | ⟨o, m, hm, hf, hd⟩
    · rw [he]
      exact h.used w f hold
    -- a freed frame had the dropped object as its only owner
    have hw := h.excl w (.mem o) f hold ⟨m, hm, hf⟩
    subst hw
    obtain ⟨m', hm', _⟩ := ho
    rw [hd] at hm'
    cases hm'
  · exact h.excl w w' f (hrel.owns ho) (hrel.owns ho')
  · obtain ⟨m, hm⟩ := h.refs o (hrel.referenced ho)
    rcases hrel.mems o with he | he
    · exact ⟨m, he.trans hm⟩
    · exact absurd ho he.2
  · obtain ⟨q, hq, he⟩ := getElem?_of_core hrel.procs hp
    simp only [Process.core, Prod.mk.injEq] at he
    obtain ⟨-, hs, hx', hr'⟩ := he
    rw [← hs] at hv
    rcases h.mapped pid q v f hq (by rw [hx', hx]) hv with ⟨q', hq', hr, hf⟩ | ⟨o, m, hm, hf⟩
    · rw [hq] at hq'
      cases hq'
      exact .inl ⟨p, hp, by rw [← hr', hr], by rw [← hs]; exact hf⟩
    rcases hrel.mems o with he | ⟨hnone, hnot⟩
    · exact .inr ⟨o, m, he.trans hm, hf⟩
    rcases hkeep pid q o m hq (by rw [hx', hx]) hm ⟨v, f, hv, hf⟩ with href | ⟨m', hm'⟩
    · exact absurd href hnot
    · cases hnone.symm.trans hm'

/-- Frames, objects and address spaces are the same. -/
structure SameMemory (k k' : KState) : Prop where
  alloc : k'.alloc = k.alloc
  mems : k'.mems = k.mems
  procs : ∀ (i : Nat) (p' : Process), k'.procs[i]? = some p' →
    ∃ p, k.procs[i]? = some p ∧ p'.space = p.space ∧ p'.reaped = p.reaped ∧
      (p'.exited = false → p.exited = false)

/-- The memory objects that the handles refer to exist. -/
def Live (k : KState) (hs : List Handle) : Prop :=
  ∀ g ∈ hs, ∀ o, g.object = .memory o → k.Alive o

/-- Moving handles around keeps the invariant. -/
theorem Inv.edit (h : k.Inv) (hs : SameMemory k k') (hr : k.Live k'.handles) : k'.Inv := by
  have howns : ∀ w f, k'.Owns w f → k.Owns w f := by
    intro w f ho
    cases w with
    | proc pid =>
      obtain ⟨p', hp', hre, hf⟩ := ho
      obtain ⟨p, hp, hsp, hre', _⟩ := hs.procs pid p' hp'
      exact ⟨p, hp, by rw [← hre', hre], by rw [← hsp]; exact hf⟩
    | mem o =>
      obtain ⟨m, hm, hf⟩ := ho
      exact ⟨m, hs.mems ▸ hm, hf⟩
  refine ⟨fun w f ho => ?_, fun w w' f ho ho' => ?_, fun o ho => ?_, fun pid p' v f hp' hx hv => ?_⟩
  · rw [hs.alloc]
    exact h.used w f (howns w f ho)
  · exact h.excl w w' f (howns w f ho) (howns w' f ho')
  · obtain ⟨g, hg, he⟩ := ho
    unfold Alive
    rw [hs.mems]
    exact hr g hg o he
  · obtain ⟨p, hp, hsp, hre, hx'⟩ := hs.procs pid p' hp'
    rw [hsp] at hv
    rcases h.mapped pid p v f hp (hx' hx) hv with ⟨q, hq, hr, hf⟩ | ⟨o, m, hm, hf⟩
    · rw [hp] at hq
      cases hq
      exact .inl ⟨p', hp', by rw [hre, hr], by rw [hsp]; exact hf⟩
    · exact .inr ⟨o, m, by rw [hs.mems]; exact hm, hf⟩

theorem SameMemory.refl (k : KState) : SameMemory k k :=
  ⟨rfl, rfl, fun _ p hp => ⟨p, hp, rfl, rfl, id⟩⟩

theorem SameMemory.setProc {q : Process} (h : SameMemory k k')
    (hp : k'.procs[pid]? = some p) (hs : q.space = p.space) (hr : q.reaped = p.reaped)
    (hx : q.exited = false → p.exited = false) : SameMemory k (k'.setProc pid q) := by
  refine ⟨h.alloc, h.mems, fun i p' hp' => ?_⟩
  rw [procs_setProc hp] at hp'
  split at hp'
  · rename_i he
    cases hp'
    obtain ⟨p₀, hp₀, hs₀, hr₀, hx₀⟩ := h.procs pid p hp
    exact ⟨p₀, he ▸ hp₀, hs.trans hs₀, hr.trans hr₀, fun hf => hx₀ (hx hf)⟩
  · exact h.procs i p' hp'

theorem SameMemory.setChan (h : SameMemory k k') (c : Nat) (ch : Channel) :
    SameMemory k (k'.setChan c ch) :=
  ⟨h.alloc, h.mems, h.procs⟩

theorem Slot.mem (h : k.Slot j s g) : g ∈ k.handles := by
  obtain ⟨t, ht, hs⟩ := h
  obtain ⟨q, hq, rfl⟩ := Option.map_eq_some_iff.1 ht
  exact mem_handles_of_table hq (mem_filterMap.2 ⟨some g, mem_of_getElem? hs, rfl⟩)

theorem Released.slot (h : Released k k') (hs : k.Slot j s g) : k'.Slot j s g := by
  obtain ⟨t, ht, hs⟩ := hs
  exact ⟨t, (h.tableOf j).trans ht, hs⟩

/-- The queue of an end in a table outlasts what is dropped. -/
theorem queue_dropAll {e : Nat} {side : Bool} (hs : k.Slot j s g) (hg : g.object = .channel e side)
    (work : List Handle) : (k.dropAll work).chans[e]?.map (·.queue side) =
      k.chans[e]?.map (·.queue side) := by
  fun_induction KState.dropAll k work with
  | case1 => rfl
  | case2 k h work hmem ih => exact ih hs
  | case3 k h work hmem o ho ih =>
    have hrel : Released k (k.dropMemory o) := released_dropMemory fun href => hmem (by
      obtain ⟨x, hx, he⟩ := href
      exact mem_map.2 ⟨x, mem_append_left _ hx, he.trans ho.symm⟩)
    rw [ih (hrel.slot hs), show (k.dropMemory o).chans = k.chans by unfold dropMemory; split <;> rfl]
  | case4 k h work hmem e' side' ho ih =>
    rw [ih ((dropping_released.closeEnd k e' side').slot hs)]
    -- the end that is closed is another one
    have hne : ¬ (e' = e ∧ side' = side) := by
      rintro ⟨rfl, rfl⟩
      exact hmem (mem_map.2 ⟨g, mem_append_left _ hs.mem, hg.trans ho.symm⟩)
    unfold closeEnd
    split
    · rename_i ch hch
      split
      · rfl
      by_cases he : e' = e
      · subst he
        have hother : side ≠ side' := fun h => hne ⟨rfl, h.symm⟩
        have hlt := (List.getElem?_eq_some_iff.1 hch).1
        rw [setChan, getElem?_set_self hlt, hch]
        exact congrArg some (update_of_ne hother ..)
      · simp [setChan, getElem?_set_ne he]
    · rfl
  | case5 k h work hmem _ _ ih => exact ih hs

/-- Before anything is dropped, the tables and queues are as `c` leaves them. -/
structure Frames (k k₁ : KState) (pid : Nat) (c : Call) : Prop where
  slots : ∀ j s g, k.Slot j s g → (j = pid → ¬ c.takes s) → k₁.Slot j s g
  queues : ∀ (e : Nat) (ch : Channel), k.chans[e]? = some ch → ∃ ch₁, k₁.chans[e]? = some ch₁ ∧
    ∀ side, ∀ m ∈ c.waiting (ch.queue side), m ∈ ch₁.queue side

theorem Call.mem_of_waiting {q : List Message} {m : Message} (h : m ∈ c.waiting q) : m ∈ q := by
  cases c with
  | channelRecv => exact mem_of_mem_tail h
  | exit => cases h
  | _ => exact h

theorem Frames.refl (k : KState) (pid : Nat) (c : Call) : Frames k k pid c :=
  ⟨fun _ _ _ hs _ => hs, fun _ ch hch => ⟨ch, hch, fun _ _ hm => c.mem_of_waiting hm⟩⟩

theorem Frames.setTable {p q : Process} (h : Frames k k₁ pid c) (hp : k₁.procs[pid]? = some p)
    (ht : ∀ s g, p.handles[s]? = some (some g) → ¬ c.takes s → q.handles[s]? = some (some g)) :
    Frames k (k₁.setProc pid q) pid c := by
  refine ⟨fun j s g hs hj => ?_, h.queues⟩
  obtain ⟨t, htable, hslot⟩ := h.slots j s g hs hj
  by_cases hjp : j = pid
  · subst hjp
    obtain rfl : p.handles = t := by simpa [tableOf, hp] using htable
    exact ⟨q.handles, tableOf_setProc hp q, ht s g hslot (hj rfl)⟩
  · refine ⟨t, ?_, hslot⟩
    rw [tableOf, procs_setProc hp, if_neg hjp]
    exact htable

/-- The object still has a handle when the rest was dropped. -/
theorem Held.referenced (h : k.Held pid c o) (hf : Frames k k₁ pid c) (work : List Handle) :
    (k₁.dropAll work).Referenced (.memory o) := by
  obtain ⟨j, s, g, hs, hj, hleads⟩ := h
  have hs₁ := hf.slots j s g hs hj
  rcases hleads with hg | ⟨e, side, ch, msg, x, hg, hch, hmsg, hx, ho⟩
  · exact ⟨g, ((released_dropAll k₁ work).slot hs₁).mem, hg⟩
  obtain ⟨ch₁, hch₁, hqueue⟩ := hf.queues e ch hch
  have hkept := queue_dropAll hs₁ hg work
  rw [hch₁] at hkept
  obtain ⟨ch₂, hch₂, heq⟩ := Option.map_eq_some_iff.1 hkept
  refine ⟨x, mem_handles_of_chan hch₂ (Channel.mem_handles_iff.2 ⟨side, ?_⟩), ho⟩
  exact mem_flatMap.2 ⟨msg, by rw [heq]; exact hqueue side msg hmsg, hx⟩

/-- Handles are moved. -/
structure Edit (k k₁ : KState) (pid : Nat) (c : Call) : Prop extends SameMemory k k₁,
    Frames k k₁ pid c where
  live : k.Live k₁.handles

/-- Handles are moved, then some are dropped: what most calls do. -/
def Edits (k k' : KState) (pid : Nat) (c : Call) : Prop :=
  ∃ k₁ work, Edit k k₁ pid c ∧ k' = k₁.dropAll work

theorem Inv.edits (h : k.Inv) (he : Edits k k' pid c) (hne : c ≠ .exit)
    (hkeep : k'.mems = k.mems ∨ k.Guarded pid c) : k'.Inv := by
  obtain ⟨k₁, work, he, rfl⟩ := he
  refine (h.edit he.toSameMemory he.live).released (released_dropAll k₁ work)
    fun i q o m hq hx hm hmap => ?_
  rw [he.mems] at hm
  obtain ⟨p, hp, hsp, _, hx'⟩ := he.procs i q hq
  obtain ⟨v, f, hv, hf⟩ := hmap
  rcases hkeep with hmems | hg
  · exact .inr ⟨m, hmems ▸ hm⟩
  · exact .inl ((hg i p o m hp (hx' hx) (fun hc => absurd hc hne) hm
      ⟨v, f, hsp ▸ hv, hf⟩).referenced he.toFrames work)

/-- Frames keep their owner, or were unused and have the same new one. -/
theorem Inv.owned {who : Owner} (h : k.Inv)
    (hmono : ∀ f, k.alloc.used f = true → k'.alloc.used f = true)
    (howns : ∀ w f, k'.Owns w f → k.Owns w f ∨ (w = who ∧ k.alloc.used f = false ∧
      k'.alloc.used f = true)) : (∀ w f, k'.Owns w f → k'.alloc.used f = true) ∧
      ∀ w w' f, k'.Owns w f → k'.Owns w' f → w = w' := by
  refine ⟨fun w f ho => ?_, fun w w' f ho ho' => ?_⟩
  · rcases howns w f ho with ho | ⟨_, _, hu⟩
    · exact hmono f (h.used w f ho)
    · exact hu
  rcases howns w f ho with h1 | ⟨h1, hu, _⟩ <;> rcases howns w' f ho' with h2 | ⟨h2, hu', _⟩
  · exact h.excl w w' f h1 h2
  · rw [h.used w f h1] at hu'
    cases hu'
  · rw [h.used w' f h2] at hu
    cases hu
  · rw [h1, h2]

section Calls

theorem step_eq (hp : k.procs[pid]? = some p) {c : Call} (he : enabled p c = true) :
    k.step pid c = (k.call pid p c).1 := by
  rw [step, hp]
  exact if_pos he

variable {m : MemoryObject} {t t' : HandleTable}

theorem Inv.live (h : k.Inv) : k.Live k.handles := fun g hg o he => h.refs o ⟨g, hg, he⟩

theorem Live.setProc {q : Process} (h : k.Live k'.handles) (hq : k.Live q.handles.live) :
    k.Live (k'.setProc pid q).handles := by
  intro g hg
  rcases handles_setProc hg with hg | hg
  · exact hq g hg
  · exact h g hg

theorem Live.insert (h : k.Live t.live) (ht : t.insert hd = .ok (i, t'))
    (hh : ∀ o, hd.object = .memory o → k.Alive o) : k.Live t'.live := by
  intro g hg
  rcases live_insert ht hg with rfl | hg
  · exact hh
  · exact h g hg

theorem Edit.refl (h : k.Inv) (pid : Nat) (c : Call) : Edit k k pid c :=
  ⟨.refl k, .refl k pid c, h.live⟩

theorem Edit.edits (h : Edit k k₁ pid c) : Edits k k₁ pid c := ⟨k₁, [], h, by rw [dropAll]⟩

theorem Edit.setTable (h : Edit k k₁ pid c) (hp : k₁.procs[pid]? = some p) (ht : k.Live t.live)
    (hkept : ∀ (s : Nat) (g : Handle), p.handles[s]? = some (some g) → ¬ c.takes s →
      t[s]? = some (some g)) : Edit k (k₁.setProc pid { p with handles := t }) pid c :=
  ⟨h.toSameMemory.setProc hp rfl rfl id, h.toFrames.setTable hp hkept, h.live.setProc ht⟩

theorem Edit.setChan {e : Nat} {ch ch' : Channel} (h : Edit k k₁ pid c) (hk : k₁.chans = k.chans)
    (hch : k.chans[e]? = some ch) (hlive : k.Live ch'.handles)
    (hq : ∀ side, ∀ m ∈ c.waiting (ch.queue side), m ∈ ch'.queue side) :
    Edit k (k₁.setChan e ch') pid c := by
  refine ⟨h.toSameMemory.setChan e ch', ⟨h.slots, fun e' ch₀ hch₀ => ?_⟩,
    fun g hg => (handles_setChan hg).elim (hlive g) (h.live g)⟩
  simp only [KState.setChan, hk]
  by_cases he : e = e'
  · subst he
    obtain rfl : ch = ch₀ := Option.some.inj (hch.symm.trans hch₀)
    exact ⟨ch', getElem?_set_self (List.getElem?_eq_some_iff.1 hch).1, hq⟩
  · exact ⟨ch₀, (getElem?_set_ne he).trans hch₀, fun _ _ => c.mem_of_waiting⟩

theorem insert_kept (h : t.insert hd = .ok (i, t')) (hs : t[s]? = some (some g)) :
    t'[s]? = some (some g) := by
  unfold HandleTable.insert at h
  split at h
  · rename_i i' hi
    cases h
    rw [getElem?_set_ne, hs]
    rintro rfl
    obtain ⟨hlt, hnone, -⟩ := findIdx?_eq_some_iff_getElem.1 hi
    rw [getElem?_eq_getElem hlt] at hs
    rw [Option.some.inj hs] at hnone
    cases hnone
  · split at h
    · cases h
    cases h
    rw [getElem?_append_left (List.getElem?_eq_some_iff.1 hs).1, hs]

theorem takeAll_kept {ids : List Nat} {hs : List Handle} (h : takeAll t ids = .ok (hs, t'))
    (hn : s ∉ ids) : t'[s]? = t[s]? := by
  induction ids generalizing t hs with
  | nil =>
    cases h
    rfl
  | cons id ids ih =>
    unfold takeAll HandleTable.take at h
    cases hget : t.get id with
    | error e => simp [hget] at h
    | ok x =>
      simp only [hget] at h
      split at h
      · cases h
      rename_i ht
      cases h
      rw [ih ht fun hm => hn (mem_cons_of_mem id hm), getElem?_set_ne]
      exact fun he => hn (he ▸ mem_cons_self)

/-- `memory_create` takes unused frames; failing, it leaves frames in use
alone. -/
theorem allocFrames_spec (a₀ a : FrameAllocator) (n : Nat) (got : List Frame)
    (hgot : ∀ f ∈ got, a₀.used f = false ∧ a.used f = true)
    (hmono : ∀ f, a₀.used f = true → a.used f = true) :
    (∀ f, a₀.used f = true → (allocFrames a n got).1.used f = true) ∧
    ∀ fs, (allocFrames a n got).2 = some fs →
      ∀ f ∈ fs, a₀.used f = false ∧ (allocFrames a n got).1.used f = true := by
  induction n generalizing a got with
  | zero =>
    refine ⟨hmono, fun fs hfs f hf => ?_⟩
    cases hfs
    exact hgot f (mem_reverse.mp hf)
  | succ n ih =>
    unfold allocFrames
    split
    · rename_i f a' he
      obtain ⟨hfree, hused, _⟩ := FrameAllocator.allocate_spec he
      have hmono' : ∀ g, a.used g = true → a'.used g = true := by
        intro g hg
        rw [hused, update_apply]
        split
        · rfl
        · exact hg
      refine ih _ _ (fun g hg => ?_) fun g hg => hmono' g (hmono g hg)
      rcases mem_cons.mp hg with rfl | hg
      · refine ⟨?_, by rw [hused, update_self]⟩
        by_contra hc
        have := hmono g (by simpa using hc)
        rw [hfree] at this
        cases this
      · exact ⟨(hgot g hg).1, hmono' g (hgot g hg).2⟩
    · refine ⟨fun f hf => ?_, fun fs hfs => nomatch hfs⟩
      show (a.freeAll got.reverse).used f = true
      rw [FrameAllocator.freeAll_used, hmono f hf]
      intro hc
      have := (hgot f (mem_reverse.mp hc)).1
      rw [hf] at this
      cases this

theorem takeAll_mem {ids : List Nat} {hs : List Handle} (h : takeAll t ids = .ok (hs, t')) :
    (∀ g ∈ hs, g ∈ t.live) ∧ ∀ g ∈ t'.live, g ∈ t.live := by
  induction ids generalizing t hs with
  | nil =>
    cases h
    exact ⟨by simp, fun _ hg => hg⟩
  | cons id ids ih =>
    unfold takeAll at h
    split at h
    · cases h
    rename_i hd t₁ ht
    obtain ⟨hmem, hsub⟩ := take_mem ht
    split at h
    · cases h
    rename_i hs' t₂ ht'
    cases h
    obtain ⟨h1, h2⟩ := ih ht'
    refine ⟨fun g hg => ?_, fun g hg => hsub g (h2 g hg)⟩
    rcases mem_cons.mp hg with rfl | hg
    · exact hmem
    · exact hsub g (h1 g hg)

/-- A send that passes its checks ends in `send_message`; any other leaves
the kernel alone. -/
theorem sysChannelSend_state (k : KState) (pid : Nat) (p : Process) (i : Nat)
    (data : List UInt8) (ids : List Nat) (fault : Bool) :
    (k.sysChannelSend pid p i data ids fault).1 = k ∨
    ∃ c side moved t, takeAll p.handles ids = .ok (moved, t) ∧
      (k.sysChannelSend pid p i data ids fault).1 =
        ((k.setProc pid { p with handles := t }).sendMessage c side
          { data, handles := moved }).1 := by
  unfold sysChannelSend
  split
  · exact .inl rfl
  split
  · exact .inl rfl
  split
  · exact .inl rfl
  split
  · rename_i c side _
    split
    · exact .inl rfl
    split
    · exact .inl rfl
    split
    · exact .inl rfl
    rename_i moved t ht
    refine .inr ⟨c, side, moved, t, ht, ?_⟩
    split <;> rename_i heq <;> rw [heq]
  · exact .inl rfl

/-- Receiving pops a message and drops its handles or moves them to the
table. -/
theorem sysChannelRecv_state (k : KState) (pid : Nat) (p : Process) (i cap hcap : Nat)
    (fault : Bool) : (k.sysChannelRecv pid p i cap hcap fault).1 = k ∨
    ∃ hd c side ch msg rest, p.handles.get i = .ok hd ∧ hd.contains rightRead = true ∧
      hd.object = .channel c side ∧ k.chans[c]? = some ch ∧ ch.queue side = msg :: rest ∧
      ((k.sysChannelRecv pid p i cap hcap fault).1 =
          (k.setChan c { ch with queue := update ch.queue side rest }).dropAll
            msg.handles ∨ (k.sysChannelRecv pid p i cap hcap fault).1 =
          ((k.setChan c { ch with queue := update ch.queue side rest }).insertAll pid p
            msg.handles).1) := by
  unfold sysChannelRecv
  split
  · exact .inl rfl
  rename_i hd hget
  split
  · exact .inl rfl
  rename_i hread
  split
  · rename_i c side hobj
    split
    · exact .inl rfl
    rename_i ch hch
    split
    · exact .inl rfl
    rename_i msg rest hq
    refine .inr ⟨hd, c, side, ch, msg, rest, hget, not_not.mp hread, hobj, hch, hq, ?_⟩
    dsimp only
    split
    · exact .inl rfl
    split
    · exact .inl rfl
    · right
      split <;> rename_i heq <;> rw [heq]
  · exact .inl rfl

/-- The handles that fit go into the table, the others are dropped. -/
theorem edits_insertAll (he : Edit k k₁ pid c) (hp : k₁.procs[pid]? = some p) {hds : List Handle}
    (hhds : k.Live hds) (ht : k.Live t.live) (hkept : ∀ (s : Nat) (g : Handle),
      p.handles[s]? = some (some g) → t[s]? = some (some g)) :
    Edits k (k₁.insertAll pid { p with handles := t } hds).1 pid c := by
  have hput := he.setTable hp ht fun s g hs _ => hkept s g hs
  induction hds generalizing t with
  | nil => exact hput.edits
  | cons x hds ih =>
    unfold insertAll
    split
    · rename_i hins
      have ht' := ht.insert hins (hhds x mem_cons_self)
      have hkept' := fun s g hs => insert_kept hins (hkept s g hs)
      exact ih (fun x' hx' => hhds x' (mem_cons_of_mem _ hx')) ht' hkept'
        (he.setTable hp ht' fun s g hs _ => hkept' s g hs)
    · exact ⟨_, _, hput, rfl⟩

section
variable (h : k.Inv) (hp : k.procs[pid]? = some p)
include h hp

theorem Inv.live_table : k.Live p.handles.live :=
  fun g hg => h.live g (mem_handles_of_table hp hg)

theorem edits_handleClose (i : Nat) :
    Edits k (k.call pid p (.handleClose i)).1 pid (.handleClose i) := by
  simp only [call, sysHandleClose]
  split
  · rename_i hd t ht
    refine ⟨_, _, (Edit.refl h pid _).setTable hp
      (fun g hg => h.live_table hp g ((take_mem ht).2 g hg)) fun s g hs hn => ?_, rfl⟩
    unfold HandleTable.take at ht
    split at ht
    · cases ht
      rwa [getElem?_set_ne fun he => hn he.symm]
    · cases ht
  · exact (Edit.refl h pid _).edits

/-- A handle to an existing object goes into the table, or is dropped. -/
theorem edits_insertHandle (c : Call) (hh : ∀ o, hd.object = .memory o → k.Alive o) :
    Edits k (k.insertHandle pid p hd).1 pid c := by
  unfold insertHandle
  split
  · rename_i i t ht
    exact ((Edit.refl h pid c).setTable hp ((h.live_table hp).insert ht hh)
      fun s g hs _ => insert_kept ht hs).edits
  · exact ⟨k, _, .refl h pid c, rfl⟩

theorem edits_handleDuplicate (i : Nat) (wanted : UInt32) :
    Edits k (k.call pid p (.handleDuplicate i wanted)).1 pid (.handleDuplicate i wanted) := by
  simp only [call, sysHandleDuplicate]
  split
  · rename_i hd hget
    split
    · exact (Edit.refl h pid _).edits
    · exact edits_insertHandle h hp _ (h.live_table hp hd (get_mem hget))
  · exact (Edit.refl h pid _).edits

/-- Pages of existing objects are mapped or unmapped; page tables come from
unused frames. -/
theorem inv_grown {fs : List Frame} {q : Process}
    {a : FrameAllocator} (hg : Grown fs p.space k.alloc q.space a)
    (hfs : ∀ f ∈ fs, ∃ o, k.Owns (.mem o) f) (hh : q.handles = p.handles)
    (hr : q.reaped = p.reaped) (hx : q.exited = p.exited) :
    Inv { (k.setProc pid q) with alloc := a } := by
  let k' : KState := { (k.setProc pid q) with alloc := a }
  have hprocs : ∀ i, k'.procs[i]? = if i = pid then some q else k.procs[i]? := procs_setProc hp q
  -- a frame has its old owner, or it was unused and now belongs to `pid`
  have howns : ∀ w f, k'.Owns w f → k.Owns w f ∨ (w = .proc pid ∧ k.alloc.used f = false ∧
      a.used f = true) := by
    intro w f ho
    cases w with
    | mem o => exact .inl ho
    | proc i =>
      obtain ⟨p', hp', hre, hf⟩ := ho
      rw [hprocs] at hp'
      split at hp'
      · rename_i he
        cases hp'
        subst he
        rcases hf with hf | hf
        · rcases hg.frames f hf with hf | hf
          · exact .inl ⟨p, hp, by rw [← hr, hre], .inl hf⟩
          · exact .inr ⟨rfl, hf⟩
        · exact .inl ⟨p, hp, by rw [← hr, hre], .inr (hf.trans hg.root)⟩
      · exact .inl ⟨p', hp', hre, hf⟩
  obtain ⟨hused, hexcl⟩ := h.owned hg.used howns
  refine ⟨hused, hexcl, fun o ⟨g, hg', he⟩ => ?_, fun i p' v f hp' hx' hv => ?_⟩
  · exact h.live.setProc (q := q) (hh ▸ h.live_table hp) g hg' o he
  rw [hprocs] at hp'
  split at hp'
  · rename_i he
    cases hp'
    subst he
    have hsub : ∀ w, k.Owns w f → k'.Owns w f := by
      intro w ho
      cases w with
      | mem o => exact ho
      | proc j =>
        obtain ⟨p₂, hp₂, hre, hf⟩ := ho
        by_cases hj : j = i
        · subst hj
          rw [hp] at hp₂
          cases hp₂
          refine ⟨q, by rw [hprocs, if_pos rfl], by rw [hr, hre], ?_⟩
          exact hf.imp (hg.kept f) fun e => e.trans hg.root.symm
        · exact ⟨p₂, by rw [hprocs, if_neg hj]; exact hp₂, hre, hf⟩
    rcases hg.pages v f hv with hv | hf
    · rcases h.mapped i p v f hp (by rw [← hx, hx']) hv with ho | ⟨o, ho⟩
      · exact .inl (hsub _ ho)
      · exact .inr ⟨o, hsub _ ho⟩
    · exact .inr (hfs f hf)
  · rename_i he
    rcases h.mapped i p' v f hp' hx' hv with ⟨p₂, hp₂, hre, hf⟩ | ho
    · exact .inl ⟨p₂, by rw [hprocs, if_neg he]; exact hp₂, hre, hf⟩
    · exact .inr ho

theorem inv_memoryUnmap (base len : Nat) : (k.call pid p (.memoryUnmap base len)).1.Inv := by
  simp only [call, sysMemoryUnmap]
  split
  · exact h
  refine inv_grown h hp (?_ : Grown [] _ _ _ _) (by simp) rfl rfl rfl
  refine ⟨rfl, fun _ hf => hf, fun _ hf => .inl hf, fun _ hf => hf, fun v f hv => .inl ?_⟩
  simp only [AddressSpace.unmapUserShared] at hv
  split at hv
  · cases hv
  · exact hv

theorem inv_memoryMap (i : Nat) : (k.call pid p (.memoryMap i)).1.Inv := by
  simp only [call, sysMemoryMap]
  split
  · exact h
  split
  · split
    · exact h
    split
    · rename_i o _ _ _ m hm
      have hg := AddressSpace.mapAll_grown m.frames p.space k.alloc p.deviceNext
      generalize p.space.mapAll k.alloc p.deviceNext m.frames = r at hg
      obtain ⟨space, a, ok⟩ := r
      exact inv_grown h hp (q := { p with space, deviceNext := _ }) hg
        (fun f hf => ⟨o, m, hm, hf⟩) rfl rfl rfl
    · exact h
  · exact h

theorem Inv.used_of_mapped (hx : p.exited = false)
    {v : Nat} {f : Frame} (hv : p.space.pages v = some f) : k.alloc.used f = true := by
  rcases h.mapped pid p v f hp hx hv with ho | ⟨o, ho⟩ <;> exact h.used _ f ho

theorem inv_newMemory {a : FrameAllocator} (hmono : ∀ f, k.alloc.used f = true → a.used f = true)
    (hnew : ∀ f ∈ m.frames, k.alloc.used f = false ∧ a.used f = true) (n : Nat) :
    Inv { (k.setProc pid { p with shmPages := n }) with alloc := a, mems := k.mems ++ [some m] } := by
  have h₁ : (k.setProc pid { p with shmPages := n }).Inv :=
    h.edit ((SameMemory.refl k).setProc hp rfl rfl id) (h.live.setProc (h.live_table (p := p) hp))
  generalize hk : k.setProc pid { p with shmPages := n } = k₁ at h₁
  have hal : k.alloc = k₁.alloc := by rw [← hk]; rfl
  have hmems : k.mems = k₁.mems := by rw [← hk]; rfl
  rw [hal] at hmono hnew
  rw [hmems]
  let k' : KState := { k₁ with alloc := a, mems := k₁.mems ++ [some m] }
  have howns : ∀ w f, k'.Owns w f → k₁.Owns w f ∨ (w = .mem k₁.mems.length ∧
      k₁.alloc.used f = false ∧ a.used f = true) := by
    intro w f ho
    cases w with
    | proc i => exact .inl ho
    | mem o =>
      obtain ⟨m', hm', hf⟩ := ho
      rcases getElem?_concat_cases hm' with hm' | ⟨rfl, ⟨⟩⟩
      · exact .inl ⟨m', hm', hf⟩
      · exact .inr ⟨rfl, hnew f hf⟩
  have hold : ∀ o m', k₁.mems[o]? = some (some m') → k'.mems[o]? = some (some m') :=
    fun o m' hm' =>
      (getElem?_append_left (getElem?_eq_some_iff.mp hm').1).trans hm'
  obtain ⟨hused, hexcl⟩ := h₁.owned (by exact hmono) howns
  refine ⟨hused, hexcl, fun o ho => ?_, fun i p' v f hp' hx hv => ?_⟩
  · obtain ⟨m', hm'⟩ := h₁.refs o ho
    exact ⟨m', hold o m' hm'⟩
  · rcases h₁.mapped i p' v f hp' hx hv with ho | ⟨o, m', hm', hf⟩
    · exact .inl ho
    · exact .inr ⟨o, m', hold o m' hm', hf⟩

theorem inv_memoryCreate (hx : p.exited = false) (pages : Nat)
    (hg : k.Guarded pid (.memoryCreate pages)) : (k.call pid p (.memoryCreate pages)).1.Inv := by
  obtain ⟨hmono, hnew⟩ := allocFrames_spec k.alloc k.alloc pages []
    (by simp) fun _ hf => hf
  simp only [call, sysMemoryCreate]
  split
  · exact h
  split
  · exact h
  split
  · rename_i a he
    rw [he] at hmono
    exact ⟨fun w f ho => hmono f (h.used w f ho), h.excl, h.refs, h.mapped⟩
  rename_i a frames he
  rw [he] at hmono hnew
  have h₁ := inv_newMemory h hp
    (m := { frames, len := pages * pageSize, owner := pid }) hmono (hnew frames rfl)
    (p.shmPages + pages)
  refine h₁.edits (edits_insertHandle h₁ (p := { p with shmPages := p.shmPages + pages }) ?_
    (.memoryCreate pages) ?_) nofun (.inr ?_)
  · show (k.setProc pid _).procs[pid]? = _
    rw [procs_setProc hp, if_pos rfl]
  · intro o ho
    simp only [Object.memory.injEq] at ho
    subst ho
    exact ⟨{ frames, len := pages * pageSize, owner := pid }, by simp⟩
  · intro i q o m hq hxq _ hm hmap
    -- the process is one of the old ones, with the same pages
    obtain ⟨q₀, hq₀, hs, hx₀⟩ : ∃ q₀, k.procs[i]? = some q₀ ∧ q₀.space = q.space ∧
        q₀.exited = false := by
      change (k.setProc pid _).procs[i]? = some q at hq
      rw [procs_setProc hp] at hq
      split at hq
      · rename_i hi
        cases hq
        exact ⟨p, hi ▸ hp, rfl, hx⟩
      · exact ⟨q, hq, rfl, hxq⟩
    obtain ⟨v, f, hv, hf⟩ := hmap
    rw [← hs] at hv
    rcases getElem?_concat_cases hm with hm | ⟨rfl, ⟨⟩⟩
    · obtain ⟨j, s, g, hslot, hj, hleads⟩ := hg i q₀ o m hq₀ hx₀ nofun hm ⟨v, f, hv, hf⟩
      exact ⟨j, s, g, ((Frames.refl k pid (.memoryCreate pages)).setTable (q := { p with
        shmPages := p.shmPages + pages }) hp fun _ _ hs _ => hs).slots j s g hslot hj, hj, hleads⟩
    -- nobody can have a page of the new object
    have hfree := (hnew frames rfl f hf).1
    rw [h.used_of_mapped hq₀ hx₀ hv] at hfree
    cases hfree

theorem edits_channelCreate : Edits k (k.call pid p .channelCreate).1 pid .channelCreate := by
  let k₁ : KState :=
    { k with chans := k.chans ++ [{ queue := fun _ => [], closed := fun _ => false }] }
  -- a new channel holds no handles
  have he : Edit k k₁ pid .channelCreate := by
    refine ⟨⟨rfl, rfl, (SameMemory.refl k).procs⟩, ⟨fun _ _ _ hs _ => hs, fun e ch hch => ⟨ch, ?_,
      fun _ _ hm => hm⟩⟩, fun g hg => h.live g ?_⟩
    · exact (getElem?_append_left (List.getElem?_eq_some_iff.1 hch).1).trans hch
    · simpa [k₁, handles, queueHandles, Channel.handles, Channel.queued] using hg
  simp only [call, sysChannelCreate]
  split
  · exact ⟨k₁, _, he, rfl⟩
  rename_i hins
  split
  · rename_i hins'
    exact (he.setTable hp (((h.live_table hp).insert hins (fun _ ho => by cases ho)).insert hins'
      fun _ ho => by cases ho) fun s g hs _ => insert_kept hins' (insert_kept hins hs)).edits
  · exact ⟨k₁, _, he, rfl⟩

/-- A message whose handles came from the sender's table is queued, or
dropped. -/
theorem edits_channelSend (i : Nat) (data : List UInt8) (ids : List Nat) (fault : Bool) :
    Edits k (k.call pid p (.channelSend i data ids fault)).1 pid (.channelSend i data ids fault) := by
  simp only [call]
  rcases sysChannelSend_state k pid p i data ids fault with he | ⟨e, side, moved, t, ht, he⟩
  · rw [he]
    exact (Edit.refl h pid _).edits
  rw [he]
  obtain ⟨hmoved, hsub⟩ := takeAll_mem ht
  have hput := (Edit.refl h pid (.channelSend i data ids fault)).setTable hp
    (fun g hg => h.live_table hp g (hsub g hg)) fun s g hs hn => (takeAll_kept ht hn).trans hs
  unfold sendMessage
  split
  · exact ⟨_, _, hput, rfl⟩
  rename_i ch hch
  split
  · exact ⟨_, _, hput, rfl⟩
  split
  · exact ⟨_, _, hput, rfl⟩
  refine (hput.setChan rfl hch (fun g hg => ?_) fun side' m hm => ?_).edits
  · rcases handles_push hg with hg | hg
    · exact h.live g (mem_handles_of_chan (k := k) hch hg)
    · exact h.live_table hp g (hmoved g hg)
  change m ∈ ch.queue side' at hm
  by_cases hs : side' = !side
  · subst hs
    simp [hm]
  · simpa [update_of_ne hs] using hm

theorem edits_channelRecv (i cap hcap : Nat) (fault : Bool) :
    Edits k (k.call pid p (.channelRecv i cap hcap fault)).1 pid (.channelRecv i cap hcap fault) := by
  simp only [call]
  rcases sysChannelRecv_state k pid p i cap hcap fault with
    he | ⟨_, e, side, ch, msg, rest, _, _, _, hch, hq, hcase⟩
  · rw [he]
    exact (Edit.refl h pid _).edits
  have hpop : Edit k (k.setChan e { ch with queue := update ch.queue side rest }) pid
      (.channelRecv i cap hcap fault) := by
    refine (Edit.refl h pid _).setChan rfl hch (fun g hg => ?_) fun side' m hm => ?_
    · exact h.live g (mem_handles_of_chan hch (handles_pop hq hg))
    by_cases hs : side' = side
    · subst hs
      simpa [Call.waiting, hq] using hm
    · simpa [update_of_ne hs] using mem_of_mem_tail hm
  rcases hcase with he | he <;> rw [he]
  · exact ⟨_, _, hpop, rfl⟩
  refine edits_insertAll hpop hp (fun g hg => h.live g ?_) (h.live_table hp) fun _ _ hs => hs
  refine mem_handles_of_chan hch (mem_handles_iff.mpr ⟨side, ?_⟩)
  rw [queued, hq, flatMap_cons]
  exact mem_append_left _ hg

theorem inv_exit (hg : k.Guarded pid .exit) : (k.call pid p .exit).1.Inv := by
  have hleft : Inv (k.setProc pid { p with handles := [], exited := true }) :=
    h.edit ((SameMemory.refl k).setProc hp rfl rfl nofun) (h.live.setProc nofun)
  have hrel := (released_dropAll (k.setProc pid { p with handles := [], exited := true })
    p.handles.live).trans (dropping_released.collectUnreachable _)
  refine hleft.released hrel fun i q o m hq hx hm hmap => ?_
  rw [procs_setProc hp] at hq
  split at hq
  · cases hq
    cases hx
  rename_i hi
  obtain ⟨j, s, g, hs, hj, hg | ⟨_, _, _, _, _, _, _, hmsg, _⟩⟩ :=
    hg i q o m hq hx (fun _ => hi) hm hmap
  · have hslot := ((Frames.refl k pid .exit).setTable (q := { p with
      handles := [], exited := true }) hp fun _ _ _ hn => absurd trivial hn).slots j s g hs hj
    exact .inl ⟨g, (hrel.slot hslot).mem, hg⟩
  · cases hmsg

/-- The frames of a dead address space belonged to nobody else. -/
theorem inv_reap (hx : p.exited = true) (hr : p.reaped = false) : (k.call pid p .reap).1.Inv := by
  have hprocs := procs_setProc hp { p with reaped := true }
  let k' := k.reapProcess pid p
  have howns : ∀ w f, k'.Owns w f → k.Owns w f ∧ w ≠ .proc pid := by
    intro w f ho
    cases w with
    | mem o => exact ⟨ho, nofun⟩
    | proc i =>
      obtain ⟨q, hq, hqr, hf⟩ := ho
      change (k.setProc pid _).procs[i]? = some q at hq
      rw [hprocs] at hq
      split at hq
      · cases hq
        cases hqr
      · rename_i hi
        exact ⟨⟨q, hq, hqr, hf⟩, fun he => hi (Owner.proc.inj he)⟩
  refine ⟨fun w f ho => ?_, fun w w' f ho ho' => h.excl w w' f (howns w f ho).1 (howns w' f ho').1,
    fun o ⟨g, hg, he⟩ => ?_, fun i q v f hq hxq hv => ?_⟩
  · obtain ⟨hold, hne⟩ := howns w f ho
    have hnot : ¬ (f ∈ p.space.frames ∨ f = p.space.root) := fun hf =>
      hne (h.excl w (.proc pid) f hold ⟨p, hp, hr, hf⟩)
    show ((k.alloc.freeAll p.space.frames).free p.space.root).used f = true
    rw [FrameAllocator.free_used _ _ _ fun he => hnot (.inr he),
      FrameAllocator.freeAll_used fun hf => hnot (.inl hf)]
    exact h.used w f hold
  · exact h.live.setProc (q := { p with reaped := true }) (h.live_table (p := p) hp) g hg o he
  · change (k.setProc pid _).procs[i]? = some q at hq
    rw [hprocs] at hq
    split at hq
    · cases hq
      rw [hx] at hxq
      cases hxq
    rename_i hi
    rcases h.mapped i q v f hq hxq hv with ⟨q', hq', hqr, hf⟩ | ho
    · refine .inl ⟨q', ?_, hqr, hf⟩
      show (k.setProc pid _).procs[i]? = some q'
      rw [hprocs, if_neg hi]
      exact hq'
    · exact .inr ho

end

end Calls

end KState
end NexoOS.Kernel
