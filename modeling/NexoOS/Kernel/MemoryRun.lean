import NexoOS.Kernel.Transfer

/-!
# Runs of system calls and the frames they free

The step lemmas of `NexoOS.Kernel.Memory`, carried along whole runs from a
booted kernel: careful runs never leave a free frame mapped, and the
shortest careless run does.
-/

namespace NexoOS.Kernel
namespace KState

open Function HandleTable List

variable {k : KState} {pid : Nat} {p : Process} {c : Call}

/-! ## Careful calls -/

/-- The call drops no handle: a message that is sent is accepted, one that is received
fits. -/
def Lossless (k : KState) (p : Process) : Call → Prop
  | .memoryMap _ | .memoryUnmap _ _ | .reap => True
  | .channelSend i _ _ _ => ∀ hd c side, p.handles.get i = .ok hd → hd.object = .channel c side →
      ∃ ch, k.chans[c]? = some ch ∧ ch.closed (!side) = false ∧
        (ch.queue !side).length < channelQueueMax
  | .channelRecv i cap hcap fault => ∀ msg, k.takenMessage p i ⟨true, fault, false⟩ = some msg →
      Fits p cap hcap ⟨true, fault, false⟩ msg
  | _ => False

def Careful (k : KState) (pid : Nat) (c : Call) : Prop :=
  (∀ p, k.procs[pid]? = some p → k.Lossless p c) ∨ k.Guarded pid c

/-! ## Runs -/

theorem lossless_send {i : Nat} {data : List UInt8} {ids : List Nat} {fault : Bool}
    (h : k.Lossless p (.channelSend i data ids fault)) :
    (k.call pid p (.channelSend i data ids fault)).1.mems = k.mems := by
  simp only [call, sysChannelSend]
  split
  · rfl
  split
  · rfl
  rename_i hd hget
  split
  · rfl
  split
  · rename_i e side hobj
    obtain ⟨ch, hch, hopen, hroom⟩ := h hd e side hget hobj
    split
    · rfl
    split
    · rfl
    split
    · rfl
    rename_i t _
    have hch' : (k.setProc pid { p with handles := t }).chans[e]? = some ch := hch
    simp only [sendMessage, hch', hopen, Bool.false_eq_true, if_false,
      if_neg (Nat.not_le.2 hroom)]
    rfl
  · rfl

theorem lossless_recv {i cap hcap : Nat} {fault : Bool}
    (h : k.Lossless p (.channelRecv i cap hcap fault)) :
    (k.call pid p (.channelRecv i cap hcap fault)).1.mems = k.mems := by
  simp only [call, sysChannelRecv]
  split
  · rfl
  rename_i hd hget
  split
  · rfl
  rename_i hread
  split
  · rename_i e side hobj
    split
    · rfl
    rename_i ch hch
    split
    · rfl
    rename_i msg rest hq
    obtain ⟨hcap, hhcap, hfault, -, t, ht⟩ := h msg (by
      simp [takenMessage, hget, not_not.1 hread, hobj, hch, hq])
    rw [if_neg (by omega), if_neg (by simpa using hfault), insertAll_ok ht]
    rfl
  · rfl

theorem Inv.step (h : k.Inv) (hc : k.Careful pid c) : (k.step pid c).Inv := by
  rcases hp : k.procs[pid]? with _ | p
  · rw [KState.step, hp]
    exact h
  by_cases he : enabled p c = true
  · rw [step_eq hp he]
    have hc := hc.imp_left fun hl => hl p hp
    cases c with
    | memoryCreate pages =>
      exact inv_memoryCreate h hp (by simpa [enabled] using he) pages (hc.resolve_left id)
    | memoryMap i => exact inv_memoryMap h hp i
    | memoryUnmap base len => exact inv_memoryUnmap h hp base len
    | handleClose i => exact h.edits (edits_handleClose h hp i) (by simp) (.inr (hc.resolve_left id))
    | handleDuplicate i wanted =>
      exact h.edits (edits_handleDuplicate h hp i wanted) (by simp) (.inr (hc.resolve_left id))
    | channelCreate => exact h.edits (edits_channelCreate h hp) (by simp) (.inr (hc.resolve_left id))
    | channelSend i data ids fault =>
      exact h.edits (edits_channelSend h hp i data ids fault) (by simp) (hc.imp_left lossless_send)
    | channelRecv i cap hcap fault =>
      exact h.edits (edits_channelRecv h hp i cap hcap fault) (by simp) (hc.imp_left lossless_recv)
    | exit => exact inv_exit h hp (hc.resolve_left id)
    | reap =>
      have : p.exited = true ∧ p.reaped = false := by simpa [enabled] using he
      exact inv_reap h hp this.1 this.2
  · rw [KState.step, hp]
    show Inv (if enabled p c = true then _ else k)
    rw [if_neg he]
    exact h

def CarefulRun : KState → List (Nat × Call) → Prop
  | _, [] => True
  | k, c :: cs => k.Careful c.1 c.2 ∧ (k.step c.1 c.2).CarefulRun cs

/-- A freshly booted kernel: processes with their own pages and whatever handles they
were given, but no memory objects yet. -/
structure Boot (k : KState) : Prop where
  mems : k.mems = []
  handles : ∀ g ∈ k.handles, ∀ o, g.object ≠ .memory o
  used : ∀ w f, k.Owns w f → k.alloc.used f = true
  excl : ∀ w w' f, k.Owns w f → k.Owns w' f → w = w'
  mapped : ∀ (pid : Nat) (p : Process) (v : Nat) (f : Frame), k.procs[pid]? = some p →
    p.exited = false → p.space.pages v = some f → k.Owns (.proc pid) f

theorem Boot.inv (h : k.Boot) : k.Inv := by
  refine ⟨h.used, h.excl, fun o ho => ?_, fun pid p v f hp hx hv =>
    .inl (h.mapped pid p v f hp hx hv)⟩
  obtain ⟨g, hg, hobj⟩ := ho
  exact absurd hobj (h.handles g hg o)

theorem Inv.run (h : k.Inv) {cs : List (Nat × Call)} (hc : k.CarefulRun cs) : (k.run cs).Inv := by
  induction cs generalizing k with
  | nil => exact h
  | cons c cs ih => exact ih (h.step hc.1) hc.2

theorem CarefulRun.take {cs : List (Nat × Call)} (h : k.CarefulRun cs) (n : Nat) :
    k.CarefulRun (cs.take n) := by
  induction cs generalizing k n with
  | nil => simpa using h
  | cons c cs ih =>
    cases n with
    | zero => exact trivial
    | succ n => exact ⟨h.1, ih h.2 n⟩

/-- From boot, in every run of careful calls, no free frame is mapped in a
live process, in any of its states. -/
theorem careful_run_noFreeMapped {k : KState} (hb : k.Boot) {cs : List (Nat × Call)}
    (hc : k.CarefulRun cs) (n : Nat) : (k.run (cs.take n)).NoFreeMapped :=
  (hb.inv.run (hc.take n)).noFreeMapped

theorem step_handleClose_last (hd : Handle) {i o : Nat} {p : Process} {t : HandleTable}
    (hp : k.procs[pid]? = some p) (hx : p.exited = false) (ht : p.handles.take i = .ok (hd, t))
    (ho : hd.object = .memory o)
    (hn : ¬ (k.setProc pid { p with handles := t }).Referenced (.memory o)) :
    k.step pid (.handleClose i) = (k.setProc pid { p with handles := t }).dropMemory o := by
  have hmem : hd.object ∉
      ((k.setProc pid { p with handles := t }).handles ++ []).map Handle.object := by
    rw [ho, List.append_nil, List.mem_map]
    exact hn
  rw [step_eq hp (by simp [enabled, hx])]
  simp only [call, sysHandleClose, ht]
  rw [dropAll, if_neg hmem]
  simp only [ho]
  rw [dropAll]

/-- Sixteen frames, the first reserved and the second the root of the only
process. -/
def sampleBoot : KState :=
  { alloc := { capacity := 16, used := fun f => f < 2, usable := fun f => 0 < f, hint := 0 },
    procs := [{
      handles := [], shmPages := 0, deviceNext := userDeviceRegion / pageSize,
      space := { root := 1, pages := fun _ => none, tables := [], frames := [] },
      exited := false, reaped := false }],
    chans := [], mems := [] }

def bootProcess (root : Frame) (g : Handle) : Process :=
  { handles := [some g], shmPages := 0, deviceNext := userDeviceRegion / pageSize,
    space := { root, pages := fun _ => none, tables := [], frames := [] },
    exited := false, reaped := false }

/-- Two processes that share a channel. -/
def sharedBoot : KState :=
  { alloc := { capacity := 16, used := fun f => f < 3, usable := fun f => 0 < f, hint := 0 },
    procs := [bootProcess 1 { object := .channel 0 false, rights := rightsChannelDefault },
      bootProcess 2 { object := .channel 0 true, rights := rightsChannelDefault }],
    chans := [{ queue := fun _ => [], closed := fun _ => false }], mems := [] }

theorem sharedBoot_boot : sharedBoot.Boot := by
  have hproc : ∀ (i : Nat) (p : Process), sharedBoot.procs[i]? = some p →
      i < 2 ∧ ∃ g, p = bootProcess (i + 1) g := by
    intro i p hp
    match i with
    | 0 | 1 =>
      cases hp
      exact ⟨by decide, _, rfl⟩
    | i + 2 => cases hp
  have howns : ∀ w f, sharedBoot.Owns w f → f < 3 ∧ w = .proc (f - 1) := by
    intro w f ho
    cases w with
    | proc i =>
      obtain ⟨p, hp, _, hf⟩ := ho
      obtain ⟨hi, g, rfl⟩ := hproc i p hp
      obtain rfl : f = i + 1 := hf.resolve_left not_mem_nil
      exact ⟨Nat.succ_lt_succ hi, rfl⟩
    | mem o =>
      obtain ⟨m, hm, _⟩ := ho
      cases hm
  refine ⟨rfl, fun g hg o => ?_, fun w f ho => decide_eq_true (howns w f ho).1,
    fun w w' f ho ho' => (howns w f ho).2.trans (howns w' f ho').2.symm, fun i p v f hp _ hv => ?_⟩
  · rcases mem_cons.1 hg with rfl | hg
    · nofun
    · cases mem_singleton.1 hg
      nofun
  · obtain ⟨-, g, rfl⟩ := hproc i p hp
    cases hv

/-- Process `0` creates a page, maps it and sends a copy of the handle; process `1` maps
it too. Then `0` closes its handle, and unmaps the page later. -/
def sampleCalls : List (Nat × Call) :=
  [(0, .memoryCreate 1), (0, .memoryMap 1), (0, .handleDuplicate 1 rightsMemoryDefault),
    (0, .channelSend 0 [] [2] false), (1, .channelRecv 0 0 1 false), (1, .memoryMap 1),
    (0, .handleClose 1), (0, .memoryUnmap userDeviceRegion pageSize)]

/-- A call that leaves a handle of object `0`, the only one, is careful. -/
theorem careful_of_slot (j s : Nat) (hm : k.mems.length ≤ 1)
    (hs : (k.tableOf j).bind (·[s]?) = some (some ⟨.memory 0, rightsMemoryDefault⟩))
    (hj : j = pid → ¬ c.takes s) : k.Careful pid c := by
  obtain ⟨t, ht, hs⟩ := Option.bind_eq_some_iff.1 hs
  refine .inr fun i p o m _ _ _ ho _ => ⟨j, s, _, ⟨t, ht, hs⟩, hj, .inl ?_⟩
  have hlt := (List.getElem?_eq_some_iff.mp ho).1
  obtain rfl : o = 0 := by omega
  rfl

theorem sampleCalls_careful : sharedBoot.CarefulRun sampleCalls := by
  refine ⟨.inr fun i p o m _ _ _ hm => (by cases hm), .inl fun _ _ => trivial,
    careful_of_slot 0 1 ?_ ?_ ?_, careful_of_slot 0 1 ?_ ?_ ?_, careful_of_slot 0 1 ?_ ?_ ?_, .inl fun _ _ => trivial,
    careful_of_slot 1 1 ?_ ?_ ?_, .inl fun _ _ => trivial, trivial⟩
  all_goals first | decide +kernel | simp [Call.takes]

theorem sampleCalls_noFreeMapped : sharedBoot.Boot ∧ sharedBoot.CarefulRun sampleCalls ∧
      ∀ n, (sharedBoot.run (sampleCalls.take n)).NoFreeMapped :=
  ⟨sharedBoot_boot, sampleCalls_careful,
    careful_run_noFreeMapped sharedBoot_boot sampleCalls_careful⟩

/-- The kernel with one page of a memory object mapped, and its process. -/
def sampleMapped : KState := sampleBoot.run [(0, .memoryCreate 1), (0, .memoryMap 0)]

def sampleProcess : Process := sampleMapped.procs.get ⟨0, by decide +kernel⟩

/-- Create, map, close: the object goes with its last handle, and the page
still points at its frame. -/
theorem close_frees_mapped_frame :
    ¬ (sampleBoot.run [(0, .memoryCreate 1), (0, .memoryMap 0), (0, .handleClose 0)]).NoFreeMapped := by
  intro h
  have hrun : sampleMapped.step 0 (.handleClose 0)
      = (sampleMapped.setProc 0 { sampleProcess with handles := [none] }).dropMemory 0 :=
    step_handleClose_last { object := .memory 0, rights := rightsMemoryDefault }
      (List.getElem?_eq_getElem _) (by decide +kernel) (by decide +kernel) rfl (by decide +kernel)
  change (sampleMapped.step 0 (.handleClose 0)).NoFreeMapped at h
  rw [hrun] at h
  generalize hk : (sampleMapped.setProc 0 { sampleProcess with handles := [none] }).dropMemory 0 = k
    at h
  have hview : k.procs[0]?.map (fun p => (p.exited, p.space.pages (userDeviceRegion / pageSize)))
      = some (false, some 2) := by
    rw [← hk]
    decide +kernel
  have hfree : k.alloc.isFree 2 = true := by
    rw [← hk]
    decide +kernel
  obtain ⟨p, hp, he⟩ := Option.map_eq_some_iff.mp hview
  obtain ⟨hx, hv⟩ := Prod.mk.inj he
  exact absurd (h 0 p _ 2 hp hx hv) (by simp [hfree])

end KState
end NexoOS.Kernel
