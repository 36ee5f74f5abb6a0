import NexoOS.Kernel.Capability

/-!
# Handles in transit

`channel_send` and `process_spawn` take the handles they are to move out of the
caller's table before they know that they can deliver them, and `channel_recv`
takes the message out of the queue before it knows that the caller has room for
it. Each of the calls is clean when it fails before that point. Afterwards a
failure drops what is in the hands of the kernel.
-/

namespace NexoOS.Kernel

open Function HandleTable List Option

namespace KState

variable {k k' : KState} {pid : Nat} {p : Process}

/-! ## What dropping leaves -/

theorem tableOf_sendMessage (c : Nat) (side : Bool) (msg : Message) :
    (k.sendMessage c side msg).1.tableOf pid = k.tableOf pid := by
  unfold sendMessage
  split
  · exact (released_dropAll k _).tableOf pid
  split
  · exact (released_dropAll k _).tableOf pid
  split
  · exact (released_dropAll k _).tableOf pid
  · rfl

/-- No queue has become longer. -/
def Drained (k k' : KState) : Prop :=
  ∀ (c : Nat) (ch' : Channel), k'.chans[c]? = some ch' → ∃ ch : Channel, k.chans[c]? = some ch ∧
    ∀ side, (ch'.queue side).length ≤ (ch.queue side).length

theorem Drained.refl (k : KState) : Drained k k :=
  fun _ ch hch => ⟨ch, hch, fun _ => Nat.le_refl _⟩

theorem Drained.trans {k₁ k₂ k₃ : KState} (h : Drained k₁ k₂) (h' : Drained k₂ k₃) :
    Drained k₁ k₃ := by
  intro c ch hch
  obtain ⟨ch₂, hch₂, hle⟩ := h' c ch hch
  obtain ⟨ch₁, hch₁, hle'⟩ := h c ch₂ hch₂
  exact ⟨ch₁, hch₁, fun side => Nat.le_trans (hle side) (hle' side)⟩

theorem dropping_drained : Dropping Drained where
  refl := .refl
  trans := .trans
  memory {k o} _ := by
    have hchans : (k.dropMemory o).chans = k.chans := by
      unfold dropMemory
      split <;> rfl
    exact fun c ch hch => ⟨ch, hchans ▸ hch, fun _ => Nat.le_refl _⟩
  channel {k c ch} side hch := by
    intro d ch' hch'
    by_cases hd : d = c
    · subst hd
      obtain ⟨hlt, -⟩ := List.getElem?_eq_some_iff.1 hch
      obtain rfl : _ = ch' := by simpa [setChan, hlt] using hch'
      refine ⟨ch, hch, fun s => ?_⟩
      by_cases hs : s = side
      · subst hs
        simp
      · simp [hs]
    · exact ⟨ch', by simpa [setChan, getElem?_set_ne (Ne.symm hd)] using hch',
        fun _ => Nat.le_refl _⟩

/-! ## Taking handles out of a table -/

theorem takeAll_spec {t : HandleTable} {ids : List Nat} (hnodup : ids.Nodup)
    (hget : ∀ id ∈ ids, ∃ h, t.get id = .ok h) :
    ∃ moved t', takeAll t ids = .ok (moved, t') ∧ (∀ id ∈ ids, t'[id]? = some none) ∧
      ∀ id : Nat, t[id]? = some none → t'[id]? = some none := by
  induction ids generalizing t with
  | nil => exact ⟨[], t, rfl, nofun, fun _ h => h⟩
  | cons id ids ih =>
    obtain ⟨hnot, hnodup⟩ := nodup_cons.1 hnodup
    obtain ⟨hd, hhd⟩ := hget id mem_cons_self
    have hlt : id < t.length := by
      unfold HandleTable.get at hhd
      split at hhd
      · exact (List.getElem?_eq_some_iff.1 ‹_›).1
      · cases hhd
    have hrest : ∀ id' ∈ ids, ∃ h, get (t.set id none) id' = .ok h := by
      intro id' hid'
      obtain ⟨h, hh⟩ := hget id' (mem_cons_of_mem id hid')
      have hne : id ≠ id' := fun heq => hnot (heq ▸ hid')
      exact ⟨h, by simpa only [HandleTable.get, List.getElem?_set_ne hne] using hh⟩
    obtain ⟨moved, t', htake, hholes, hkeep⟩ := ih hnodup hrest
    refine ⟨hd :: moved, t', ?_, ?_, fun id' hid' => hkeep id' ?_⟩
    · simp only [takeAll, HandleTable.take, hhd, htake]
    · intro id' hid'
      rcases mem_cons.1 hid' with rfl | hid'
      · exact hkeep id' (by simp [hlt])
      · exact hholes id' hid'
    · by_cases hne : id = id'
      · subst hne
        simp [hlt]
      · rw [getElem?_set_ne hne]
        exact hid'

end KState

namespace Caps
open KState

theorem spawnable_spec {t : HandleTable} {seen ids : List Nat} (hs : spawnable t seen ids = none) :
    ids.Nodup ∧ (∀ id ∈ ids, id ∉ seen) ∧ ∀ id ∈ ids, ∃ hd, t.get id = .ok hd := by
  induction ids generalizing seen with
  | nil => exact ⟨.nil, nofun, nofun⟩
  | cons id ids ih =>
    unfold spawnable at hs
    split at hs
    · cases hs
    rename_i hfresh
    split at hs
    · cases hs
    rename_i hd hget
    split at hs
    · cases hs
    obtain ⟨hnodup, hseen, hall⟩ := ih hs
    refine ⟨nodup_cons.2 ⟨fun hmem => ?_, hnodup⟩, ?_, ?_⟩
    · exact hseen id hmem (mem_append_right _ (mem_singleton_self id))
    · intro id' hid'
      rcases mem_cons.1 hid' with rfl | hid'
      · exact hfresh
      · exact fun hmem => hseen id' hid' (mem_append_left _ hmem)
    · intro id' hid'
      rcases mem_cons.1 hid' with rfl | hid'
      · exact ⟨hd, hget⟩
      · exact hall id' hid'

theorem spawnable_of_sendable {t : HandleTable} {c h : Nat} {seen ids : List Nat}
    (hs : sendable t c h seen ids = none) : spawnable t seen ids = none := by
  induction ids generalizing seen with
  | nil => rfl
  | cons id ids ih =>
    unfold sendable at hs
    split at hs
    · cases hs
    rename_i hfresh
    split at hs
    · cases hs
    rename_i hd hget
    unfold spawnable
    rw [if_neg fun hmem => hfresh (.inr hmem)]
    simp only [hget]
    split at hs
    · cases hs
    rename_i htransfer
    rw [if_neg htransfer]
    split at hs
    · cases hs
    · exact ih hs

end Caps

/-! ## Calls that move handles -/

/-- The call moves these handles. -/
def CapCall.moves : CapCall → Option (List Nat)
  | .sys (.channelSend _ _ ids _) => some ids
  | .processSpawn a _ => some a.ids
  | _ => none

/-- Why the call is refused before it takes the handles. -/
def CapCall.refusal (p : Process) : CapCall → Option Status
  | .sys (.channelSend h data ids fault) =>
    if data.length > msgMax ∨ ids.length > msgHandlesMax then some .tooBig
    else
      match p.handles.get h with
      | .error e => some e
      | .ok hd =>
        if ¬ hd.contains rightWrite then some .denied
        else
          match hd.object with
          | .channel c _ =>
            if fault then some .badAddress else KState.sendable p.handles c h [] ids
          | _ => some .invalidArgs
  | .processSpawn a _ =>
    if a.program.tooBig ∨ a.ids.length > msgHandlesMax then some .tooBig
    else if a.programFault then some .badAddress
    else if ¬ a.program.readable then some .invalidArgs
    else if a.idsFault then some .badAddress
    else Caps.spawnable p.handles [] a.ids
  | _ => none

namespace Caps
open KState

variable {s : Caps} {pid : Nat} {p : Process} {ids : List Nat}

/-- The caller's table is as before, and no end that was to be moved was closed. -/
structure Untouched (s s' : Caps) (pid : Nat) (p : Process) (ids : List Nat) : Prop where
  table : s'.kernel.tableOf pid = s.kernel.tableOf pid
  ends : ∀ id ∈ ids, ∀ hd c side, p.handles.get id = .ok hd → hd.object = .channel c side →
    s'.kernel.chans[c]?.map (·.closed side) = s.kernel.chans[c]?.map (·.closed side)

theorem Untouched.refl (s : Caps) (pid : Nat) (p : Process) (ids : List Nat) :
    Untouched s s pid p ids :=
  ⟨rfl, fun _ _ _ _ _ _ _ => rfl⟩

/-- A table with the taken handles gone is another one, unless none were taken. -/
theorem untouched_iff {s' : Caps} {t : HandleTable} (hp : s.kernel.procs[pid]? = some p)
    (hget : ∀ id ∈ ids, ∃ h, p.handles.get id = .ok h) (hholes : ∀ id ∈ ids, t[id]? = some none)
    (hnil : ids = [] → t = p.handles) (htable : s'.kernel.tableOf pid = some t) :
    Untouched s s' pid p ids ↔ ids = [] := by
  have hold : s.kernel.tableOf pid = some p.handles := by simp [tableOf, hp]
  constructor
  · intro h
    rcases ids with _ | ⟨id, ids⟩
    · rfl
    have heq : t = p.handles := by
      have := h.table
      rw [htable, hold] at this
      exact some.inj this
    obtain ⟨hd, hhd⟩ := hget id mem_cons_self
    have hhole := hholes id mem_cons_self
    rw [heq] at hhole
    simp only [HandleTable.get, hhole] at hhd
    cases hhd
  · intro h
    subst h
    refine ⟨?_, by simp⟩
    rw [htable, hold, hnil rfl]

theorem send_failed {h : Nat} {data : List UInt8} {fault : Bool}
    (hp : s.kernel.procs[pid]? = some p)
    (hgo : CapCall.refusal p (.sys (.channelSend h data ids fault)) = none)
    (he : (s.call pid p (.sys (.channelSend h data ids fault))).2.1 ≠ .ok) :
    Untouched s (s.call pid p (.sys (.channelSend h data ids fault))).1 pid p ids ↔
      ids = [] := by
  simp only [CapCall.refusal] at hgo
  simp only [Caps.call, KState.call, sysChannelSend] at he ⊢
  split at hgo
  · cases hgo
  rename_i hsize
  simp only [if_neg hsize] at he ⊢
  split at hgo
  · cases hgo
  rename_i hd hhd
  simp only [hhd] at he ⊢
  split at hgo
  · cases hgo
  rename_i hwrite
  simp only [if_neg hwrite] at he ⊢
  split at hgo
  · rename_i c side hobj
    split at hgo
    · cases hgo
    rename_i hfault
    obtain ⟨hnodup, -, hget⟩ := spawnable_spec (spawnable_of_sendable hgo)
    obtain ⟨moved, t, htake, hholes, -⟩ := takeAll_spec hnodup hget
    simp only [hobj, if_neg hfault, hgo, htake] at he ⊢
    refine untouched_iff (t := t) hp hget hholes ?_ ?_
    · rintro rfl
      exact (Prod.mk.inj (Except.ok.inj htake)).2.symm
    -- whether the message is queued or dropped, the table stays as it is
    have hset := tableOf_setProc hp { p with handles := t }
    rw [← tableOf_sendMessage c side { data, handles := moved }] at hset
    split at he
    · exact absurd rfl he
    · rename_i k e heq
      simpa only [heq] using hset
  · cases hgo

theorem spawn_failed {a : SpawnArgs} {image : Option Image} (hp : s.kernel.procs[pid]? = some p)
    (hgo : CapCall.refusal p (.processSpawn a image) = none)
    (he : (s.call pid p (.processSpawn a image)).2.1 ≠ .ok) :
    Untouched s (s.call pid p (.processSpawn a image)).1 pid p a.ids ↔ a.ids = [] := by
  simp only [CapCall.refusal] at hgo
  simp only [Caps.call, sysProcessSpawn] at he ⊢
  split at hgo
  · cases hgo
  rename_i hsize
  split at hgo
  · cases hgo
  rename_i hprogram
  split at hgo
  · cases hgo
  rename_i hname
  split at hgo
  · cases hgo
  rename_i hfault
  obtain ⟨hnodup, -, hget⟩ := spawnable_spec hgo
  obtain ⟨moved, t, htake, hholes, -⟩ := takeAll_spec hnodup hget
  simp only [if_neg hsize, if_neg hprogram, if_neg hname, if_neg hfault, hgo, htake] at he ⊢
  refine untouched_iff (t := t) hp hget hholes ?_ ?_
  · intro hnil
    rw [hnil] at htake
    exact (Prod.mk.inj (Except.ok.inj htake)).2.symm
  have hset := tableOf_setProc hp { p with handles := t }
  have hdrop := fun hs => (released_dropAll (s.kernel.setProc pid { p with handles := t }) hs)
  split at he
  · simp only
    exact ((hdrop moved).tableOf pid).trans hset
  split at he
  · simp only
    exact ((hdrop moved).tableOf pid).trans hset
  -- the child is there, and only its handle is lost
  simp only [insertHandle] at he ⊢
  split at he
  · exact absurd rfl he
  simp only
  refine ((released_dropAll _ _).tableOf pid).trans (.trans ?_ hset)
  obtain ⟨hlt, -⟩ := List.getElem?_eq_some_iff.1 hp
  simp [tableOf, setProc, getElem?_append, hlt]

theorem refused_unchanged {c : CapCall} (hc : (c.refusal p).isSome) : (s.call pid p c).1 = s := by
  obtain ⟨e, hc⟩ := isSome_iff_exists.1 hc
  unfold CapCall.refusal at hc
  split at hc
  · simp only [Caps.call, KState.call, sysChannelSend]
    split at hc
    · simp [*]
    split at hc
    · simp [*]
    split at hc
    · simp [*]
    split at hc
    · split at hc <;> simp [*]
    · simp [*]
  · simp only [Caps.call, sysProcessSpawn]
    split at hc
    · simp [*]
    split at hc
    · simp [*]
    split at hc
    · simp [*]
    split at hc <;> simp [*]
  · cases hc

/-- A call that moves handles and fails leaves the caller's table and the ends
it named as they were exactly when it moves none, or is refused before it takes
them out of the table. -/
theorem failed_transfer_untouched_iff (s : Caps) (pid : Nat) (p : Process)
    (hp : s.kernel.procs[pid]? = some p) (c : CapCall) (ids : List Nat) (hc : c.moves = some ids)
    (he : (s.call pid p c).2.1 ≠ .ok) :
    Untouched s (s.call pid p c).1 pid p ids ↔ ids = [] ∨ (c.refusal p).isSome := by
  cases hgo : c.refusal p with
  | some e =>
    rw [refused_unchanged (by simp [hgo])]
    simp [Untouched.refl]
  | none =>
    simp only [isSome_none, Bool.false_eq_true, or_false]
    unfold CapCall.moves at hc
    split at hc
    · cases hc
      exact send_failed hp hgo he
    · cases hc
      exact spawn_failed hp hgo he
    · cases hc

/-- A process with an end of each of two channels. The peer of the first is
closed. -/
def halfClosedProcess : Process :=
  { handles := [some { object := .channel 0 false, rights := rightsChannelDefault },
      some { object := .channel 1 false, rights := rightsChannelDefault }],
    shmPages := 0, deviceNext := userDeviceRegion / pageSize,
    space := { root := 1, pages := fun _ => none, tables := [], frames := [] },
    exited := false, reaped := false }

def halfClosed : Caps :=
  { kernel := {
      alloc := { capacity := 16, used := fun f => f < 2, usable := fun f => 0 < f, hint := 0 },
      procs := [halfClosedProcess],
      chans := [{ queue := fun _ => [], closed := fun side => side },
        { queue := fun _ => [], closed := fun _ => false }],
      mems := [] },
    jobs := 0 }

theorem failed_transfer_untouched_iff_badHandle :
    Untouched halfClosed (halfClosed.call 0 halfClosedProcess (.sys (.channelSend 0 [] [1, 7] false))).1
      0 halfClosedProcess [1, 7] :=
  (failed_transfer_untouched_iff halfClosed 0 halfClosedProcess rfl
    (.sys (.channelSend 0 [] [1, 7] false)) [1, 7] rfl (by decide)).2 (.inr (by decide))

/-- The end sent to a closed peer is gone from the table of the sender, and
closed. -/
theorem send_to_closed_peer_loses_handle :
    (halfClosed.call 0 halfClosedProcess (.sys (.channelSend 0 [] [1] false))).2.1 = .peerClosed ∧
      ¬ Untouched halfClosed (halfClosed.call 0 halfClosedProcess (.sys (.channelSend 0 [] [1] false))).1
        0 halfClosedProcess [1] := by
  constructor
  · decide
  intro h
  have hends := h.ends 1 (by decide) _ 1 false rfl rfl
  have hstate : (halfClosed.call 0 halfClosedProcess (.sys (.channelSend 0 [] [1] false))).1.kernel
      = (halfClosed.kernel.setProc 0 { halfClosedProcess with
          handles := halfClosedProcess.handles.set 1 none }).dropAll
        [{ object := .channel 1 false, rights := rightsChannelDefault }] := rfl
  rw [hstate, dropAll, if_neg (by decide)] at hends
  simp only at hends
  rw [show KState.closeEnd _ 1 false = (_, []) from rfl, nil_append, dropAll] at hends
  exact absurd hends (by decide)

end Caps

/-! ## Receiving -/

/-- What the two buffers of a receiver do: both are checked for writing before
the call looks at the channel, and each copy can fault later all the same. -/
structure RecvBuffers where
  writable : Bool
  bytesFault : Bool
  idsFault : Bool

namespace KState

variable {k : KState} {pid : Nat} {p : Process} {h cap hcap : Nat} {b : RecvBuffers}

/-- `channel_recv` with the caller's buffers. The identifiers are copied when
the handles are in the table. -/
def channelRecv (k : KState) (pid : Nat) (p : Process) (h cap hcap : Nat) (b : RecvBuffers) :
    Outcome :=
  match p.handles.get h with
  | .error e => (k, e, 0)
  | .ok hd =>
    if ¬ hd.contains rightRead then (k, .denied, 0)
    else if ¬ b.writable then (k, .badAddress, 0)
    else
      match k.sysChannelRecv pid p h cap hcap b.bytesFault with
      | (k, .ok, v) => if b.idsFault then (k, .badAddress, 0) else (k, .ok, v)
      | r => r

/-- The message the call takes out of its queue. -/
def takenMessage (k : KState) (p : Process) (h : Nat) (b : RecvBuffers) : Option Message :=
  match p.handles.get h with
  | .error _ => none
  | .ok hd =>
    if hd.contains rightRead ∧ b.writable then
      match hd.object with
      | .channel c side => (k.chans[c]?).bind fun ch => (ch.queue side).head?
      | _ => none
    else none

/-- The buffers and the table have room for the message, and no copy faults. -/
def Fits (p : Process) (cap hcap : Nat) (b : RecvBuffers) (msg : Message) : Prop :=
  msg.data.length ≤ cap ∧ msg.handles.length ≤ hcap ∧ b.bytesFault = false ∧ b.idsFault = false ∧
    ∃ t, Caps.fillTable p.handles msg.handles = .ok t

/-- Either the message is out of its queue, its length was returned and all its
handles are in the table, or the call failed and nothing changed. -/
inductive AllOrNothing (k : KState) (pid : Nat) (p : Process) (h : Nat) (r : Outcome) : Prop
  | all {hd : Handle} {c : Nat} {side : Bool} {ch : Channel} {msg : Message}
      {rest : List Message} {t : HandleTable}
      (hget : p.handles.get h = .ok hd) (hobj : hd.object = .channel c side)
      (hch : k.chans[c]? = some ch) (hq : ch.queue side = msg :: rest)
      (ht : Caps.fillTable p.handles msg.handles = .ok t)
      (hr : r = ((k.setChan c { ch with queue := update ch.queue side rest }).setProc pid
        { p with handles := t }, .ok, msg.data.length + msg.handles.length * 2 ^ 32))
  | nothing (hst : r.2.1 ≠ .ok) (hk : r.1 = k)

theorem insertAll_ok {hs : List Handle} {t : HandleTable}
    (ht : Caps.fillTable p.handles hs = .ok t) :
    k.insertAll pid p hs = (k.setProc pid { p with handles := t }, .ok) := by
  induction hs generalizing p with
  | nil =>
    cases ht
    rfl
  | cons hd hs ih =>
    unfold Caps.fillTable at ht
    split at ht
    · rename_i hins
      unfold insertAll
      rw [hins]
      exact ih ht
    · cases ht

theorem insertAll_error {hs : List Handle} (ht : ∀ t, Caps.fillTable p.handles hs ≠ .ok t) :
    (k.insertAll pid p hs).2 ≠ .ok := by
  induction hs generalizing p with
  | nil => exact absurd rfl (ht p.handles)
  | cons hd hs ih =>
    unfold Caps.fillTable at ht
    unfold insertAll
    split
    · simp only [*] at ht
      exact ih ht
    rename_i e heq
    rintro rfl
    unfold HandleTable.insert at heq
    split at heq
    · cases heq
    · split at heq <;> nomatch heq

theorem drained_insertAll (k : KState) (pid : Nat) (p : Process) (hs : List Handle) :
    Drained k (k.insertAll pid p hs).1 := by
  induction hs generalizing p with
  | nil => exact .refl k
  | cons hd hs ih =>
    unfold insertAll
    split
    · exact ih _
    · exact dropping_drained.dropAll (k.setProc pid p) _

/-- What the call does with a message it has taken. -/
def deliver (k : KState) (pid : Nat) (p : Process) (cap hcap : Nat) (b : RecvBuffers)
    (msg : Message) : Outcome :=
  if msg.data.length > cap ∨ msg.handles.length > hcap then
    (k.dropAll msg.handles, .tooBig, msg.data.length + msg.handles.length * 2 ^ 32)
  else if b.bytesFault then (k.dropAll msg.handles, .badAddress, 0)
  else
    match k.insertAll pid p msg.handles with
    | (k, .ok) =>
      if b.idsFault then (k, .badAddress, 0)
      else (k, .ok, msg.data.length + msg.handles.length * 2 ^ 32)
    | (k, e) => (k, e, 0)

variable {msg : Message}

theorem deliver_fits {t : HandleTable} (hf : Fits p cap hcap b msg)
    (ht : Caps.fillTable p.handles msg.handles = .ok t) :
    k.deliver pid p cap hcap b msg = (k.setProc pid { p with handles := t }, .ok,
      msg.data.length + msg.handles.length * 2 ^ 32) := by
  obtain ⟨hcap, hhcap, hbytes, hids, -⟩ := hf
  have hsize : ¬ (msg.data.length > cap ∨ msg.handles.length > _) :=
    fun h => h.elim (fun h => by omega) fun h => absurd hhcap (Nat.not_le.2 h)
  simp [deliver, hsize, hbytes, hids, insertAll_ok ht]

theorem deliver_status (hf : ¬ Fits p cap hcap b msg) :
    (k.deliver pid p cap hcap b msg).2.1 ≠ .ok := by
  unfold deliver
  split
  · nofun
  rename_i hsize
  split
  · nofun
  rename_i hbytes
  split
  · rename_i k' hins
    split
    · nofun
    rename_i hids
    have hfull : ∀ t, Caps.fillTable p.handles msg.handles ≠ .ok t := fun t ht =>
      hf ⟨by omega, by omega, by simpa using hbytes, by simpa using hids, t, ht⟩
    exact absurd (congrArg Prod.snd hins) (insertAll_error hfull)
  · rename_i hne _
    exact hne

theorem drained_deliver (k : KState) (pid : Nat) (p : Process) (cap hcap : Nat) (b : RecvBuffers)
    (msg : Message) : Drained k (k.deliver pid p cap hcap b msg).1 := by
  have hins := drained_insertAll k pid p msg.handles
  unfold deliver
  split
  · exact dropping_drained.dropAll k _
  split
  · exact dropping_drained.dropAll k _
  split
  · rename_i heq
    rw [heq] at hins
    split <;> exact hins
  · rename_i heq
    rwa [heq] at hins

theorem get_error {t : HandleTable} {i : Nat} {e : Status} (he : t.get i = .error e) :
    e = .badHandle := by
  unfold HandleTable.get at he
  split at he
  · cases he
  · exact (Except.error.inj he).symm

theorem channelRecv_none (pid cap hcap : Nat) (hm : k.takenMessage p h b = none) :
    (k.channelRecv pid p h cap hcap b).2.1 ≠ .ok ∧ (k.channelRecv pid p h cap hcap b).1 = k := by
  unfold takenMessage at hm
  unfold channelRecv
  split at hm
  · rename_i e hget
    simp [get_error hget]
  rename_i hd hget
  split at hm
  · rename_i hgo
    simp only [hgo.1, hgo.2, not_true, if_false, sysChannelRecv, hget]
    cases hobj : hd.object with
    | channel c side =>
      rw [hobj] at hm
      dsimp only at hm ⊢
      cases hch : k.chans[c]? with
      | none => simp
      | some ch =>
        have hq : ch.queue side = [] := by simpa [hch] using hm
        simp only [hq]
        cases ch.closed !side <;> simp
    | _ => simp
  · rename_i hgo
    split
    · simp
    split
    · simp
    · exact absurd ⟨by simpa using ‹¬ ¬ _›, by simpa using ‹¬ ¬ _›⟩ hgo

theorem channelRecv_some (pid cap hcap : Nat) (hm : k.takenMessage p h b = some msg) :
    ∃ hd c side ch rest, p.handles.get h = .ok hd ∧ hd.object = .channel c side ∧
      k.chans[c]? = some ch ∧ ch.queue side = msg :: rest ∧ k.channelRecv pid p h cap hcap b =
        (k.setChan c { ch with queue := update ch.queue side rest }).deliver pid p cap hcap
          b msg := by
  unfold takenMessage at hm
  split at hm
  · cases hm
  rename_i hd hget
  split at hm
  · rename_i hgo
    split at hm
    · rename_i c side hobj
      obtain ⟨ch, hch, hhead⟩ := bind_eq_some_iff.1 hm
      obtain ⟨rest, hq⟩ := head?_eq_some_iff.1 hhead
      refine ⟨hd, c, side, ch, rest, hget, hobj, hch, hq, ?_⟩
      simp only [channelRecv, hget, hgo.1, hgo.2, not_true, if_false, sysChannelRecv, hobj, hch,
        hq, deliver]
      by_cases hsize : msg.data.length > cap ∨ msg.handles.length > hcap
      · simp only [if_pos hsize]
      by_cases hbytes : b.bytesFault = true
      · simp only [if_neg hsize, if_pos hbytes]
      simp only [if_neg hsize, if_neg hbytes]
      obtain ⟨k', st⟩ := KState.insertAll _ pid p msg.handles
      cases st <;> rfl
    · cases hm
  · cases hm

/-- A message that is taken and does not fit is lost. -/
theorem not_allOrNothing (hm : k.takenMessage p h b = some msg) (hf : ¬ Fits p cap hcap b msg) :
    ¬ AllOrNothing k pid p h (k.channelRecv pid p h cap hcap b) := by
  obtain ⟨hd, c, side, ch, rest, -, -, hch, hq, hr⟩ := channelRecv_some pid cap hcap hm
  intro hall
  cases hall with
  | all _ _ _ _ _ hok =>
    rw [hr] at hok
    exact deliver_status hf (congrArg (fun r : Outcome => r.2.1) hok)
  | nothing _ hk =>
    -- the message is gone from its queue, whatever happened to it
    obtain ⟨hlt, -⟩ := List.getElem?_eq_some_iff.1 hch
    have hdr := drained_deliver (k.setChan c
      { ch with queue := update ch.queue side rest }) pid p cap hcap b msg
    rw [← hr, hk] at hdr
    obtain ⟨ch', hch', hle⟩ := hdr c ch hch
    obtain rfl : _ = ch' := by simpa [setChan, hlt] using hch'
    have := hle side
    simp only [update_self, hq, length_cons] at this
    omega

/-- A receive is all or nothing exactly when the message it takes, if it takes
one, fits the buffers and the table. -/
theorem channelRecv_allOrNothing_iff (k : KState) (pid : Nat) (p : Process) (h cap hcap : Nat)
    (b : RecvBuffers) : AllOrNothing k pid p h (k.channelRecv pid p h cap hcap b) ↔
      ∀ msg, k.takenMessage p h b = some msg → Fits p cap hcap b msg := by
  rcases hm : k.takenMessage p h b with _ | msg
  · obtain ⟨hst, hk⟩ := channelRecv_none pid cap hcap hm
    simp [AllOrNothing.nothing hst hk]
  simp only [some.injEq, forall_eq']
  constructor
  case mpr =>
    intro hf
    obtain ⟨t, ht⟩ := hf.2.2.2.2
    obtain ⟨hd, c, side, ch, rest, hget, hobj, hch, hq, hr⟩ := channelRecv_some pid cap hcap hm
    exact .all hget hobj hch hq ht (hr.trans (deliver_fits hf ht))
  case mp =>
    intro hall
    by_contra hf
    exact not_allOrNothing hm hf hall

/-- A process whose table is full of handles to one end, where a message with a
handle waits. -/
def fullProcess : Process :=
  { Caps.halfClosedProcess with
    handles := replicate handlesMax
      (some { object := .channel 0 false, rights := rightsChannelDefault }) }

def waitingMessage : Message := { data := [], handles := [{ object := .job 0, rights := 0 }] }

def fullReceiver : KState :=
  { Caps.halfClosed.kernel with
    procs := [fullProcess]
    chans := [{ queue := fun _ => [waitingMessage], closed := fun _ => false }] }

/-- The receiver has the buffers for the message, and loses it. -/
theorem full_table_loses_message :
    (fullReceiver.channelRecv 0 fullProcess 0 0 1 ⟨true, false, false⟩).2.1 = .noMemory ∧
      ¬ AllOrNothing fullReceiver 0 fullProcess 0
        (fullReceiver.channelRecv 0 fullProcess 0 0 1 ⟨true, false, false⟩) := by
  have hget : fullProcess.handles.get 0
      = .ok { object := .channel 0 false, rights := rightsChannelDefault } := rfl
  have hfull : ∀ hd, fullProcess.handles.insert hd = .error .noMemory := by
    intro hd
    simp [fullProcess, HandleTable.insert]
  have hread : Handle.contains { object := .channel 0 false, rights := rightsChannelDefault }
      rightRead = true := by decide
  have hch : fullReceiver.chans[0]?
      = some { queue := fun _ => [waitingMessage], closed := fun _ => false } := rfl
  constructor
  · simp [channelRecv, sysChannelRecv, hget, hread, hch, waitingMessage, insertAll, hfull]
  have hm : fullReceiver.takenMessage fullProcess 0 ⟨true, false, false⟩
      = some waitingMessage := by
    simp [takenMessage, hget, hread, hch]
  refine not_allOrNothing hm ?_
  rintro ⟨-, -, -, -, t, ht⟩
  simp [waitingMessage, Caps.fillTable, hfull] at ht

end KState
end NexoOS.Kernel
