import NexoOS.Kernel.Capability
import NexoOS.Kernel.MemoryRun

/-!
# Rights never grow

What one call can do to the handles of the system is `Effect`; the invariant
of a run follows from it alone.
-/

namespace NexoOS.Kernel

open List Channel HandleTable

namespace KState

/-! ## Dropping handles -/

/-- Tables and queues lose handles, and no object number is given up. -/
structure Kept (k k' : KState) : Prop where
  tables : ∀ (i : Nat) (q' : Process), k'.procs[i]? = some q' →
    ∃ q, k.procs[i]? = some q ∧ ∀ h ∈ q'.handles.live, h ∈ q.handles.live
  queued : ∀ h ∈ k'.queueHandles, h ∈ k.queueHandles
  procs : k'.procs.length = k.procs.length
  chans : k'.chans.length = k.chans.length
  mems : k'.mems.length = k.mems.length

theorem Kept.refl (k : KState) : Kept k k :=
  ⟨fun _ q hq => ⟨q, hq, fun _ hg => hg⟩, fun _ hg => hg, rfl, rfl, rfl⟩

theorem Kept.trans {k₁ k₂ k₃ : KState} (h : Kept k₁ k₂) (h' : Kept k₂ k₃) : Kept k₁ k₃ := by
  refine ⟨fun i q hq => ?_, fun g hg => h.queued g (h'.queued g hg), h'.procs.trans h.procs,
    h'.chans.trans h.chans, h'.mems.trans h.mems⟩
  obtain ⟨q₂, hq₂, hsub₂⟩ := h'.tables i q hq
  obtain ⟨q₁, hq₁, hsub₁⟩ := h.tables i q₂ hq₂
  exact ⟨q₁, hq₁, fun g hg => hsub₁ g (hsub₂ g hg)⟩

theorem kept_dropMemory (k : KState) (o : Nat) : Kept k (k.dropMemory o) := by
  have hcore := dropMemory_procs k o
  refine ⟨fun i q' hq' => ?_, fun g hg => ?_, ?_, ?_, ?_⟩
  · obtain ⟨q, hq, he⟩ := getElem?_of_core hcore hq'
    have htable : q.handles = q'.handles := congrArg Prod.fst he
    exact ⟨q, hq, fun g hg => by rwa [htable]⟩
  · rwa [queueHandles_dropMemory] at hg
  · simpa using congrArg List.length hcore
  · unfold dropMemory
    split <;> rfl
  · unfold dropMemory
    split
    · exact length_set
    · rfl

variable {k : KState} {c : Nat} {ch : Channel}

theorem queueHandles_setChan {h : Handle} (hm : h ∈ (k.setChan c ch).queueHandles) :
    h ∈ ch.handles ∨ h ∈ k.queueHandles := by
  obtain ⟨d, hd, hh⟩ := mem_flatMap.1 hm
  rcases mem_or_eq_of_mem_set hd with hd | rfl
  · exact .inr (mem_flatMap.2 ⟨d, hd, hh⟩)
  · exact .inl hh

theorem mem_queueHandles {h : Handle} (hc : k.chans[c]? = some ch) (hm : h ∈ ch.handles) :
    h ∈ k.queueHandles :=
  mem_flatMap.2 ⟨ch, mem_of_getElem? hc, hm⟩

theorem kept_setChan (h : ∀ g ∈ ch.handles, g ∈ k.queueHandles) : Kept k (k.setChan c ch) := by
  refine ⟨(Kept.refl k).tables, fun g hg => ?_, rfl, length_set, rfl⟩
  rcases queueHandles_setChan hg with hg | hg
  · exact h g hg
  · exact hg

theorem dropping_kept : Dropping Kept where
  refl := .refl
  trans := .trans
  memory _ := kept_dropMemory _ _
  channel _ hch := kept_setChan fun _ hg => mem_queueHandles hch (handles_close hg)

theorem kept_dropAll (k : KState) (work : List Handle) : Kept k (k.dropAll work) :=
  dropping_kept.dropAll k work

end KState

namespace Caps
open KState

/-! ## What a call can do -/

/-- From `s` to `s'`: a handle in a table was there before, is a copy with no
more rights of one that was, or arrives as `src` says; a queued handle was in
a table or a queue. -/
structure Effect (s s' : Caps) (src : Nat → Handle → Prop) : Prop where
  known : ∀ x, s.Known x → s'.Known x
  tables : ∀ (i : Nat) (q' : Process), s'.kernel.procs[i]? = some q' → ∀ h ∈ q'.handles.live,
    (∃ q, s.kernel.procs[i]? = some q ∧ ∃ g ∈ q.handles.live, h.Under g) ∨ src i h
  queued : ∀ h ∈ s'.kernel.queueHandles, h ∈ s.kernel.handles

variable {s s' : Caps} {src : Nat → Handle → Prop} {pid : Nat} {p : Process}

theorem Known.mono {x : Object} (h : s.Known x)
    (hp : s.kernel.procs.length ≤ s'.kernel.procs.length)
    (hc : s.kernel.chans.length ≤ s'.kernel.chans.length)
    (hm : s.kernel.mems.length ≤ s'.kernel.mems.length) (hj : s.jobs ≤ s'.jobs) : s'.Known x := by
  cases x with
  | channel c side => exact lt_of_lt_of_le h hc
  | process i => exact lt_of_lt_of_le h hp
  | memory o => exact lt_of_lt_of_le h hm
  | job j => exact lt_of_lt_of_le h hj
  | device | thread | debug | event => trivial

theorem Effect.refl (s : Caps) (src : Nat → Handle → Prop) : Effect s s src :=
  ⟨fun _ h => h, fun _ q hq h hh => .inl ⟨q, hq, h, hh, .refl h⟩,
    fun _ hh => mem_append_right _ hh⟩

variable {k : KState} {jobs i : Nat} {q : Process} {h : Handle} {t : HandleTable} {s₀ : Caps}
  {log : List Gift}

/-- Dropping handles afterwards. -/
theorem Effect.kept {k' : KState} (h : Effect s { kernel := k, jobs := jobs } src)
    (hk : Kept k k') : Effect s { kernel := k', jobs := jobs } src := by
  refine ⟨fun x hx => ?_, fun i q' hq' g hg => ?_, fun g hg => h.queued g (hk.queued g hg)⟩
  · exact (h.known x hx).mono (le_of_eq hk.procs.symm) (le_of_eq hk.chans.symm)
      (le_of_eq hk.mems.symm) (le_refl _)
  · obtain ⟨q, hq, hsub⟩ := hk.tables i q' hq'
    exact h.tables i q hq g (hsub g hg)

/-- Beside the tables: a queued handle was held or queued before, and no
object number is given up. -/
structure Grown (s s' : Caps) : Prop where
  queued : ∀ h ∈ s'.kernel.queueHandles, h ∈ s.kernel.handles
  chans : s.kernel.chans.length ≤ s'.kernel.chans.length
  mems : s.kernel.mems.length ≤ s'.kernel.mems.length
  jobs : s.jobs ≤ s'.jobs

theorem Grown.of_eq (hc : s'.kernel.chans = s.kernel.chans)
    (hm : s'.kernel.mems = s.kernel.mems) (hj : s.jobs ≤ s'.jobs) : Grown s s' := by
  refine ⟨fun h hh => mem_append_right _ ?_, le_of_eq (congrArg List.length hc.symm),
    le_of_eq (congrArg List.length hm.symm), hj⟩
  rwa [queueHandles, hc] at hh

/-- Every handle of `t` is under one of `old`, or arrives as `a` says. -/
def Within (old : HandleTable) (a : Handle → Prop) (t : HandleTable) : Prop :=
  ∀ h ∈ t.live, (∃ g ∈ old.live, h.Under g) ∨ a h

variable {a : Handle → Prop} {old t' : HandleTable} {rest : List Process}

theorem Within.of_mem (h : ∀ g ∈ t.live, g ∈ old.live) : Within old a t :=
  fun g hg => .inl ⟨g, h g hg, .refl g⟩

theorem Within.refl (t : HandleTable) : Within t a t := .of_mem fun _ hg => hg

theorem Within.insert (hw : Within old a t) (ht : t.insert h = .ok (i, t'))
    (hh : (∃ g ∈ old.live, h.Under g) ∨ a h) : Within old a t' := by
  intro g hg
  rcases live_insert ht hg with rfl | hg
  · exact hh
  · exact hw g hg

theorem insertHandle_cases (k : KState) (pid : Nat) (p : Process) (h : Handle) :
    (∃ i t, p.handles.insert h = .ok (i, t) ∧
      (k.insertHandle pid p h).1 = k.setProc pid { p with handles := t }) ∨
    (k.insertHandle pid p h).1 = k.dropAll [h] := by
  unfold insertHandle
  split
  · rename_i i t ht
    exact .inl ⟨i, t, ht, rfl⟩
  · exact .inr rfl

section
variable (hp : s.kernel.procs[pid]? = some p)
include hp

theorem effect_procs (hprocs : s'.kernel.procs = s.kernel.procs.set pid q ++ rest) (hg : Grown s s')
    (hq : Within p.handles (src pid) q.handles)
    (hrest : ∀ j c, rest[j]? = some c → ∀ h ∈ c.handles.live, src (s.kernel.procs.length + j) h) :
    Effect s s' src := by
  refine ⟨fun x hx => hx.mono ?_ hg.chans hg.mems hg.jobs, fun i q' hq' h hh => ?_, hg.queued⟩
  · rw [hprocs, length_append, length_set]
    exact Nat.le_add_right _ _
  have hset := procs_setProc hp q i
  change (s.kernel.procs.set pid q)[i]? = _ at hset
  rw [hprocs, List.getElem?_append, length_set] at hq'
  split at hq'
  · rw [hset] at hq'
    split at hq'
    · rename_i hi
      cases hq'
      subst hi
      rcases hq h hh with hu | ha
      · exact .inl ⟨p, hp, hu⟩
      · exact .inr ha
    · exact .inl ⟨q', hq', h, hh, .refl h⟩
  · rename_i hi
    have hsrc := hrest _ q' hq' h hh
    rw [Nat.add_sub_cancel' (Nat.le_of_not_lt hi)] at hsrc
    exact .inr hsrc

theorem effect_table (hprocs : s'.kernel.procs = s.kernel.procs.set pid q) (hg : Grown s s')
    (hq : Within p.handles (src pid) q.handles) : Effect s s' src :=
  effect_procs hp (hprocs.trans (append_nil _).symm) hg hq (by simp)

theorem effect_setProc (hq : Within p.handles (src pid) q.handles) :
    Effect s { s with kernel := s.kernel.setProc pid q } src :=
  effect_table hp rfl (.of_eq rfl rfl (le_refl _)) hq

theorem effect_insertHandle (hprocs : k.procs = s.kernel.procs.set pid q ++ rest)
    (hg : Grown s { kernel := k, jobs := jobs }) (hq : Within p.handles (src pid) q.handles)
    (hh : (∃ g ∈ p.handles.live, h.Under g) ∨ src pid h)
    (hrest : ∀ j c, rest[j]? = some c → ∀ h ∈ c.handles.live, src (s.kernel.procs.length + j) h) :
    Effect s { kernel := (k.insertHandle pid q h).1, jobs := jobs } src := by
  rcases insertHandle_cases k pid q h with ⟨i, t, ht, he⟩ | he
  · rw [he]
    refine effect_procs hp (q := { q with handles := t }) ?_
      ⟨hg.queued, hg.chans, hg.mems, hg.jobs⟩ (hq.insert ht hh) hrest
    have hlt := (List.getElem?_eq_some_iff.1 hp).1
    show k.procs.set pid _ = _
    rw [hprocs, set_append_left _ _ (by simpa using hlt), set_set]
  · rw [he]
    exact (effect_procs hp hprocs hg hq hrest).kept (kept_dropAll k [h])

theorem set_self : s.kernel.procs = s.kernel.procs.set pid p := by
  obtain ⟨hlt, he⟩ := List.getElem?_eq_some_iff.1 hp
  rw [← he, set_getElem_self]

end

/-! ## Call by call -/

/-- A handle of an object that did not exist before the call. -/
def New (s s' : Caps) (pid : Nat) : Nat → Handle → Prop :=
  fun i h => i = pid ∧ ¬ s.Known h.object ∧ s'.Known h.object

theorem known_insertHandle {x : Object} (hx : Known { kernel := k, jobs := jobs } x) :
    Known { kernel := (k.insertHandle pid p h).1, jobs := jobs } x := by
  rcases insertHandle_cases k pid p h with ⟨i, t, ht, he⟩ | he
  · rw [he]
    exact hx.mono (by simp [setProc]) (le_refl _) (le_refl _) (le_refl _)
  rw [he]
  exact ((Effect.refl { kernel := k, jobs := jobs } fun _ _ => False).kept
    (kept_dropAll k [h])).known x hx

section
variable (hp : s.kernel.procs[pid]? = some p)
include hp

/-- A creating call that puts the handle of its object into the caller's
table. -/
theorem effect_insertNew (hprocs : k.procs = s.kernel.procs.set pid q) (hq : q.handles = p.handles)
    (hg : Grown s { kernel := k, jobs := jobs }) (hnew : ¬ s.Known h.object)
    (hh : Known { kernel := k, jobs := jobs } h.object) :
    Effect s { kernel := (k.insertHandle pid q h).1, jobs := jobs }
      (New s { kernel := (k.insertHandle pid q h).1, jobs := jobs } pid) :=
  effect_insertHandle hp (hprocs.trans (append_nil _).symm) hg (hq ▸ .refl _)
    (.inr ⟨rfl, hnew, known_insertHandle hh⟩) (by simp)

theorem effect_jobCreate : Effect s (s.sysJobCreate pid p).1 (New s (s.sysJobCreate pid p).1 pid) :=
  effect_insertNew hp (set_self hp) rfl (.of_eq rfl rfl (Nat.le_succ _)) (lt_irrefl _)
    (Nat.lt_succ_self s.jobs)

theorem effect_memoryCreate (pages : Nat) :
    Effect s { s with kernel := (s.kernel.sysMemoryCreate pid p pages).1 }
      (New s { s with kernel := (s.kernel.sysMemoryCreate pid p pages).1 } pid) := by
  unfold sysMemoryCreate
  split
  · exact .refl ..
  split
  · exact .refl ..
  split
  · exact effect_table hp (set_self hp) (.of_eq rfl rfl (le_refl _)) (.refl _)
  refine effect_insertNew hp rfl rfl
    ⟨fun _ hg => mem_append_right _ hg, le_refl _, ?_, le_refl _⟩ ?_ ?_
  · simp
  · simp [Known]
  · simp [Known]

theorem effect_channelCreate : Effect s { s with kernel := (s.kernel.sysChannelCreate pid p).1 }
      (New s { s with kernel := (s.kernel.sysChannelCreate pid p).1 } pid) := by
  have hgrown : ∀ k : KState, k.mems = s.kernel.mems →
      k.chans = s.kernel.chans ++ [{ queue := fun _ => [], closed := fun _ => false }] →
      Grown s { s with kernel := k } := by
    intro k hm hc
    refine ⟨fun h hh => ?_, by simp [hc], by simp [hm], le_refl _⟩
    rw [queueHandles, hc, flatMap_append] at hh
    rcases mem_append.1 hh with hh | hh
    · exact mem_append_right _ hh
    · simp [Channel.handles, Channel.queued] at hh
  have hdrop : ∀ (k : KState) (hs : List Handle) (src : Nat → Handle → Prop),
      k.procs = s.kernel.procs → Grown s { s with kernel := k } →
      Effect s { s with kernel := k.dropAll hs } src := by
    intro k hs src hprocs hg
    exact (effect_table hp (hprocs.trans (set_self hp)) hg (.refl _)).kept (kept_dropAll k hs)
  unfold sysChannelCreate
  dsimp only
  split
  · exact hdrop _ _ _ rfl (hgrown _ rfl rfl)
  rename_i i t ht
  split
  · rename_i j t' ht'
    refine effect_table hp (q := { p with handles := t' }) rfl (hgrown _ rfl rfl)
      (((Within.refl _).insert ht ?_).insert ht' ?_)
    · exact .inr ⟨rfl, by simp [Known], by simp [Known, setProc]⟩
    · exact .inr ⟨rfl, by simp [Known], by simp [Known, setProc]⟩
  · exact hdrop _ _ _ rfl (hgrown _ rfl rfl)

theorem effect_sameTable (hprocs : k.procs = s.kernel.procs.set pid q) (hq : q.handles = p.handles)
    (hchans : k.chans = s.kernel.chans) (hmems : k.mems = s.kernel.mems) :
    Effect s { s with kernel := k } src :=
  effect_table hp hprocs (.of_eq hchans hmems (le_refl _)) (hq ▸ .refl _)

theorem effect_memoryMap (h : Nat) :
    Effect s { s with kernel := (s.kernel.sysMemoryMap pid p h).1 } src := by
  unfold sysMemoryMap
  split
  · exact .refl ..
  split
  · split
    · exact .refl ..
    split
    · exact effect_sameTable hp rfl rfl rfl rfl
    · exact .refl ..
  · exact .refl ..

theorem effect_memoryUnmap (base len : Nat) :
    Effect s { s with kernel := (s.kernel.sysMemoryUnmap pid p base len).1 } src := by
  unfold sysMemoryUnmap
  split
  · exact .refl ..
  · exact effect_sameTable hp rfl rfl rfl rfl

theorem effect_handleClose (h : Nat) :
    Effect s { s with kernel := (s.kernel.sysHandleClose pid p h).1 } src := by
  unfold sysHandleClose
  split
  · rename_i hd t ht
    refine Effect.kept ?_ (kept_dropAll _ _)
    exact effect_setProc hp (.of_mem (take_mem ht).2)
  · exact .refl ..

theorem effect_handleDuplicate (h : Nat) (wanted : UInt32) :
    Effect s { s with kernel := (s.kernel.sysHandleDuplicate pid p h wanted).1 } src := by
  unfold sysHandleDuplicate
  split
  · rename_i hd hget
    split
    · exact .refl ..
    rename_i hchecks
    rw [not_or, not_not, not_not] at hchecks
    exact effect_insertHandle hp ((set_self hp).trans (append_nil _).symm)
      (.of_eq rfl rfl (le_refl _)) (.refl _)
      (.inl ⟨hd, get_mem hget, rfl, hchecks.2⟩) (by simp)
  · exact .refl ..

theorem effect_sendMessage {msg : Message}
    (ht : ∀ g ∈ t.live, g ∈ p.handles.live) (hmsg : ∀ g ∈ msg.handles, g ∈ p.handles.live)
    (c : Nat) (side : Bool) : Effect s { s with
      kernel := ((s.kernel.setProc pid { p with handles := t }).sendMessage c side msg).1 }
      src := by
  have htaken : Effect s { s with kernel := s.kernel.setProc pid { p with handles := t } } src :=
    effect_setProc hp (.of_mem ht)
  unfold sendMessage
  split
  · exact htaken.kept (kept_dropAll _ _)
  rename_i ch hch
  split
  · exact htaken.kept (kept_dropAll _ _)
  split
  · exact htaken.kept (kept_dropAll _ _)
  refine effect_table hp (q := { p with handles := t }) rfl
    ⟨fun g hg => ?_, by simp [setChan, setProc], le_refl _, le_refl _⟩ (.of_mem ht)
  rcases queueHandles_setChan hg with hg | hg
  · rcases handles_push hg with hg | hg
    · exact mem_handles_of_chan hch hg
    · exact mem_handles_of_table hp (hmsg g hg)
  · exact mem_append_right _ hg

theorem effect_channelSend (h : Nat) (data : List UInt8) (ids : List Nat) (fault : Bool) :
    Effect s { s with kernel := (s.kernel.sysChannelSend pid p h data ids fault).1 } src := by
  rcases sysChannelSend_state s.kernel pid p h data ids fault with he | ⟨c, side, moved, t, ht, he⟩
  · rw [he]
    exact .refl ..
  rw [he]
  obtain ⟨hmoved, hsub⟩ := takeAll_mem ht
  exact effect_sendMessage hp hsub hmoved c side

theorem effect_insertAll {hs : List Handle}
    (hprocs : k.procs = s.kernel.procs) (hg : Grown s { s with kernel := k })
    (ht : Within p.handles (src pid) t) (hhs : ∀ g ∈ hs, src pid g) :
    Effect s { s with kernel := (k.insertAll pid { p with handles := t } hs).1 } src := by
  have hput : ∀ t' : HandleTable, Within p.handles (src pid) t' →
      Effect s { s with kernel := k.setProc pid { p with handles := t' } } src := by
    intro t' ht'
    refine effect_table hp (q := { p with handles := t' }) ?_
      ⟨hg.queued, hg.chans, hg.mems, hg.jobs⟩ ht'
    rw [← hprocs]
    rfl
  induction hs generalizing t with
  | nil => exact hput t ht
  | cons h hs ih =>
    unfold insertAll
    split
    · rename_i i t' he
      exact ih (ht.insert he (.inr (hhs h mem_cons_self)))
        fun g hg => hhs g (mem_cons_of_mem _ hg)
    · exact (hput t ht).kept (kept_dropAll _ _)

theorem effect_channelRecv (h cap hcap : Nat) (fault : Bool) :
    Effect s { s with kernel := (s.kernel.sysChannelRecv pid p h cap hcap fault).1 }
      fun i g => i = pid ∧ g ∈ incoming s.kernel p h := by
  rcases sysChannelRecv_state s.kernel pid p h cap hcap fault with
    he | ⟨hd, c, side, ch, msg, rest, hget, hread, hobj, hch, hq, hcase⟩
  · rw [he]
    exact .refl ..
  have hin : incoming s.kernel p h = msg.handles := by
    simp [incoming, hget, hread, hobj, hch, hq]
  have hpop : Grown s { s with
      kernel := s.kernel.setChan c { ch with queue := Function.update ch.queue side rest } } := by
    refine ⟨fun g hg => ?_, by simp [setChan], le_refl _, le_refl _⟩
    rcases queueHandles_setChan hg with hg | hg
    · exact mem_handles_of_chan hch (handles_pop hq hg)
    · exact mem_append_right _ hg
  rcases hcase with he | he
  · rw [he]
    refine Effect.kept ?_ (kept_dropAll _ _)
    exact effect_table hp (set_self hp) hpop (.refl _)
  · rw [he]
    exact effect_insertAll hp rfl hpop (.refl _) fun g hg => ⟨rfl, hin ▸ hg⟩

theorem effect_exit : Effect s { s with kernel := s.kernel.exitProcess pid p } src := by
  refine Effect.kept ?_ (dropping_kept.collectUnreachable _)
  refine Effect.kept ?_ (kept_dropAll _ _)
  exact effect_setProc hp (.of_mem nofun)

end

theorem fillTable_mem {t' : HandleTable} {hs : List Handle} (h : fillTable t hs = .ok t') :
    ∀ g ∈ t'.live, g ∈ t.live ∨ g ∈ hs := by
  induction hs generalizing t with
  | nil =>
    cases h
    exact fun g hg => .inl hg
  | cons hd hs ih =>
    unfold fillTable at h
    split at h
    · rename_i i t₁ ht
      intro g hg
      rcases ih h g hg with hg | hg
      · rcases live_insert ht hg with rfl | hg
        · exact .inr mem_cons_self
        · exact .inl hg
      · exact .inr (mem_cons_of_mem _ hg)
    · cases h

/-- What a spawn brings: the handle of the child, and the child's own table. -/
def Spawned (s s' : Caps) (pid : Nat) : Nat → Handle → Prop := fun i h =>
  New s s' pid i h ∨ (i = s.kernel.procs.length ∧ h ∈ s.kernel.handles)

theorem effect_childHandle (hp : s.kernel.procs[pid]? = some p) {child : Process}
    (hprocs : k.procs = s.kernel.procs.set pid q ++ [child]) (hchans : k.chans = s.kernel.chans)
    (hmems : k.mems = s.kernel.mems) (hq : ∀ g ∈ q.handles.live, g ∈ p.handles.live)
    (hchild : ∀ g ∈ child.handles.live, g ∈ s.kernel.handles)
    (hobj : h.object = .process s.kernel.procs.length) :
    Effect s { s with kernel := (k.insertHandle pid q h).1 }
      (Spawned s { s with kernel := (k.insertHandle pid q h).1 } pid) := by
  refine effect_insertHandle hp hprocs (.of_eq hchans hmems (le_refl _)) (.of_mem hq)
    (.inr (.inl ⟨rfl, ?_, known_insertHandle ?_⟩)) fun j c hc g hg => ?_
  · rw [hobj]
    exact lt_irrefl _
  · rw [hobj]
    simp [Known, hprocs]
  · obtain ⟨rfl, rfl⟩ : j = 0 ∧ child = c := by
      simpa [List.getElem?_singleton] using hc
    exact .inr ⟨rfl, hchild g hg⟩

theorem effect_processSpawn (hp : s.kernel.procs[pid]? = some p) (a : SpawnArgs)
    (image : Option Image) : Effect s (s.sysProcessSpawn pid p a image).1
      (Spawned s (s.sysProcessSpawn pid p a image).1 pid) := by
  unfold sysProcessSpawn
  -- what is refused changes nothing
  iterate 4
    split
    · exact .refl ..
  split
  · exact .refl ..
  split
  · exact .refl ..
  rename_i moved t ht
  obtain ⟨hmoved, hsub⟩ := takeAll_mem ht
  split
  · exact (effect_setProc hp (.of_mem hsub)).kept (kept_dropAll _ _)
  split
  · exact (effect_setProc hp (.of_mem hsub)).kept (kept_dropAll _ _)
  rename_i im _ table hfill
  refine effect_childHandle hp rfl rfl rfl hsub (fun h hh => ?_) rfl
  rcases fillTable_mem hfill h hh with hh | hh
  · cases hh
  · exact mem_handles_of_table hp (hmoved h hh)

/-! ## The invariant -/

/-- Every handle refers to an object that exists. -/
def Wf (s : Caps) : Prop := ∀ h ∈ s.kernel.handles, s.Known h.object

instance (s : Caps) : Decidable s.Wf := inferInstanceAs (Decidable (∀ h ∈ _, _))

/-- What holds after the calls that gave `log`, for the objects created since
`s₀`: every handle is within a handle the creating call gave, and who holds
one was given one. -/
structure Inv (s₀ s : Caps) (log : List Gift) : Prop where
  wf : s.Wf
  known : ∀ x, s₀.Known x → s.Known x
  rights : ∀ h ∈ s.kernel.handles, ¬ s₀.Known h.object →
    ∃ pid g, .created pid g ∈ log ∧ h.Under g
  held : ∀ (pid : Nat) (p : Process), s.kernel.procs[pid]? = some p → ∀ h ∈ p.handles.live,
    ¬ s₀.Known h.object → ∃ g ∈ log, g.To pid h.object

/-- What `src` says of an arriving handle: the call created its object and
gave it to the caller, or it was held before and the log names the process. -/
def Logged (s s' : Caps) (src : Nat → Handle → Prop) (gs : List Gift) : Prop :=
  ∀ (i : Nat) (q' : Process), s'.kernel.procs[i]? = some q' → ∀ h ∈ q'.handles.live,
    src i h → (s'.Known h.object ∧ .created i h ∈ gs) ∨
      (h ∈ s.kernel.handles ∧ ∃ g ∈ gs, g.To i h.object)

theorem mem_handles_cases (hh : h ∈ k.handles) :
    (∃ (i : Nat) (q : Process), k.procs[i]? = some q ∧ h ∈ q.handles.live) ∨
      h ∈ k.queueHandles := by
  rcases mem_append.1 hh with hh | hh
  · obtain ⟨q, hq, hh⟩ := mem_flatMap.1 hh
    obtain ⟨i, hi⟩ := mem_iff_getElem?.1 hq
    exact .inl ⟨i, q, hi, hh⟩
  · exact .inr hh

theorem Inv.effect {gs : List Gift} (h : Inv s₀ s log) (he : Effect s s' src)
    (hl : Logged s s' src gs) : Inv s₀ s' (log ++ gs) := by
  have hrights : ∀ g ∈ s.kernel.handles, ¬ s₀.Known g.object →
      ∃ pid f, .created pid f ∈ log ++ gs ∧ g.Under f := by
    intro g hg hnew
    obtain ⟨pid, f, hf, hu⟩ := h.rights g hg hnew
    exact ⟨pid, f, mem_append_left _ hf, hu⟩
  have htable : ∀ (i : Nat) (q' : Process), s'.kernel.procs[i]? = some q' → ∀ g ∈ q'.handles.live,
      s'.Known g.object ∧ (¬ s₀.Known g.object →
        (∃ pid f, .created pid f ∈ log ++ gs ∧ g.Under f) ∧ ∃ f ∈ log ++ gs, f.To i g.object) := by
    intro i q' hq' g hg
    rcases he.tables i q' hq' g hg with ⟨q, hq, f, hf, hu⟩ | hsrc
    · have hmem := mem_handles_of_table hq hf
      refine ⟨hu.1 ▸ he.known _ (h.wf f hmem), fun hnew => ⟨?_, ?_⟩⟩
      · obtain ⟨pid, e, hin, hfe⟩ := hrights f hmem (hu.1 ▸ hnew)
        exact ⟨pid, e, hin, hu.trans hfe⟩
      · obtain ⟨e, hin, hto⟩ := h.held i q hq f hf (hu.1 ▸ hnew)
        exact ⟨e, mem_append_left _ hin, hu.1 ▸ hto⟩
    · rcases hl i q' hq' g hg hsrc with ⟨hk, hin⟩ | ⟨hmem, e, hin, hto⟩
      · have hin' := mem_append_right log hin
        exact ⟨hk, fun _ => ⟨⟨i, g, hin', .refl g⟩, .created i g, hin', rfl, rfl⟩⟩
      · exact ⟨he.known _ (h.wf g hmem), fun hnew =>
          ⟨hrights g hmem hnew, e, mem_append_right _ hin, hto⟩⟩
  refine ⟨fun g hg => ?_, fun x hx => he.known x (h.known x hx), fun g hg hnew => ?_,
    fun i q hq g hg hnew => ((htable i q hq g hg).2 hnew).2⟩
  · rcases mem_handles_cases hg with ⟨i, q, hq, hg⟩ | hg
    · exact (htable i q hq g hg).1
    · exact he.known _ (h.wf g (he.queued g hg))
  · rcases mem_handles_cases hg with ⟨i, q, hq, hg⟩ | hg
    · exact ((htable i q hq g hg).2 hnew).1
    · exact hrights g (he.queued g hg) hnew

theorem mem_createdIn {q' : Process} (hq' : s'.kernel.procs[i]? = some q')
    (hh : h ∈ q'.handles.live) (hnew : ¬ s.Known h.object) : .created i h ∈ createdIn s s' i := by
  simp only [createdIn, hq']
  exact mem_map.2 ⟨h, mem_filter.2 ⟨hh, by simpa using hnew⟩, rfl⟩

theorem logged_none {gs : List Gift} : Logged s s' (fun _ _ => False) gs :=
  fun _ _ _ _ _ hf => hf.elim

theorem logged_new : Logged s s' (New s s' pid) (createdIn s s' pid) := by
  rintro i q' hq' h hh ⟨rfl, hnew, hknown⟩
  exact .inl ⟨hknown, mem_createdIn hq' hh hnew⟩

theorem incoming_mem (hh : h ∈ incoming k p i) : h ∈ k.handles := by
  unfold incoming at hh
  split at hh
  · cases hh
  split at hh
  · cases hh
  split at hh
  · rename_i c side _
    split at hh
    · rename_i ch hch
      cases hq : ch.queue side with
      | nil => simp [hq] at hh
      | cons msg rest =>
        simp only [hq, List.head?_cons, Option.elim_some] at hh
        refine mem_handles_of_chan hch (mem_handles_iff.2 ⟨side, ?_⟩)
        rw [queued, hq, flatMap_cons]
        exact mem_append_left _ hh
    · cases hh
  · cases hh

theorem logged_recv : Logged s s' (fun j g => j = pid ∧ g ∈ incoming s.kernel p i)
      ((incoming s.kernel p i).map (.sent pid)) := by
  rintro j q' hq' h hh ⟨rfl, hin⟩
  exact .inr ⟨incoming_mem hin, .sent j h, mem_map.2 ⟨h, hin, rfl⟩, rfl, rfl⟩

theorem logged_spawned : Logged s s' (Spawned s s' pid) (createdIn s s' pid ++ spawnedIn s s') := by
  rintro i q' hq' h hh (⟨rfl, hnew, hknown⟩ | ⟨rfl, hmem⟩)
  · exact .inl ⟨hknown, mem_append_left _ (mem_createdIn hq' hh hnew)⟩
  · refine .inr ⟨hmem, .spawned _ h, mem_append_right _ ?_, rfl, rfl⟩
    simp only [spawnedIn, hq']
    exact mem_map.2 ⟨h, hh, rfl⟩

theorem Inv.call (h : Inv s₀ s log) (hp : s.kernel.procs[pid]? = some p) (c : CapCall) :
    Inv s₀ (s.call pid p c).1 (log ++ gifts s (s.call pid p c).1 pid p c) := by
  cases c with
  | sys c =>
    cases c with
    | memoryCreate pages => exact h.effect (effect_memoryCreate hp pages) logged_new
    | memoryMap i => exact h.effect (effect_memoryMap hp i) logged_none
    | memoryUnmap base len => exact h.effect (effect_memoryUnmap hp base len) logged_none
    | handleClose i => exact h.effect (effect_handleClose hp i) logged_none
    | handleDuplicate i wanted =>
      exact h.effect (effect_handleDuplicate hp i wanted) logged_none
    | channelCreate => exact h.effect (effect_channelCreate hp) logged_new
    | channelSend i data ids fault =>
      exact h.effect (effect_channelSend hp i data ids fault) logged_none
    | channelRecv i cap hcap fault =>
      exact h.effect (effect_channelRecv hp i cap hcap fault) logged_recv
    | exit => exact h.effect (effect_exit hp) logged_none
    | reap => exact h.effect (effect_sameTable hp rfl rfl rfl rfl) logged_none
  | jobCreate => exact h.effect (effect_jobCreate hp) logged_new
  | processSpawn a image => exact h.effect (effect_processSpawn hp a image) logged_spawned

theorem Inv.step (h : Inv s₀ s log) (c : Nat × CapCall) :
    Inv s₀ (s.step c).1 (log ++ (s.step c).2) := by
  unfold Caps.step
  split
  · rename_i p hp
    split
    · exact h.call hp c.2
    · simpa using h
  · simpa using h

theorem Inv.run (h : Inv s₀ s log) (cs : List (Nat × CapCall)) :
    Inv s₀ (s.run cs).1 (log ++ (s.run cs).2) := by
  induction cs generalizing s log with
  | nil => simpa [Caps.run, runLogged] using h
  | cons c cs ih =>
    have hrest := ih (h.step c)
    rwa [append_assoc] at hrest

theorem Wf.inv (h : s.Wf) : Inv s s [] :=
  ⟨h, fun _ hx => hx, fun g hg hnew => absurd (h g hg) hnew,
    fun _ _ hp g hg hnew => absurd (h g (mem_handles_of_table hp hg)) hnew⟩

/-- In every run, a handle to an object created in it, in a table or a queued
message, has no right that the creating call did not give to some handle of
the object; and a process holds one only if it made the creating call, was
sent one or was spawned with one. -/
theorem rights_never_grow (s : Caps) (hs : s.Wf) (cs : List (Nat × CapCall)) :
    (∀ h ∈ (s.run cs).1.kernel.handles, ¬ s.Known h.object →
      ∃ pid g, .created pid g ∈ (s.run cs).2 ∧ g.object = h.object ∧
        g.isSupersetOf h.rights = true) ∧
    ∀ (pid : Nat) (p : Process), (s.run cs).1.kernel.procs[pid]? = some p →
      ∀ h ∈ p.handles.live, ¬ s.Known h.object →
        ∃ g, g.object = h.object ∧ (.created pid g ∈ (s.run cs).2 ∨
          .sent pid g ∈ (s.run cs).2 ∨ .spawned pid g ∈ (s.run cs).2) := by
  have hinv := hs.inv.run cs
  rw [nil_append] at hinv
  refine ⟨fun h hh hnew => ?_, fun pid p hp h hh hnew => ?_⟩
  · obtain ⟨pid, g, hg, hobj, hsup⟩ := hinv.rights h hh hnew
    exact ⟨pid, g, hg, hobj.symm, hsup⟩
  obtain ⟨e, he, hto⟩ := hinv.held pid p hp h hh hnew
  cases e with
  | created i g =>
    obtain ⟨rfl, hobj⟩ := hto
    exact ⟨g, hobj, .inl he⟩
  | sent i g =>
    obtain ⟨rfl, hobj⟩ := hto
    exact ⟨g, hobj, .inr (.inl he)⟩
  | spawned i g =>
    obtain ⟨rfl, hobj⟩ := hto
    exact ⟨g, hobj, .inr (.inr he)⟩

/-- One process without handles. -/
def sampleCaps : Caps := { kernel := sampleBoot, jobs := 0 }

def sampleImage : Image :=
  { space := { root := 2, pages := fun _ => none, tables := [], frames := [] },
    alloc := sampleBoot.alloc, deviceNext := userDeviceRegion / pageSize }

/-- A channel, a copy of its first end that can only be read, a child that is
spawned with the copy, and a job sent to the child. -/
def sampleCapCalls : List (Nat × CapCall) :=
  [(0, .sys .channelCreate), (0, .sys (.handleDuplicate 0 (rightRead ||| rightTransfer))),
    (0, .processSpawn ⟨.named [112, 115], false, [2], false⟩ (some sampleImage)), (0, .jobCreate),
    (0, .sys (.channelSend 1 [] [3] false)),
    (1, .sys (.channelRecv 0 0 1 false))]

theorem sampleCaps_wf : sampleCaps.Wf := by decide

theorem rights_never_grow_sample :
    (∃ (p : Process) (h : Handle), (sampleCaps.run sampleCapCalls).1.kernel.procs[1]? = some p ∧
      h ∈ p.handles.live ∧ ¬ sampleCaps.Known h.object) ∧
    (∀ h ∈ (sampleCaps.run sampleCapCalls).1.kernel.handles, ¬ sampleCaps.Known h.object →
      ∃ pid g, .created pid g ∈ (sampleCaps.run sampleCapCalls).2 ∧ g.object = h.object ∧
        g.isSupersetOf h.rights = true) ∧ ∀ (pid : Nat) (p : Process),
      (sampleCaps.run sampleCapCalls).1.kernel.procs[pid]? = some p →
      ∀ h ∈ p.handles.live, ¬ sampleCaps.Known h.object →
        ∃ g, g.object = h.object ∧ (.created pid g ∈ (sampleCaps.run sampleCapCalls).2 ∨
          .sent pid g ∈ (sampleCaps.run sampleCapCalls).2 ∨
          .spawned pid g ∈ (sampleCaps.run sampleCapCalls).2) := by
  refine ⟨?_, rights_never_grow sampleCaps sampleCaps_wf sampleCapCalls⟩
  have hview : (sampleCaps.run sampleCapCalls).1.kernel.procs[1]?.map
      (fun p => p.handles.live.map Handle.object) = some [.channel 0 false, .job 0] := by
    decide +kernel
  obtain ⟨p, hp, hlive⟩ := Option.map_eq_some_iff.1 hview
  have hjob : Object.job 0 ∈ p.handles.live.map Handle.object := by simp [hlive]
  obtain ⟨h, hh, hobj⟩ := mem_map.1 hjob
  exact ⟨p, h, hp, hh, by rw [hobj]; decide⟩

/-- Who creates a channel holds its ends without having been sent or spawned
with one. -/
theorem creator_holds_unsent : ∃ (p : Process) (h : Handle),
      (sampleCaps.run [(0, .sys .channelCreate)]).1.kernel.procs[0]? = some p ∧
      h ∈ p.handles.live ∧ ¬ sampleCaps.Known h.object ∧
      ∀ g, .sent 0 g ∉ (sampleCaps.run [(0, .sys .channelCreate)]).2 ∧
        .spawned 0 g ∉ (sampleCaps.run [(0, .sys .channelCreate)]).2 := by
  have hview : (sampleCaps.run [(0, .sys .channelCreate)]).1.kernel.procs[0]?.map
      (fun p => p.handles.live) =
        some [{ object := .channel 0 false, rights := rightsChannelDefault },
          { object := .channel 0 true, rights := rightsChannelDefault }] := by
    decide +kernel
  have hlog : (sampleCaps.run [(0, .sys .channelCreate)]).2 =
      [.created 0 { object := .channel 0 false, rights := rightsChannelDefault },
        .created 0 { object := .channel 0 true, rights := rightsChannelDefault }] := by
    decide +kernel
  obtain ⟨p, hp, hlive⟩ := Option.map_eq_some_iff.1 hview
  exact ⟨p, _, hp, by rw [hlive]; exact mem_cons_self, by decide, by simp [hlog]⟩

end Caps
end NexoOS.Kernel
