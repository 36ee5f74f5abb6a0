import NexoOS.Kernel.Irq

/-!
# Interrupts and the grants they belong to

`irq_wait` does not look whether the vector belongs to the grant it is called
on, and a vector that is given back keeps its counter, its attached channels
and its waiting threads. Runs that stay clear of that (`Careful`) keep every
interrupt with the grant that held the vector when it came.
-/

namespace NexoOS.Kernel

open Function HandleTable IrqState List

/-- The thread is inside `irq::wait(v, seen)`, called on grant `g`. -/
def WaitPc.In (pc : WaitPc) (g v seen : Nat) : Prop :=
  pc = .looking g v seen ∨ pc = .parked g v seen

def WaitPc.vector : WaitPc → Option Nat
  | .user => none
  | .looking _ v _ | .parked _ v _ => some v

theorem WaitPc.In.vector {pc : WaitPc} {g v seen : Nat} (h : pc.In g v seen) :
    pc.vector = some v := by
  rcases h with rfl | rfl <;> rfl

def HandleTable.hasRoom (t : HandleTable) : Bool :=
  t.any Option.isNone || decide (t.length < handlesMax)

theorem HandleTable.insert_error {t : HandleTable} {h : Handle} {e : Status}
    (he : t.insert h = .error e) : t.hasRoom = false := by
  unfold HandleTable.insert at he
  split at he
  · cases he
  rename_i hnone
  split at he
  · rename_i hlen
    rw [hasRoom, Bool.or_eq_false_iff, decide_eq_false_iff_not, any_eq_false]
    exact ⟨fun o ho => by simp [findIdx?_eq_none_iff.1 hnone o ho], Nat.not_lt.2 hlen⟩
  · cases he

namespace IrqState

/-! ## Careful steps -/

variable (s : IrqState)

def HoldsVector (g v : Nat) : Prop := v ∈ s.grants.getD g []

instance (s : IrqState) (g v : Nat) : Decidable (s.HoldsVector g v) :=
  inferInstanceAs (Decidable (_ ∈ _))

/-- Nobody listens to the vector: no thread waits on it, every channel
attached to it is closed, and no handler has still to deliver. -/
def Quiet (v : Nat) : Prop :=
  (∀ th ∈ s.threads, th.pc.vector ≠ some v) ∧
  (∀ a ∈ s.attached, a.1 = v → ∀ ch ∈ s.chans[a.2]?, ch.closed = true) ∧
  ∀ h ∈ s.handlers, h.1 ≠ v

instance (s : IrqState) (v : Nat) : Decidable (s.Quiet v) :=
  inferInstanceAs (Decidable (_ ∧ _ ∧ _))

/-- The vectors that go with a handle to `x` that has left the tables: those of
a grant to which there is no other handle. -/
def lost : Object → List Nat
  | .device g => if s.referenced (.device g) then [] else s.grants.getD g []
  | _ => []

/-- Handle `h` of `pid`, and the state without it. -/
def without (pid h : Nat) (f : IrqState → Handle → List Nat) : List Nat :=
  match s.tables[pid]? with
  | none => []
  | some t =>
    match t.get h with
    | .error _ => []
    | .ok hd => f (s.setTable pid (t.set h none)) hd

/-- The vectors that the step gives back: it closes the last handle of their
grant, or sends it to a process that does not exist or has no room. -/
def freed : IrqAct → List Nat
  | .handleClose pid h => s.without pid h fun s hd => s.lost hd.object
  | .move pid h dest => s.without pid h fun s hd =>
    if hd.contains rightTransfer ∧ ∀ t ∈ s.tables[dest]?, t.hasRoom = false then
      s.lost hd.object
    else []
  | _ => []

/-- The vector that the step hands out: the first one that is not taken. -/
def taken : IrqAct → Option Nat
  | .irqAlloc pid h => do
    let t ← s.tables[pid]?
    let _ ← (deviceGrant t h rightSignal).toOption
    s.alloc
  | _ => none

/-- `irq_wait` is called with a vector of the grant, and not for interrupts
from before the vector was allocated. -/
def WaitsOwn : IrqAct → Prop
  | .irqWait i h v seen =>
    ∀ th ∈ s.threads[i]?, ∀ t ∈ s.tables[th.pid]?, ∀ g ∈ (deviceGrant t h rightSignal).toOption,
      s.HoldsVector g v ∧ s.since v ≤ seen
  | _ => True

instance (s : IrqState) : (a : IrqAct) → Decidable (s.WaitsOwn a)
  | .irqWait i _ _ _ => inferInstanceAs (Decidable (∀ th ∈ s.threads[i]?, _))
  | .deviceOpen .. | .irqAlloc .. | .irqChannel .. | .look .. | .recv .. | .handleClose ..
  | .handleDuplicate .. | .move .. | .raise .. | .deliver .. => inferInstanceAs (Decidable True)

/-- The step gives a vector back only while nobody listens to it, hands one
out only while no handler has still to deliver it, and waits only on a vector
of its own. -/
def Careful (a : IrqAct) : Prop :=
  (∀ v ∈ s.freed a, s.Quiet v) ∧ (∀ v ∈ s.taken a, ∀ h ∈ s.handlers, h.1 ≠ v) ∧ s.WaitsOwn a

instance (s : IrqState) (a : IrqAct) : Decidable (s.Careful a) :=
  inferInstanceAs (Decidable (_ ∧ _ ∧ _))

def CarefulRun : IrqState → List IrqAct → Prop
  | _, [] => True
  | s, a :: acts => s.Careful a ∧ (s.step a).1.CarefulRun acts

instance : (s : IrqState) → (acts : List IrqAct) → Decidable (s.CarefulRun acts)
  | _, [] => inferInstanceAs (Decidable True)
  | s, a :: acts =>
    have : Decidable ((s.step a).1.CarefulRun acts) := instDecidableCarefulRun _ acts
    inferInstanceAs (Decidable (_ ∧ _))

/-! ## The invariant -/

structure Inv (s : IrqState) : Prop where
  alloc : ∀ {g v}, s.HoldsVector g v → s.allocated v = true ∧ isUserVector v = true
  uniq : ∀ {g g' v}, s.HoldsVector g v → s.HoldsVector g' v → g = g'
  fired : ∀ {g v i e}, s.HoldsVector g v → s.since v ≤ i → (s.raised v)[i]? = some e → g ∈ e
  waits : ∀ th ∈ s.threads, ∀ {g v seen}, th.pc.In g v seen → s.HoldsVector g v ∧ s.since v ≤ seen
  attached : ∀ a ∈ s.attached, ∀ ch ∈ s.chans[a.2]?, ch.closed = false →
    s.HoldsVector ch.grant a.1
  bound : ∀ a ∈ s.attached, a.2 < s.chans.length
  queued : ∀ ch ∈ s.chans, ∀ e ∈ ch.queue, ch.grant ∈ e
  pending : ∀ h ∈ s.handlers, ∀ {g}, s.HoldsVector g h.1 → g ∈ h.2
  handles : ∀ (pid : Nat) (t : HandleTable), s.tables[pid]? = some t → ∀ h ∈ t.live,
    ∀ c side, h.object = .channel c side →
      h.rights = rightRead ∧ ∃ ch, s.chans[c]? = some ch ∧ ch.pid = pid

/-! ## Waking and freeing -/

/-- Between `s` and `s'` threads were woken and the vectors `vs` given back. -/
structure Frees (s s' : IrqState) (vs : List Nat) : Prop where
  tables : s'.tables = s.tables
  grants : s'.grants = s.grants
  attached : s'.attached = s.attached
  chans : s'.chans = s.chans
  handlers : s'.handlers = s.handlers
  raised : s'.raised = s.raised
  since : s'.since = s.since
  allocated : ∀ v, s'.allocated v = (s.allocated v && !(decide (v ∈ vs) && isUserVector v))
  threads : ∀ th' ∈ s'.threads, ∃ th ∈ s.threads, ∀ {g v seen}, th'.pc.In g v seen →
    th.pc.In g v seen

variable {v pid : Nat} {s : IrqState} {t : HandleTable} {a : IrqAct}

theorem in_unpark {th : IrqThread} {g seen : Nat} (h : (unpark th).pc.In g v seen) :
    th.pc.In g v seen := by
  unfold unpark at h
  split at h
  · rename_i g' v' seen' hpc
    rcases h with h | h
    · cases h
      exact .inr hpc
    · cases h
  · exact h

theorem wake_threads {th' : IrqThread} (h : th' ∈ (s.wake v).threads) :
    ∃ th ∈ s.threads, ∀ {g w seen}, th'.pc.In g w seen → th.pc.In g w seen := by
  obtain ⟨i, hi⟩ := mem_iff_getElem?.1 h
  rw [wake, List.getElem?_mapIdx] at hi
  obtain ⟨th, hth, rfl⟩ := Option.map_eq_some_iff.1 hi
  refine ⟨th, mem_of_getElem? hth, fun hin => ?_⟩
  split at hin
  · exact in_unpark hin
  · exact hin

theorem frees_free (s : IrqState) (v : Nat) : Frees s (s.free v) [v] := by
  unfold free
  split
  · rename_i hv
    refine ⟨rfl, rfl, rfl, rfl, rfl, rfl, rfl, fun w => ?_, fun th' hth' => wake_threads hth'⟩
    show update s.allocated v false w = _
    by_cases hw : w = v
    · subst hw
      simp [hv]
    · simp [hw]
  · rename_i hv
    refine ⟨rfl, rfl, rfl, rfl, rfl, rfl, rfl, fun w => ?_, fun th hth => ⟨th, hth, id⟩⟩
    by_cases hw : w = v
    · subst hw
      simp [hv]
    · simp [hw]

theorem Frees.cons {s' s'' : IrqState} {vs : List Nat} (h : Frees s s' [v]) (h' : Frees s' s'' vs) :
    Frees s s'' (v :: vs) := by
  refine ⟨h'.tables.trans h.tables, h'.grants.trans h.grants, h'.attached.trans h.attached,
    h'.chans.trans h.chans, h'.handlers.trans h.handlers, h'.raised.trans h.raised,
    h'.since.trans h.since, fun w => ?_, fun th hth => ?_⟩
  · rw [h'.allocated, h.allocated]
    by_cases hw : w = v <;> cases isUserVector w <;> simp [hw]
  · obtain ⟨th', hth', hin'⟩ := h'.threads th hth
    obtain ⟨th'', hth'', hin''⟩ := h.threads th' hth'
    exact ⟨th'', hth'', fun hin => hin'' (hin' hin)⟩

theorem frees_foldl (vs : List Nat) (s : IrqState) : Frees s (vs.foldl free s) vs := by
  induction vs generalizing s with
  | nil =>
    exact ⟨rfl, rfl, rfl, rfl, rfl, rfl, rfl, fun w => by simp, fun th hth => ⟨th, hth, id⟩⟩
  | cons v vs ih => exact (frees_free s v).cons (ih _)

theorem holdsVector_set {g g' : Nat} (h : HoldsVector { s with grants := s.grants.set g [] } g' v) :
    g' ≠ g ∧ s.HoldsVector g' v := by
  unfold HoldsVector at h
  simp only [getD_eq_getElem?_getD, List.getElem?_set] at h
  split at h
  · split at h <;> cases h
  rename_i hg
  refine ⟨fun he => hg he.symm, ?_⟩
  unfold HoldsVector
  rwa [getD_eq_getElem?_getD]

/-- A grant goes while nobody listens to its vectors. -/
theorem Inv.dropGrant (h : s.Inv) (g : Nat) (hq : ∀ v, s.HoldsVector g v → s.Quiet v) :
    (s.dropGrant g).Inv := by
  have hf := frees_foldl (s.grants.getD g []) { s with grants := s.grants.set g [] }
  change Frees _ (s.dropGrant g) _ at hf
  have hold : ∀ {g' v}, (s.dropGrant g).HoldsVector g' v → g' ≠ g ∧ s.HoldsVector g' v := by
    intro g' v hv
    unfold HoldsVector at hv
    rw [hf.grants] at hv
    exact holdsVector_set hv
  have hkeep : ∀ {g' v}, g' ≠ g → s.HoldsVector g' v → (s.dropGrant g).HoldsVector g' v := by
    intro g' v hne hv
    unfold HoldsVector
    rw [hf.grants]
    show v ∈ (s.grants.set g []).getD g' []
    rwa [getD_eq_getElem?_getD, List.getElem?_set_ne fun he => hne he.symm,
      ← getD_eq_getElem?_getD]
  constructor
  case alloc =>
    intro g' v hv
    obtain ⟨hne, hv⟩ := hold hv
    obtain ⟨ha, hu⟩ := h.alloc hv
    have hnot : v ∉ s.grants.getD g [] := fun hc => hne (h.uniq hv hc)
    rw [hf.allocated, decide_eq_false hnot]
    exact ⟨by simpa using ha, hu⟩
  case uniq => exact fun hv hv' => h.uniq (hold hv).2 (hold hv').2
  case fired =>
    rw [hf.since, hf.raised]
    exact fun hv => h.fired (hold hv).2
  case waits =>
    intro th' hth' g' v seen hin
    obtain ⟨th, hth, hback⟩ := hf.threads th' hth'
    obtain ⟨hv, hs⟩ := h.waits th hth (hback hin)
    rw [hf.since]
    refine ⟨hkeep (fun he => ?_) hv, hs⟩
    exact (hq v (he ▸ hv)).1 th hth (hback hin).vector
  case attached =>
    rw [hf.attached, hf.chans]
    intro a ha ch hch hopen
    have hv := h.attached a ha ch hch hopen
    refine hkeep (fun he => ?_) hv
    have hclosed := (hq a.1 (he ▸ hv)).2.1 a ha rfl ch hch
    rw [hopen] at hclosed
    cases hclosed
  case bound =>
    rw [hf.attached, hf.chans]
    exact h.bound
  case queued =>
    rw [hf.chans]
    exact h.queued
  case pending =>
    rw [hf.handlers]
    exact fun hd hhd _ hv => h.pending hd hhd (hold hv).2
  case handles =>
    rw [hf.tables, hf.chans]
    exact h.handles

/-- Channels are read, written or closed: each keeps its process and its grant, is not
opened again, and holds interrupts of the grant only. -/
theorem Inv.editChans (h : s.Inv) {s' : IrqState}
    (hsame : s'.grants = s.grants ∧ s'.allocated = s.allocated ∧ s'.since = s.since ∧
      s'.raised = s.raised ∧ s'.threads = s.threads ∧ s'.tables = s.tables)
    (hatt : s'.attached ⊆ s.attached) (hpend : s'.handlers ⊆ s.handlers)
    (hlen : s'.chans.length = s.chans.length)
    (hchans : ∀ {c : Nat} {ch'}, s'.chans[c]? = some ch' → ∃ ch, s.chans[c]? = some ch ∧
      ch'.pid = ch.pid ∧ ch'.grant = ch.grant ∧ (ch'.closed = false → ch.closed = false) ∧
      ∀ e ∈ ch'.queue, ch.grant ∈ e) : s'.Inv := by
  obtain ⟨hgrants, halloc, hsince, hraised, hthreads, htables⟩ := hsame
  have hold : ∀ {g v}, s'.HoldsVector g v ↔ s.HoldsVector g v := by
    intro g v
    rw [HoldsVector, HoldsVector, hgrants]
  constructor <;> try simp only [hold, halloc, hsince, hraised, hthreads, htables]
  case alloc => exact h.alloc
  case uniq => exact h.uniq
  case fired => exact h.fired
  case waits => exact h.waits
  case attached =>
    intro a ha ch' hch' hopen
    obtain ⟨ch, hch, -, hgrant, hclosed, -⟩ := hchans hch'
    rw [hgrant]
    exact h.attached a (hatt ha) ch hch (hclosed hopen)
  case bound => exact fun a ha => hlen ▸ h.bound a (hatt ha)
  case queued =>
    intro ch' hch' e he
    obtain ⟨c, hc⟩ := mem_iff_getElem?.1 hch'
    obtain ⟨ch, -, -, hgrant, -, hqueue⟩ := hchans hc
    rw [hgrant]
    exact hqueue e he
  case pending => exact fun hd hhd => h.pending hd (hpend hhd)
  case handles =>
    intro pid t ht hd hhd c side hobj
    obtain ⟨hr, ch, hch, hpid⟩ := h.handles pid t ht hd hhd c side hobj
    have hlt : c < s'.chans.length := hlen ▸ (List.getElem?_eq_some_iff.1 hch).1
    obtain ⟨ch₀, hch₀, hpid', -⟩ := hchans (List.getElem?_eq_getElem hlt)
    obtain rfl := Option.some.inj (hch.symm.trans hch₀)
    exact ⟨hr, _, List.getElem?_eq_getElem hlt, hpid'.trans hpid⟩

theorem Inv.closeChannel (h : s.Inv) (c : Nat) : (s.closeChannel c).Inv := by
  refine h.editChans ⟨rfl, rfl, rfl, rfl, rfl, rfl⟩ (List.Subset.refl _) (List.Subset.refl _)
    (length_modify ..) fun {c' ch'} hch' => ?_
  rw [IrqState.closeChannel, List.getElem?_modify] at hch'
  obtain ⟨ch, hch, rfl⟩ := Option.map_eq_some_iff.1 hch'
  refine ⟨ch, hch, ?_⟩
  split
  · exact ⟨rfl, rfl, nofun, nofun⟩
  · exact ⟨rfl, rfl, id, h.queued ch (mem_of_getElem? hch)⟩

theorem Inv.drop (h : s.Inv) (x : Object) (hq : ∀ v ∈ s.lost x, s.Quiet v) : (s.drop x).Inv := by
  unfold IrqState.drop
  split
  · exact h
  rename_i hlast
  cases x with
  | device g =>
    rw [lost, if_neg hlast] at hq
    exact h.dropGrant g hq
  | channel c side => exact h.closeChannel c
  | _ => exact h

/-! ## Tables -/

/-- A handle of an interrupt channel can be read and nothing else, and is in
the table of the process that made the channel. -/
def Placed (s : IrqState) (pid : Nat) (h : Handle) : Prop :=
  ∀ c side, h.object = .channel c side →
    h.rights = rightRead ∧ ∃ ch, s.chans[c]? = some ch ∧ ch.pid = pid

theorem Placed.of_contains {pid' : Nat} {h : Handle} (wanted : UInt32) (hp : s.Placed pid h)
    (hc : h.contains rightDuplicate = true ∨ h.contains rightTransfer = true) :
    s.Placed pid' { h with rights := wanted } := by
  intro c side hobj
  obtain ⟨hr, -⟩ := hp c side hobj
  rw [Handle.contains, Handle.contains, hr] at hc
  exact absurd hc (by decide)

theorem tables_setTable {i : Nat} {t' : HandleTable} (h : (s.setTable pid t).tables[i]? = some t') :
    (i = pid ∧ t' = t) ∨ s.tables[i]? = some t' :=
  getElem?_set_cases h

theorem Inv.setTable (h : s.Inv) (ht : ∀ hd ∈ t.live, s.Placed pid hd) :
    (s.setTable pid t).Inv := by
  refine ⟨h.alloc, h.uniq, h.fired, h.waits, h.attached, h.bound, h.queued, h.pending, ?_⟩
  intro i t' ht' hd hhd
  rcases tables_setTable ht' with ⟨rfl, rfl⟩ | ht'
  · exact ht hd hhd
  · exact h.handles i t' ht' hd hhd

theorem Inv.insertHandle (h : s.Inv) {hd : Handle} (ht : ∀ g ∈ t.live, s.Placed pid g)
    (hhd : s.Placed pid hd) (hq : t.hasRoom = false → ∀ v ∈ s.lost hd.object, s.Quiet v) :
    (s.insertHandle pid t hd).Inv := by
  unfold IrqState.insertHandle
  split
  · rename_i i t' he
    refine h.setTable fun g hg => ?_
    rcases live_insert he hg with rfl | hg
    · exact hhd
    · exact ht g hg
  · rename_i he
    exact h.drop hd.object (hq (insert_error he))

/-! ## Calls -/

section Calls

variable {s : IrqState} {pid : Nat} {t : HandleTable}

theorem Inv.handleClose (h : s.Inv) (ht : s.tables[pid]? = some t) (i : Nat)
    (hq : ∀ v ∈ s.freed (.handleClose pid i), s.Quiet v) : (s.sysHandleClose pid t i).Inv := by
  unfold sysHandleClose HandleTable.take
  cases he : t.get i with
  | error e => exact h
  | ok hd =>
    simp only [freed, without, ht, he] at hq
    exact (h.setTable fun g hg => h.handles pid t ht g (live_set_none hg)).drop _ hq

/-- Nothing goes while a handle to the object is in a table. -/
theorem lost_of_live {hd : Handle} (ht : s.tables[pid]? = some t) (hhd : hd ∈ t.live) :
    s.lost hd.object = [] := by
  have href : s.referenced hd.object = true :=
    any_eq_true.2 ⟨t, mem_of_getElem? ht, any_eq_true.2 ⟨hd, hhd, decide_eq_true rfl⟩⟩
  unfold lost
  split
  · rename_i hobj
    rw [← hobj, if_pos href]
  · rfl

theorem Inv.handleDuplicate (h : s.Inv) (ht : s.tables[pid]? = some t) (i : Nat)
    (wanted : UInt32) : (s.sysHandleDuplicate pid t i wanted).Inv := by
  unfold sysHandleDuplicate
  split
  · rename_i hd he
    split
    · exact h
    rename_i hchecks
    rw [not_or, not_not] at hchecks
    refine h.insertHandle (h.handles pid t ht) ?_ fun _ v hv => ?_
    · exact Placed.of_contains _ (h.handles pid t ht hd (get_mem he)) (.inl hchecks.1)
    · rw [lost_of_live ht (get_mem he)] at hv
      cases hv
  · exact h

theorem Inv.moveHandle (h : s.Inv) (ht : s.tables[pid]? = some t) (i dest : Nat)
    (hq : ∀ v ∈ s.freed (.move pid i dest), s.Quiet v) : (s.moveHandle pid t i dest).Inv := by
  unfold IrqState.moveHandle
  split
  · exact h
  rename_i hd he
  dsimp only
  split
  · exact h
  rename_i htransfer
  simp only [freed, without, ht, he, not_not.1 htransfer, true_and] at hq
  have hplaced := h.handles pid t ht hd (get_mem he)
  have hset : (s.setTable pid (t.set i none)).Inv :=
    h.setTable fun g hg => h.handles pid t ht g (live_set_none hg)
  split
  · rename_i t' ht'
    refine hset.insertHandle (hset.handles dest t' ht')
      (Placed.of_contains hd.rights hplaced (.inr (not_not.1 htransfer))) fun hroom => ?_
    rwa [ht', if_pos fun t ht => Option.some.inj ht ▸ hroom] at hq
  · rename_i hnone
    rw [hnone, if_pos fun t ht => by cases ht] at hq
    exact hset.drop _ hq

variable {g v i : Nat}

theorem holdsVector_append :
    HoldsVector { s with grants := s.grants ++ [[]] } g v ↔ s.HoldsVector g v := by
  unfold HoldsVector
  simp only [getD_eq_getElem?_getD, List.getElem?_append]
  split
  · rfl
  rename_i hlt
  rw [List.getElem?_eq_none (Nat.le_of_not_lt hlt)]
  rcases Nat.eq_zero_or_pos (g - s.grants.length) with h0 | h0
  · simp [h0]
  · rw [List.getElem?_eq_none (by rw [length_singleton]; omega)]

theorem Inv.newGrant (h : s.Inv) : Inv { s with grants := s.grants ++ [[]] } := by
  refine ⟨fun hv => h.alloc (holdsVector_append.1 hv),
    fun hv hv' => h.uniq (holdsVector_append.1 hv) (holdsVector_append.1 hv'),
    fun hv => h.fired (holdsVector_append.1 hv), fun th hth _ _ _ hin => ?_,
    fun a ha ch hch hopen => holdsVector_append.2 (h.attached a ha ch hch hopen), h.bound, h.queued,
    fun hd hhd _ hv => h.pending hd hhd (holdsVector_append.1 hv), h.handles⟩
  obtain ⟨hv, hs⟩ := h.waits th hth hin
  exact ⟨holdsVector_append.2 hv, hs⟩

theorem Inv.deviceOpen (h : s.Inv) (ht : s.tables[pid]? = some t) (i : Nat) (found : Bool) :
    (s.sysDeviceOpen pid t i found).Inv := by
  unfold sysDeviceOpen
  split
  · exact h
  split
  · refine h.newGrant.insertHandle (h.newGrant.handles pid t ht) nofun fun _ v hv => ?_
    -- the new grant has no vectors yet
    simp [lost] at hv
  · exact h

theorem holdsVector_modify {s : IrqState} {g' w : Nat} {f : Nat → Bool} {n : Nat → Nat} :
    (HoldsVector { s with allocated := f, grants := s.grants.modify g (· ++ [v]), since := n } g' w →
      s.HoldsVector g' w ∨ (g' = g ∧ w = v)) ∧ (s.HoldsVector g' w →
      HoldsVector { s with allocated := f, grants := s.grants.modify g (· ++ [v]), since := n }
        g' w) := by
  unfold HoldsVector
  simp only [getD_eq_getElem?_getD, List.getElem?_modify]
  rcases s.grants[g']? with _ | vs
  · exact ⟨nofun, nofun⟩
  simp only [Option.getD_some]
  split
  · rename_i he
    show (w ∈ vs ++ [v] → _) ∧ (_ → w ∈ vs ++ [v])
    rw [mem_append, mem_singleton]
    exact ⟨Or.imp id fun hw => ⟨he.symm, hw⟩, .inl⟩
  · exact ⟨.inl, id⟩

theorem isUserVector_of_mem (h : v ∈ userVectorList) : isUserVector v = true := by
  obtain ⟨i, hi, rfl⟩ := mem_map.1 h
  rw [mem_range] at hi
  simp only [isUserVector, Bool.and_eq_true, decide_eq_true_eq]
  omega

/-- A vector nobody holds goes to a grant while no handler has still to
deliver it. -/
theorem Inv.irqAlloc (h : s.Inv) (ht : s.tables[pid]? = some t) (i : Nat)
    (hq : ∀ v ∈ s.taken (.irqAlloc pid i), ∀ hd ∈ s.handlers, hd.1 ≠ v) :
    (s.sysIrqAlloc t i).Inv := by
  unfold sysIrqAlloc
  split
  · exact h
  rename_i g hg
  split
  · exact h
  rename_i v hv
  have huser : isUserVector v = true := isUserVector_of_mem (mem_of_find?_eq_some hv)
  have hfree : s.allocated v = false := by
    have := List.find?_some hv
    simpa using this
  have hnone : ∀ {g'}, ¬ s.HoldsVector g' v := by
    intro g' hc
    have := (h.alloc hc).1
    rw [hfree] at this
    cases this
  have hquiet := hq v (by simp [taken, ht, hg, hv, Except.toOption])
  constructor
  case alloc =>
    intro g' w hw
    show update s.allocated v true w = true ∧ _
    rcases holdsVector_modify.1 hw with hw | ⟨-, rfl⟩
    · have hne : w ≠ v := fun he => hnone (he ▸ hw)
      rw [update_of_ne hne]
      exact h.alloc hw
    · exact ⟨update_self .., huser⟩
  case uniq =>
    intro g₁ g₂ w h₁ h₂
    rcases holdsVector_modify.1 h₁ with hw₁ | ⟨he₁, hv₁⟩
    · rcases holdsVector_modify.1 h₂ with hw₂ | ⟨-, hv₂⟩
      · exact h.uniq hw₁ hw₂
      · exact absurd (hv₂ ▸ hw₁) hnone
    rcases holdsVector_modify.1 h₂ with hw₂ | ⟨he₂, -⟩
    · exact absurd (hv₁ ▸ hw₂) hnone
    · exact he₁.trans he₂.symm
  case fired =>
    intro g' w j e hw
    show update s.since v (s.count v) w ≤ j → (s.raised w)[j]? = some e → _
    rcases holdsVector_modify.1 hw with hw | ⟨-, rfl⟩
    · have hne : w ≠ v := fun he => hnone (he ▸ hw)
      rw [update_of_ne hne]
      exact h.fired hw
    rw [update_self]
    intro hj he
    -- no interrupt has come since
    rw [List.getElem?_eq_none hj] at he
    cases he
  case waits =>
    intro th hth g' w seen hin
    obtain ⟨hw, hs⟩ := h.waits th hth hin
    have hne : w ≠ v := fun he => hnone (he ▸ hw)
    refine ⟨holdsVector_modify.2 hw, ?_⟩
    show update s.since v (s.count v) w ≤ seen
    rwa [update_of_ne hne]
  case attached =>
    exact fun a ha ch hch hopen => holdsVector_modify.2 (h.attached a ha ch hch hopen)
  case bound => exact h.bound
  case queued => exact h.queued
  case pending =>
    intro hd hhd g' hw
    rcases holdsVector_modify.1 hw with hw | ⟨-, he⟩
    · exact h.pending hd hhd hw
    · exact absurd he (hquiet hd hhd)
  case handles => exact h.handles

theorem getElem?_concat_of {α : Type} {l : List α} {x y : α} (h : l[i]? = some y) :
    (l ++ [x])[i]? = some y := by
  rw [List.getElem?_append_left (List.getElem?_eq_some_iff.1 h).1, h]

theorem Inv.newChannel (h : s.Inv) (pid : Nat) (hv : s.HoldsVector g v) : Inv { s with
      chans := s.chans ++ [{ queue := [], closed := false, pid, grant := g, vector := v }],
      attached := s.attached ++ [(v, s.chans.length)] } := by
  refine { h with attached := ?attached, bound := ?bound, queued := ?queued, handles := ?handles }
  case attached =>
    intro a ha ch hch hopen
    rcases getElem?_concat_cases hch with hch | ⟨hlen, rfl⟩
    · rcases mem_append.1 ha with ha | ha
      · exact h.attached a ha ch hch hopen
      · obtain rfl := mem_singleton.1 ha
        rw [List.getElem?_eq_none (Nat.le_refl _)] at hch
        cases hch
    · rcases mem_append.1 ha with ha | ha
      · exact absurd hlen (Nat.ne_of_lt (h.bound a ha))
      · obtain rfl := mem_singleton.1 ha
        exact hv
  case bound =>
    intro a ha
    rw [length_append, length_singleton]
    rcases mem_append.1 ha with ha | ha
    · exact Nat.lt_succ_of_lt (h.bound a ha)
    · obtain rfl := mem_singleton.1 ha
      exact Nat.lt_succ_self _
  case queued =>
    intro ch hch e he
    rcases mem_append.1 hch with hch | hch
    · exact h.queued ch hch e he
    · obtain rfl := mem_singleton.1 hch
      cases he
  case handles =>
    intro i t' ht' hd hhd c side hobj
    obtain ⟨hr, ch, hch, hpid⟩ := h.handles i t' ht' hd hhd c side hobj
    exact ⟨hr, ch, getElem?_concat_of hch, hpid⟩

theorem Inv.irqChannel (h : s.Inv) (ht : s.tables[pid]? = some t) (i v : Nat) :
    (s.sysIrqChannel pid t i v).Inv := by
  unfold sysIrqChannel
  split
  · exact h
  rename_i g hg
  split
  · exact h
  split
  · exact h
  rename_i hmem
  have hnew := h.newChannel pid (v := v) (g := g) (not_not.1 hmem)
  refine hnew.insertHandle (hnew.handles pid t ht) ?_ fun _ w hw => by cases hw
  intro c side hobj
  obtain ⟨rfl, -⟩ := Object.channel.inj hobj
  exact ⟨rfl, _, List.getElem?_concat_length, rfl⟩

theorem Inv.setPc (h : s.Inv) (i : Nat) {pc : WaitPc}
    (hpc : ∀ {g v seen}, pc.In g v seen → s.HoldsVector g v ∧ s.since v ≤ seen) :
    (s.setPc i pc).Inv := by
  refine ⟨h.alloc, h.uniq, h.fired, ?_, h.attached, h.bound, h.queued, h.pending, h.handles⟩
  intro th' hth' g v seen hin
  obtain ⟨j, hj⟩ := mem_iff_getElem?.1 hth'
  rw [IrqState.setPc, List.getElem?_modify] at hj
  obtain ⟨th, hth, rfl⟩ := Option.map_eq_some_iff.1 hj
  split at hin
  · exact hpc hin
  · exact h.waits th (mem_of_getElem? hth) hin

theorem Inv.irqWait (h : s.Inv) (i : Nat) {j seen : Nat}
    (hc : ∀ g ∈ (deviceGrant t j rightSignal).toOption, s.HoldsVector g v ∧ s.since v ≤ seen) :
    (s.sysIrqWait i t j v seen).Inv := by
  unfold sysIrqWait
  split
  · exact h
  rename_i g hg
  rw [hg] at hc
  split
  · refine h.setPc i fun hin => ?_
    rcases hin with hin | hin
    · cases hin
      exact hc g rfl
    · cases hin
  · exact h

/-- A thread that finds interrupts finds those of its own grant. -/
theorem Inv.look (h : s.Inv) {th : IrqThread} (hth : s.threads[i]? = some th) :
    (s.look i th).1.Inv ∧ ∀ o ∈ (s.look i th).2, o.Own := by
  unfold IrqState.look
  split
  · rename_i g v seen hpc
    have hmem := mem_of_getElem? hth
    obtain ⟨hv, hs⟩ := h.waits th hmem (.inl hpc)
    split
    · refine ⟨h.setPc i fun hin => ?_, fun o ho => ?_⟩
      · rcases hin with hin | hin <;> cases hin
      · obtain ⟨e, he, rfl⟩ := mem_map.1 ho
        obtain ⟨j, hj⟩ := mem_iff_getElem?.1 he
        rw [List.getElem?_drop] at hj
        exact ⟨rfl, h.fired hv (Nat.le_trans hs (Nat.le_add_right _ _)) hj⟩
    · refine ⟨?_, nofun⟩
      have hpark : (s.setPc i (.parked g v seen)).Inv := by
        refine h.setPc i fun hin => ?_
        rcases hin with hin | hin
        · cases hin
        · cases hin
          exact ⟨hv, hs⟩
      exact ⟨hpark.alloc, hpark.uniq, hpark.fired, hpark.waits, hpark.attached, hpark.bound,
        hpark.queued, hpark.pending, hpark.handles⟩
  · exact ⟨h, nofun⟩

theorem Inv.recv (h : s.Inv) (ht : s.tables[pid]? = some t) (i : Nat) :
    (s.sysRecv pid t i).1.Inv ∧ ∀ o ∈ (s.sysRecv pid t i).2, o.Own := by
  have hsame : s.Inv ∧ ∀ o ∈ ([] : List Observed), o.Own :=
    ⟨h, nofun⟩
  unfold sysRecv
  split
  · exact hsame
  rename_i hd hget
  split
  · exact hsame
  split
  · rename_i c side hobj
    split
    · exact hsame
    rename_i ch hch
    split
    · exact hsame
    rename_i e rest hqueue
    obtain ⟨-, ch', hch', hpid⟩ := h.handles pid t ht hd (get_mem hget) c side hobj
    obtain rfl : ch = ch' := Option.some.inj (hch.symm.trans hch')
    have hlt := (List.getElem?_eq_some_iff.1 hch).1
    have hqueued := h.queued ch (mem_of_getElem? hch)
    rw [hqueue] at hqueued
    refine ⟨?_, fun o ho => ?_⟩
    · refine h.editChans ⟨rfl, rfl, rfl, rfl, rfl, rfl⟩ (List.Subset.refl _) (List.Subset.refl _)
        (length_set ..) fun {d ch'} hch' => ?_
      rcases getElem?_set_cases hch' with ⟨rfl, rfl⟩ | hch'
      · exact ⟨ch, hch, rfl, rfl, id, fun e' he' => hqueued e' (mem_cons_of_mem _ he')⟩
      · exact ⟨ch', hch', rfl, rfl, id, h.queued ch' (mem_of_getElem? hch')⟩
    · obtain rfl := mem_singleton.1 ho
      exact ⟨hpid.symm, hqueued e mem_cons_self⟩
  · exact hsame

theorem mem_holders (h : s.HoldsVector g v) : g ∈ s.holders v := by
  have hlt : g < s.grants.length := by
    by_contra hc
    unfold HoldsVector at h
    rw [getD_eq_getElem?_getD, List.getElem?_eq_none (Nat.le_of_not_lt hc)] at h
    cases h
  exact mem_filter.2 ⟨mem_range.2 hlt, decide_eq_true h⟩

theorem Inv.raise (h : s.Inv) (v : Nat) : (s.raise v).Inv := by
  refine ⟨h.alloc, h.uniq, ?_, h.waits, h.attached, h.bound, h.queued, ?_, h.handles⟩
  · intro g w i e hw hi he
    change (update s.raised v (s.raised v ++ [s.holders v]) w)[i]? = some e at he
    by_cases hwv : w = v
    · subst hwv
      rw [update_self] at he
      rcases getElem?_concat_cases he with he | ⟨-, rfl⟩
      · exact h.fired hw hi he
      · exact mem_holders hw
    · rw [update_of_ne hwv] at he
      exact h.fired hw hi he
  · intro hd hhd g hw
    rcases mem_append.1 hhd with hhd | hhd
    · exact h.pending hd hhd hw
    · obtain rfl := mem_singleton.1 hhd
      exact mem_holders hw

theorem Inv.wake (h : s.Inv) (v : Nat) : (s.wake v).Inv := by
  refine ⟨h.alloc, h.uniq, h.fired, ?_, h.attached, h.bound, h.queued, h.pending, h.handles⟩
  intro th' hth' g w seen hin
  obtain ⟨th, hth, hback⟩ := wake_threads hth'
  exact h.waits th hth (hback hin)

/-- The channel before the delivery: nothing but its queue changes, and what
is added is an interrupt that came while the grant held the vector. -/
theorem notified (h : s.Inv) {c : Nat} {e : Fired} {ch' : IrqChannel}
    (hi : s.handlers[i]? = some (v, e))
    (hch' : (s.chans.mapIdx fun c ch => if (v, c) ∈ s.attached then notify ch e else ch)[c]? =
      some ch') : ∃ ch, s.chans[c]? = some ch ∧ ch'.pid = ch.pid ∧ ch'.grant = ch.grant ∧
      ch'.closed = ch.closed ∧ ∀ e' ∈ ch'.queue, ch.grant ∈ e' := by
  rw [List.getElem?_mapIdx] at hch'
  obtain ⟨ch, hch, rfl⟩ := Option.map_eq_some_iff.1 hch'
  have hqueued := h.queued ch (mem_of_getElem? hch)
  refine ⟨ch, hch, ?_⟩
  split
  · rename_i hatt
    unfold notify
    split
    · exact ⟨rfl, rfl, rfl, hqueued⟩
    rename_i hsend
    rw [not_or, Bool.not_eq_true] at hsend
    refine ⟨rfl, rfl, rfl, fun e' he' => ?_⟩
    rcases mem_append.1 he' with he' | he'
    · exact hqueued e' he'
    · obtain rfl := mem_singleton.1 he'
      exact h.pending (v, e') (mem_of_getElem? hi) (h.attached (v, c) hatt ch hch hsend.2)
  · exact ⟨rfl, rfl, rfl, hqueued⟩

theorem Inv.deliver (h : s.Inv) (i : Nat) : (s.deliver i).Inv := by
  unfold IrqState.deliver
  split
  · exact h
  rename_i v e hi
  refine Inv.wake ?_ v
  refine h.editChans ⟨rfl, rfl, rfl, rfl, rfl, rfl⟩ (fun a => mem_of_mem_filter)
    (fun hd => mem_of_mem_eraseIdx) length_mapIdx fun {c ch'} hch' => ?_
  obtain ⟨ch, hch, hpid, hgrant, hclosed, hqueue⟩ := notified h hi hch'
  exact ⟨ch, hch, hpid, hgrant, fun ho => hclosed ▸ ho, hqueue⟩

end Calls

/-! ## Runs -/

/-- A call that reports nothing, on the table of a process that exists. -/
theorem inv_onTable {f : HandleTable → IrqState} (h : s.Inv)
    (hf : ∀ t, s.tables[pid]? = some t → (f t).Inv) :
    (s.onTable pid f).1.Inv ∧ ∀ o ∈ (s.onTable pid f).2, o.Own := by
  cases ht : s.tables[pid]? with
  | none =>
    simp only [onTable, ht]
    exact ⟨h, nofun⟩
  | some t =>
    simp only [onTable, ht]
    exact ⟨hf t ht, nofun⟩

theorem Inv.step (h : s.Inv) (hc : s.Careful a) : (s.step a).1.Inv ∧ ∀ o ∈ (s.step a).2, o.Own := by
  have hsame : s.Inv ∧ ∀ o ∈ ([] : List Observed), o.Own :=
    ⟨h, nofun⟩
  cases a with
  | deviceOpen pid i found =>
    exact inv_onTable h fun t ht => h.deviceOpen ht i found
  | irqAlloc pid i => exact inv_onTable h fun t ht => h.irqAlloc ht i hc.2.1
  | irqChannel pid i v => exact inv_onTable h fun t ht => h.irqChannel ht i v
  | irqWait i j v seen =>
    cases hth : s.threads[i]? with
    | none =>
      simp only [step, hth]
      exact hsame
    | some th =>
      simp only [step, hth]
      split
      · exact inv_onTable h fun t ht => h.irqWait i fun g hg => hc.2.2 th hth t ht g hg
      · exact hsame
  | look i =>
    cases hth : s.threads[i]? with
    | none =>
      simp only [step, hth]
      exact hsame
    | some th =>
      simp only [step, hth]
      exact h.look hth
  | recv pid i =>
    cases ht : s.tables[pid]? with
    | none =>
      simp only [step, ht]
      exact hsame
    | some t =>
      simp only [step, ht]
      exact h.recv ht i
  | handleClose pid i => exact inv_onTable h fun t ht => h.handleClose ht i hc.1
  | handleDuplicate pid i wanted =>
    exact inv_onTable h fun t ht => h.handleDuplicate ht i wanted
  | move pid i dest => exact inv_onTable h fun t ht => h.moveHandle ht i dest hc.1
  | raise v =>
    simp only [step]
    split
    · exact ⟨h.raise v, nofun⟩
    · exact hsame
  | deliver i => exact ⟨h.deliver i, nofun⟩

theorem Inv.run (h : s.Inv) {acts : List IrqAct} (hc : s.CarefulRun acts) :
    ∀ o ∈ (s.run acts).2, o.Own := by
  induction acts generalizing s with
  | nil => exact nofun
  | cons a acts ih =>
    obtain ⟨hinv, hown⟩ := h.step hc.1
    intro o ho
    rcases mem_append.1 ho with ho | ho
    · exact hown o ho
    · exact ih hinv hc.2 o ho

theorem inv_boot (grants : Nat) (drivers : List (List (Nat × UInt32))) (threads : List Nat) :
    (boot grants drivers threads).Inv := by
  have hnone : ∀ {g v}, ¬ (boot grants drivers threads).HoldsVector g v := by
    intro g v hv
    unfold HoldsVector boot at hv
    rw [getD_eq_getElem?_getD] at hv
    cases he : (List.replicate grants ([] : List Nat))[g]? with
    | none => simp [he] at hv
    | some vs =>
      rw [he] at hv
      obtain rfl := eq_of_mem_replicate (mem_of_getElem? he)
      cases hv
  refine ⟨fun hv => absurd hv hnone, fun hv => absurd hv hnone, fun hv => absurd hv hnone,
    fun th hth _ _ _ hin => ?_, nofun, nofun, nofun, nofun, fun pid t ht h hh c side hobj => ?_⟩
  · obtain ⟨pid, -, rfl⟩ := mem_map.1 hth
    rcases hin with hin | hin <;> cases hin
  obtain ⟨d, -, rfl⟩ := mem_map.1 (mem_of_getElem? ht)
  simp only [live, filterMap_map, mem_filterMap, Function.comp_apply,
    id_eq, Option.some.injEq] at hh
  obtain ⟨g, -, rfl⟩ := hh
  cases hobj

/-- In every careful run, whoever notices an interrupt made the call through
which it is noticed itself, on a grant that held the vector when the interrupt
came. -/
theorem interrupts_isolated (grants : Nat) (drivers : List (List (Nat × UInt32)))
    (threads : List Nat) (acts : List IrqAct) (hc : (boot grants drivers threads).CarefulRun acts) :
    ∀ o ∈ ((boot grants drivers threads).run acts).2, o.pid = o.caller ∧ o.grant ∈ o.fired :=
  (inv_boot grants drivers threads).run hc

/-- Two drivers, each with a grant and a thread of its own. -/
def sampleDrivers : IrqState := boot 2 [[(0, rightsDeviceDefault)], [(1, rightsDeviceDefault)]] [0, 1]

/-- The first driver takes a vector with a channel, the second one on which it
waits; both interrupts come and are noticed, and the first driver closes its
channel and then its grant. -/
def sampleIrqActs : List IrqAct :=
  [.irqAlloc 0 0, .irqChannel 0 0 0x50, .irqAlloc 1 0, .irqWait 1 0 0x51 0, .raise 0x50,
    .raise 0x51, .deliver 0, .look 1, .deliver 0, .recv 0 1, .handleClose 0 1, .handleClose 0 0]

theorem interrupts_isolated_sample :
    sampleDrivers.CarefulRun sampleIrqActs ∧ (sampleDrivers.run sampleIrqActs).2.length = 2 ∧
      ∀ o ∈ (sampleDrivers.run sampleIrqActs).2, o.pid = o.caller ∧ o.grant ∈ o.fired := by
  have hcareful : sampleDrivers.CarefulRun sampleIrqActs := by decide
  exact ⟨hcareful, by decide, interrupts_isolated _ _ _ sampleIrqActs hcareful⟩

/-- The second driver waits, on its own grant, on the vector of the first. -/
theorem waits_on_foreign_vector :
    ∃ o ∈ (sampleDrivers.run [.irqAlloc 0 0, .irqWait 1 0 0x50 0, .raise 0x50, .look 1]).2,
      ¬ (o.pid = o.caller ∧ o.grant ∈ o.fired) := by
  decide

end IrqState
end NexoOS.Kernel
