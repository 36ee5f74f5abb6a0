import NexoOS.Kernel.Ipc
import NexoOS.Lib.Stores
import NexoOS.Lib.Tally

/-!
# The quota of shared memory

`sys_memory_create` and the destructor of `MemoryObject`, cut at their atomic
operations on `shm_pages`, under every interleaving of the threads of the system.
A reference to an object is a handle in a table or in a queue, or in the hands of
a call; which of these it is makes no difference here, so that transfers, closes
and the end of a process are gains and losses of references. The counters are not
cut to 64 bits: to reach the limit of the type, 2^56 threads would have to be in
the call at once.
-/

namespace NexoOS.Kernel.Shm

open Function

/-- Where a `memory_create` stands. -/
inductive Phase where
  /-- `fetch_add` has returned `prev`. -/
  | added (prev : Nat)
  /-- The quota was enough; so many frames are allocated. -/
  | allocating (got : Nat)
  /-- It fails, and has yet to give its pages back to the quota. -/
  | failing
  deriving DecidableEq

structure Creation where
  pid : Nat
  pages : Nat
  phase : Phase
  deriving DecidableEq

/-- A live object: its destructor has not run. -/
structure Shared where
  owner : Nat
  pages : Nat
  refs : Nat
  deriving DecidableEq

structure State where
  /-- `shm_pages` by process. -/
  counter : Nat → Nat
  /-- No `Arc` of the process is left, so that `owner.upgrade()` fails. -/
  dropped : Nat → Bool
  creating : List Creation
  objects : List Shared

def State.start : State where
  counter := fun _ => 0
  dropped := fun _ => false
  creating := []
  objects := []

inductive Event where
  /-- A thread of `pid` calls `memory_create`: the check of the argument and the
  `fetch_add`. -/
  | create (pid pages : Nat)
  /-- The comparison of `prev + pages` with the limit. -/
  | check (i : Nat)
  /-- One `allocate_zeroed_frame`, which may find none. -/
  | frame (i : Nat) (found : Bool)
  /-- The `fetch_sub` of a call that fails. -/
  | giveBack (i : Nat)
  /-- The object is built; the call has its first reference, for the handle. -/
  | build (i : Nat)
  | share (o : Nat)
  | release (o : Nat)
  /-- `MemoryObject::drop`. -/
  | destroy (o : Nat)
  /-- The last `Arc` of a process goes; a running call holds one. -/
  | reap (pid : Nat)

namespace State

variable (s : State)

def setCreation (i : Nat) (c : Creation) : State :=
  { s with creating := s.creating.set i c }

/-- What an event does to the call number `i`. -/
def onCreation (i : Nat) (f : Creation → State) : State :=
  match s.creating[i]? with
  | none => s
  | some c => f c

def onShared (o : Nat) (f : Shared → State) : State :=
  match s.objects[o]? with
  | none => s
  | some x => f x

/-- An event that cannot occur changes nothing. -/
def step : Event → State
  | .create pid pages =>
    if s.dropped pid ∨ pages = 0 ∨ pages > memoryMaxPages then s
    else
      { s with
        counter := update s.counter pid (s.counter pid + pages)
        creating := s.creating ++ [⟨pid, pages, .added (s.counter pid)⟩] }
  | .check i => s.onCreation i fun c =>
    match c.phase with
    | .added prev =>
      s.setCreation i { c with
        phase := if prev + c.pages > shmPagesMaxPerProcess then .failing else .allocating 0 }
    | _ => s
  | .frame i found => s.onCreation i fun c =>
    match c.phase with
    | .allocating got =>
      if got = c.pages then s
      else s.setCreation i { c with phase := if found then .allocating (got + 1) else .failing }
    | _ => s
  | .giveBack i => s.onCreation i fun c =>
    if c.phase = .failing then
      { s with
        counter := update s.counter c.pid (s.counter c.pid - c.pages)
        creating := s.creating.eraseIdx i }
    else s
  | .build i => s.onCreation i fun c =>
    if c.phase = .allocating c.pages then
      { s with
        creating := s.creating.eraseIdx i
        objects := s.objects ++ [⟨c.pid, c.pages, 1⟩] }
    else s
  | .share o => s.onShared o fun x =>
    if x.refs = 0 then s else { s with objects := s.objects.set o { x with refs := x.refs + 1 } }
  | .release o => s.onShared o fun x =>
    if x.refs = 0 then s else { s with objects := s.objects.set o { x with refs := x.refs - 1 } }
  | .destroy o => s.onShared o fun x =>
    if x.refs = 0 then
      { s with
        counter := if s.dropped x.owner then s.counter
          else update s.counter x.owner (s.counter x.owner - x.pages)
        objects := s.objects.eraseIdx o }
    else s
  | .reap pid =>
    if ∃ c ∈ s.creating, c.pid = pid then s
    else { s with dropped := update s.dropped pid true }

end State

/-! ## Accounts -/

variable (pid : Nat)

def Shared.of (x : Shared) : Nat := if x.owner = pid then x.pages else 0

variable (c : Creation)

def Creation.of : Nat := if c.pid = pid then c.pages else 0

/-- The call has passed the check of the quota or will pass it. -/
def Creation.Granted : Prop :=
  match c.phase with
  | .added prev => prev + c.pages ≤ shmPagesMaxPerProcess
  | .allocating _ => True
  | .failing => False

instance (c : Creation) : Decidable c.Granted := by
  unfold Creation.Granted
  split <;> infer_instance

def Creation.granted : Nat := if c.Granted then c.of pid else 0

/-- Pages of the live objects that the process created. -/
def State.livePages (s : State) (pid : Nat) : Nat := tally (Shared.of pid) s.objects

/-- The counter is what is live and what the calls under way have added; what is
live and what is granted stay within the limit. -/
structure Balanced (s : State) : Prop where
  account : ∀ pid, s.dropped pid = false →
    s.counter pid = s.livePages pid + tally (Creation.of pid) s.creating
  within : ∀ pid, s.livePages pid + tally (Creation.granted pid) s.creating ≤ shmPagesMaxPerProcess

theorem Creation.granted_le : c.granted pid ≤ c.of pid := by
  unfold granted
  split
  · exact Nat.le_refl _
  · exact Nat.zero_le _

namespace Balanced

open State (livePages)
open Creation (granted Granted)

variable {s : State} {i o : Nat} {c c' : Creation} {x x' : Shared}

section
variable (h : Balanced s)
include h

theorem create (pid pages : Nat) (hlive : s.dropped pid = false) : Balanced { s with
      counter := update s.counter pid (s.counter pid + pages)
      creating := s.creating ++ [⟨pid, pages, .added (s.counter pid)⟩] } := by
  constructor
  case account =>
    intro q hq
    have := h.account q hq
    by_cases heq : q = pid
    · subst heq
      simp only [livePages, update_self, tally_append, tally_cons, tally_nil,
        Creation.of, if_true] at this ⊢
      omega
    · simp only [livePages, update_of_ne heq, tally_append, tally_cons, tally_nil,
        Creation.of, if_neg (Ne.symm heq)] at this ⊢
      omega
  case within =>
    intro q
    have hq := h.within q
    simp only [livePages, tally_append, tally_cons, tally_nil, granted,
      Granted, Creation.of] at hq ⊢
    split
    · rename_i hgranted
      split
      · -- the counter that the call saw had all that is granted
        rename_i heq
        subst heq
        have hacc := h.account pid hlive
        have hle := tally_mono (Creation.granted_le pid) s.creating
        simp only [livePages] at hacc
        omega
      · omega
    · omega

/-- A call moves on; it is granted nothing that it was not granted before. -/
theorem move (hc : s.creating[i]? = some c) (hpid : c'.pid = c.pid)
    (hpages : c'.pages = c.pages) (hgranted : c'.Granted → c.Granted) :
    Balanced (s.setCreation i c') := by
  have hof : ∀ q, c'.of q = c.of q := by
    intro q
    simp only [Creation.of, hpid, hpages]
  constructor
  case account =>
    intro q hq
    have hset := tally_set (f := Creation.of q) hc c'
    have := h.account q hq
    simp only [State.setCreation, livePages, hof] at hset this ⊢
    omega
  case within =>
    intro q
    have hset := tally_set (f := granted q) hc c'
    have hle : c'.granted q ≤ c.granted q := by
      unfold granted
      split
      · exact Nat.le_of_eq (by rw [if_pos (hgranted ‹_›), hof])
      · exact Nat.zero_le _
    have := h.within q
    simp only [State.setCreation, livePages] at this ⊢
    omega

theorem giveBack (hc : s.creating[i]? = some c) : Balanced { s with
      counter := update s.counter c.pid (s.counter c.pid - c.pages)
      creating := s.creating.eraseIdx i } := by
  constructor
  case account =>
    intro q hq
    have herase := tally_eraseIdx (f := Creation.of q) hc
    have := h.account q hq
    by_cases heq : q = c.pid
    · subst heq
      simp only [livePages, update_self, Creation.of, if_true] at this herase ⊢
      omega
    simp only [livePages, update_of_ne heq, Creation.of,
      if_neg (Ne.symm heq)] at this herase ⊢
    omega
  case within =>
    intro q
    have herase := tally_eraseIdx (f := granted q) hc
    have := h.within q
    simp only [livePages] at this ⊢
    omega

theorem build (hc : s.creating[i]? = some c) (hgranted : c.Granted) : Balanced { s with
      creating := s.creating.eraseIdx i, objects := s.objects ++ [⟨c.pid, c.pages, 1⟩] } := by
  have hof : ∀ q, Shared.of q ⟨c.pid, c.pages, 1⟩ = c.of q := fun q => rfl
  constructor
  case account =>
    intro q hq
    have herase := tally_eraseIdx (f := Creation.of q) hc
    have := h.account q hq
    simp only [livePages, tally_append, tally_cons, tally_nil, hof] at this ⊢
    omega
  case within =>
    intro q
    have herase := tally_eraseIdx (f := granted q) hc
    have hall : c.granted q = c.of q := if_pos hgranted
    have := h.within q
    simp only [livePages, tally_append, tally_cons, tally_nil, hof] at this ⊢
    omega

theorem refs (hx : s.objects[o]? = some x) (n : Nat) :
    Balanced { s with objects := s.objects.set o { x with refs := n } } := by
  have hlive : ∀ q, tally (Shared.of q) (s.objects.set o { x with refs := n }) = s.livePages q := by
    intro q
    have := tally_set (f := Shared.of q) hx { x with refs := n }
    have hof : Shared.of q { x with refs := n } = x.of q := rfl
    simp only [livePages]
    omega
  exact ⟨fun q hq => (h.account q hq).trans (by rw [livePages, livePages, hlive]; rfl),
    fun q => by simpa only [livePages, hlive] using h.within q⟩

theorem destroy (hx : s.objects[o]? = some x) : Balanced { s with
      counter := if s.dropped x.owner then s.counter
        else update s.counter x.owner (s.counter x.owner - x.pages)
      objects := s.objects.eraseIdx o } := by
  constructor
  case account =>
    intro q hq
    have herase := tally_eraseIdx (f := Shared.of q) hx
    have := h.account q hq
    dsimp only at hq ⊢
    by_cases heq : q = x.owner
    · subst heq
      rw [hq, if_neg Bool.false_ne_true, update_self]
      simp only [livePages, Shared.of, if_true] at this herase ⊢
      omega
    · have hcounter : (if s.dropped x.owner then s.counter
          else update s.counter x.owner (s.counter x.owner - x.pages)) q = s.counter q := by
        split
        · rfl
        · exact update_of_ne heq ..
      rw [hcounter]
      simp only [livePages, Shared.of, if_neg (Ne.symm heq)] at this herase ⊢
      omega
  case within =>
    intro q
    have herase := tally_eraseIdx (f := Shared.of q) hx
    have := h.within q
    simp only [livePages] at this ⊢
    omega

theorem step (e : Event) : Balanced (s.step e) := by
  cases e with
  | create pid pages =>
    dsimp only [State.step]
    split
    · exact h
    · rename_i hok
      exact h.create pid pages (by simpa using fun hd => hok (.inl hd))
  | check i =>
    dsimp only [State.step, State.onCreation]
    split
    · exact h
    rename_i c hc
    split
    · rename_i prev hphase
      refine h.move hc rfl rfl fun hg => ?_
      by_cases hover : prev + c.pages > shmPagesMaxPerProcess
      · simp only [Granted, if_pos hover] at hg
      · simp only [Granted, hphase]
        omega
    · exact h
  | frame i found =>
    dsimp only [State.step, State.onCreation]
    split
    · exact h
    rename_i c hc
    split
    · rename_i got hphase
      split
      · exact h
      · refine h.move hc rfl rfl fun _ => ?_
        simp only [Granted, hphase]
    · exact h
  | giveBack i =>
    dsimp only [State.step, State.onCreation]
    split
    · exact h
    rename_i c hc
    split
    · exact h.giveBack hc
    · exact h
  | build i =>
    dsimp only [State.step, State.onCreation]
    split
    · exact h
    rename_i c hc
    split
    · rename_i hphase
      exact h.build hc (by simp only [Granted, hphase])
    · exact h
  | share o | release o =>
    dsimp only [State.step, State.onShared]
    split
    · exact h
    split
    · exact h
    · exact h.refs ‹_› _
  | destroy o =>
    dsimp only [State.step, State.onShared]
    split
    · exact h
    split
    · exact h.destroy ‹_›
    · exact h
  | reap pid =>
    dsimp only [State.step]
    split
    · exact h
    refine ⟨fun q hq => h.account q ?_, h.within⟩
    by_cases heq : q = pid
    · subst heq
      simp at hq
    · simpa only [update_of_ne heq] using hq

end

end Balanced

/-- In every interleaving, the live objects that a process created stay within the
limit, and while none of its threads is in `memory_create` its counter is the sum
of their pages. -/
theorem shm_quota_exact (es : List Event) (pid : Nat) :
    (es.foldl State.step .start).livePages pid ≤ shmPagesMaxPerProcess ∧
      ((es.foldl State.step .start).dropped pid = false →
        (∀ c ∈ (es.foldl State.step .start).creating, c.pid ≠ pid) →
        (es.foldl State.step .start).counter pid = (es.foldl State.step .start).livePages pid) := by
  have hstart : Balanced State.start := ⟨fun _ _ => rfl, fun _ => Nat.zero_le _⟩
  have h := foldl_inv (I := Balanced) (fun s e hs => hs.step e) hstart es
  refine ⟨Nat.le_trans (Nat.le_add_right _ _) (h.within pid), fun hlive hidle => ?_⟩
  have hzero : tally (Creation.of pid) (es.foldl State.step .start).creating = 0 :=
    tally_eq_zero fun c hc => if_neg (hidle c hc)
  rw [h.account pid hlive, hzero, Nat.add_zero]

/-- A call for two pages that gets them beside one that finds no frame. -/
def twoCreations : List Event :=
  [.create 0 2, .create 0 3, .check 1, .check 0, .frame 0 true, .frame 1 false, .frame 0 true,
    .build 0, .giveBack 0]

theorem shm_quota_exact_twoCreations : (twoCreations.foldl State.step .start).livePages 0 = 2 ∧
      (twoCreations.foldl State.step .start).counter 0 = 2 := by
  have hlive : (twoCreations.foldl State.step .start).livePages 0 = 2 := by decide
  refine ⟨hlive, ?_⟩
  rw [(shm_quota_exact twoCreations 0).2 rfl (by decide)]
  exact hlive

end NexoOS.Kernel.Shm
