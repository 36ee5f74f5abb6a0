import NexoOS.Lib.Stores

/-!
# Waiting for an interrupt

`wait` of `kernel/src/irq.rs` on one CPU against `on_interrupt` on another, in
the steps between which the other side can run. `WAITERS` and the lock of the
scheduler are held as the program counters say: the thread checks the count and
lists itself under the first, takes the second, and gives up the first before it
is marked blocked; the handler counts under neither.
-/

namespace NexoOS.Kernel.IrqWait

/-- Where the thread is in `wait` and `park_with`. -/
inductive WaitPc where
  | start
  | locked
  | checked
  | listed
  | parking
  | switching
  | blocked
  | returned (count : Nat)
  deriving DecidableEq

/-- Where the handler is in `on_interrupt`; `idle` when it has returned. -/
inductive IrqPc where
  | idle
  | counted
  | draining
  | waking
  | unparking
  deriving DecidableEq

def WaitPc.holdsWaiters (pc : WaitPc) : Bool :=
  pc = .locked || pc = .checked || pc = .listed || pc = .parking

def WaitPc.holdsSched (pc : WaitPc) : Bool := pc = .parking || pc = .switching

/-- `unpark`: only a blocked thread becomes ready, to check again. -/
def WaitPc.unparked (pc : WaitPc) : WaitPc := if pc = .blocked then .start else pc

/-- `entries` counts the thread in `WAITERS`, where a wakeup by somebody else
leaves it, `owed` the calls of `unpark` the handler has still to make for it. -/
structure World where
  count : Nat
  waiter : WaitPc
  handler : IrqPc
  entries : Nat
  owed : Nat
  deriving DecidableEq

namespace World

def waiterStep (seen : Nat) (w : World) : World :=
  match w.waiter with
  | .start => if w.handler = .draining then w else { w with waiter := .locked }
  | .locked =>
    if w.count > seen then { w with waiter := .returned w.count }
    else { w with waiter := .checked }
  | .checked => { w with entries := w.entries + 1, waiter := .listed }
  | .listed => if w.handler = .unparking then w else { w with waiter := .parking }
  | .parking => { w with waiter := .switching }
  | .switching => { w with waiter := .blocked }
  | .blocked => w
  | .returned _ => w

def handlerStep (w : World) : World :=
  match w.handler with
  | .idle => { w with count := w.count + 1, handler := .counted }
  | .counted => if w.waiter.holdsWaiters then w else { w with handler := .draining }
  | .draining => { w with owed := w.entries, entries := 0, handler := .waking }
  | .waking =>
    if w.owed = 0 then { w with handler := .idle }
    else if w.waiter.holdsSched then w
    else { w with handler := .unparking }
  | .unparking =>
    { w with owed := w.owed - 1, waiter := w.waiter.unparked, handler := .waking }

/-- Somebody else wakes the thread. -/
def otherStep (w : World) : World :=
  if w.waiter.holdsSched ∨ w.handler = .unparking then w
  else { w with waiter := w.waiter.unparked }

inductive Party where
  | waiter
  | handler
  | other

def step (seen : Nat) (w : World) : Party → World
  | .waiter => w.waiterStep seen
  | .handler => w.handlerStep
  | .other => w.otherStep

/-- The thread calls `wait` while no interrupt is handled. -/
def called (count entries : Nat) : World :=
  { count, waiter := .start, handler := .idle, entries, owed := 0 }

/-- Between its check and the switch the thread cannot be overtaken: an interrupt
counted there waits for `WAITERS`. After that it is listed, or owed a wakeup. -/
structure Inv (seen : Nat) (w : World) : Prop where
  waitersLock : w.waiter.holdsWaiters = true → w.handler ≠ .draining
  schedLock : w.waiter.holdsSched = true → w.handler ≠ .unparking
  listed : w.waiter = .listed ∨ w.waiter = .parking → 0 < w.entries
  parked : w.waiter = .switching ∨ w.waiter = .blocked → 0 < w.entries ∨ 0 < w.owed
  owes : 0 < w.owed → w.handler = .waking ∨ w.handler = .unparking
  late : w.waiter = .checked ∨ w.waiter = .listed ∨ w.waiter = .parking → seen < w.count →
    w.handler = .counted
  woken : w.waiter = .switching ∨ w.waiter = .blocked → seen < w.count →
    w.handler = .counted ∨ w.handler = .draining ∨ 0 < w.owed
  result : ∀ c, w.waiter = .returned c → seen < c

variable {seen : Nat} {w : World}

theorem Inv.waiterStep (h : w.Inv seen) : (w.waiterStep seen).Inv seen := by
  obtain ⟨count, waiter, handler, entries, owed⟩ := w
  obtain ⟨h1, h2, h3, h4, h5, h6, h7, h8⟩ := h
  cases waiter with
  | locked =>
    -- the thread goes on only if no interrupt past `seen` has been counted
    simp only [World.waiterStep]
    split <;> constructor <;> simp_all [WaitPc.holdsWaiters, WaitPc.holdsSched]
  | _ =>
    simp only [World.waiterStep]
    (try split) <;> constructor <;> simp_all [WaitPc.holdsWaiters, WaitPc.holdsSched]

theorem Inv.handlerStep (h : w.Inv seen) : w.handlerStep.Inv seen := by
  obtain ⟨count, waiter, handler, entries, owed⟩ := w
  obtain ⟨h1, h2, h3, h4, h5, h6, h7, h8⟩ := h
  cases handler with
  | unparking =>
    -- the scheduler's lock is the handler's, so the thread is not on its way to a switch
    simp only [World.handlerStep, WaitPc.unparked]
    split <;> constructor <;> simp_all [WaitPc.holdsWaiters, WaitPc.holdsSched]
  | _ =>
    simp only [World.handlerStep]
    (repeat' split) <;> constructor <;> simp_all [WaitPc.holdsWaiters, WaitPc.holdsSched]

theorem Inv.otherStep (h : w.Inv seen) : w.otherStep.Inv seen := by
  unfold World.otherStep WaitPc.unparked
  split
  · exact h
  split
  · have howes := h.owes
    constructor <;> simp_all [WaitPc.holdsWaiters, WaitPc.holdsSched]
  · exact h

theorem Inv.step (h : w.Inv seen) (p : Party) : (w.step seen p).Inv seen := by
  cases p with
  | waiter => exact h.waiterStep
  | handler => exact h.handlerStep
  | other => exact h.otherStep

theorem Inv.run (count entries : Nat) (ps : List Party) :
    (ps.foldl (World.step seen) (called count entries)).Inv seen := by
  refine foldl_inv (I := Inv seen) (fun _ p h => h.step p) ?_ ps
  constructor <;> simp [called, WaitPc.holdsWaiters, WaitPc.holdsSched]

/-- Whatever the order of the steps: once `on_interrupt` has returned and the count is
past `seen`, the thread is not blocked, and its next check makes `wait` return. -/
theorem wakeup_not_lost (seen count entries : Nat) (ps : List Party) :
    let w := ps.foldl (World.step seen) (called count entries)
    w.handler = .idle → seen < w.count → w.waiter ≠ .blocked ∧
      ∃ c, seen < c ∧ ((w.waiterStep seen).waiterStep seen).waiter = .returned c := by
  intro w hidle hcount
  have h : w.Inv seen := Inv.run count entries ps
  have howed : ¬ 0 < w.owed := fun ho => by simpa [hidle] using h.owes ho
  have hwoken := h.woken
  have hlate := h.late
  simp only [hidle, reduceCtorEq, false_or, howed] at hwoken hlate
  cases hw : w.waiter with
  | start =>
    refine ⟨nofun, w.count, hcount, ?_⟩
    simp [World.waiterStep, hw, hidle, hcount]
  | locked =>
    refine ⟨nofun, w.count, hcount, ?_⟩
    simp [World.waiterStep, hw, hcount]
  | returned c =>
    refine ⟨nofun, c, h.result c hw, ?_⟩
    simp [World.waiterStep, hw]
  | blocked => exact absurd hcount fun hc => hwoken (.inr hw) hc
  | switching => exact absurd hcount fun hc => hwoken (.inl hw) hc
  | _ => exact absurd hcount fun hc => hlate (by simp [hw]) hc

/-- An interrupt counted between the check and the switch. -/
theorem wakeup_not_lost_between :
    let w := ([.waiter, .waiter, .waiter, .handler, .waiter, .waiter, .handler, .waiter, .handler,
      .handler, .handler, .handler] : List Party).foldl (World.step 7) (called 7 0)
    (w.handler = .idle ∧ 7 < w.count) ∧ w.waiter ≠ .blocked :=
  ⟨by decide, (wakeup_not_lost 7 7 0 _ (by decide) (by decide)).1⟩

end World
end NexoOS.Kernel.IrqWait
