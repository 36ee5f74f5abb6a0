import NexoOS.Kernel.Ipc
import NexoOS.Lib.Tally

/-!
# Waiting for several channels

`wait_any` looks at every end, registers its thread on each of them, looks again
and goes to sleep for ten milliseconds. A send drains the registered threads and
calls `unpark` for each. That wakes a thread that is blocked, and `wait_any`
does not block: it sleeps. So what counts for the waiter is whether a message
comes while it is still going to look at the end it comes to.
-/

namespace NexoOS.Kernel.WaitAny

/-- The states of a thread that is not ending. -/
inductive ThreadState
  | ready | running | sleeping | blocked
  deriving Repr, DecidableEq

inductive Result
  | ok (index : Nat) | timedOut | peerClosed
  deriving Repr, DecidableEq

/-- Where the waiter is in `wait_any_impl`. In `slept` it is inside `sleep_ns`,
asleep or waiting for the rest of its time. -/
inductive Pc
  | check (i : Nat)
  | register (i : Nat)
  | recheck (i : Nat)
  | deadline
  | killed
  | slept
  | done (r : Result)
  deriving Repr, DecidableEq

/-- An end as its receiver sees it; `waiters` counts how often the waiter is
registered. -/
structure End where
  queued : Nat
  peerClosed : Bool
  waiters : Nat
  deriving Repr, DecidableEq

def End.readable (e : End) : Bool := e.queued ≠ 0 || e.peerClosed

/-- The waiter and what it shares with the others. `owed` has the end of a
delivery once for each `unpark` of the waiter the delivery has still to call. -/
structure System where
  pc : Pc
  state : ThreadState
  now : Nat
  wakeAt : Nat
  killed : Bool
  ends : Nat → End
  owed : List Nat

/-- The call: the ends it waits for and its deadline. -/
structure Wait where
  ends : List Nat
  deadline : Option Nat

/-- The polling tick, in nanoseconds. -/
def tickNs : Nat := 10 * 1000000

inductive Event
  /-- The waiter's next step, when it has a processor. -/
  | run
  | dispatch
  | preempt
  /-- The clock interrupt, `ns` later. -/
  | tick (ns : Nat)
  /-- The peer of an end sends, or closes. -/
  | send (c : Nat)
  | close (c : Nat)
  /-- A delivery calls the next `unpark`. -/
  | unpark
  /-- Another holder of the end receives. -/
  | recv (c : Nat)
  | kill
  deriving Repr, DecidableEq

namespace System

/-- `unpark` of the waiter. -/
def unpark (s : System) : System :=
  if s.state = .blocked then { s with state := .ready } else s

def setEnd (s : System) (c : Nat) (e : End) : System :=
  { s with ends := Function.update s.ends c e }

/-- The end has a message more or a peer less, and its waiters are drained. -/
def deliver (s : System) (c : Nat) (e : End) : System :=
  { s.setEnd c { e with waiters := 0 } with
    owed := s.owed ++ List.replicate (s.ends c).waiters c }

variable (w : Wait) (s : System)

/-- One step of `wait_any_impl`. -/
def advance : System :=
  match s.pc with
  | .check i =>
    match w.ends[i]? with
    | none => { s with pc := .register 0 }
    | some c => { s with pc := if (s.ends c).readable then .done (.ok i) else .check (i + 1) }
  | .register i =>
    match w.ends[i]? with
    | none => { s with pc := .recheck 0 }
    | some c =>
      { s.setEnd c { s.ends c with waiters := (s.ends c).waiters + 1 } with pc := .register (i + 1) }
  | .recheck i =>
    match w.ends[i]? with
    | none => { s with pc := .deadline }
    | some c => { s with pc := if (s.ends c).readable then .done (.ok i) else .recheck (i + 1) }
  | .deadline =>
    { s with pc := if w.deadline.any (· ≤ s.now) then .done .timedOut else .killed }
  | .killed =>
    if s.killed then { s with pc := .done .peerClosed }
    else { s with pc := .slept, state := .sleeping, wakeAt := s.now + tickNs }
  | .slept =>
    if s.killed then { s with pc := .check 0 }
    else if s.now < s.wakeAt then { s with state := .ready }
    else { s with pc := .check 0 }
  | .done _ => s

def step : Event → System
  | .run => if s.state = .running then s.advance w else s
  | .dispatch => if s.state = .ready then { s with state := .running } else s
  | .preempt => if s.state = .running then { s with state := .ready } else s
  | .tick ns =>
    { s with
      now := s.now + ns
      state := if s.state = .sleeping ∧ s.wakeAt ≤ s.now + ns then .ready else s.state }
  | .send c =>
    if channelQueueMax ≤ (s.ends c).queued then s
    else s.deliver c { s.ends c with queued := (s.ends c).queued + 1 }
  | .close c =>
    if (s.ends c).peerClosed then s else s.deliver c { s.ends c with peerClosed := true }
  | .unpark =>
    match s.owed with
    | [] => s
    | _ :: owed => { s.unpark with owed }
  | .recv c => s.setEnd c { s.ends c with queued := (s.ends c).queued - 1 }
  | .kill => { s.unpark with killed := true }

/-- The waiter enters the call. -/
def Enters : Prop := s.pc = .check 0 ∧ s.state = .running

/-- No message and no close whose delivery is over is left to a sleeping waiter. -/
def Prompt : Prop :=
  s.state = .sleeping ∨ s.state = .blocked →
    ∀ c ∈ w.ends, (s.ends c).readable → c ∈ s.owed

/-- The waiter looks at the end before it sleeps. -/
def WillLook (c : Nat) : Prop :=
  match s.pc with
  | .check _ | .register _ | .done _ => True
  | .recheck i => c ∈ w.ends.drop i
  | .deadline | .killed => False
  | .slept => s.state ≠ .sleeping

instance (w : Wait) (s : System) (c : Nat) : Decidable (s.WillLook w c) := by
  unfold WillLook
  cases s.pc <;> infer_instance

/-- A delivery comes while the waiter will still look at its end. -/
def Timely : Event → Prop
  | .send c | .close c => c ∈ w.ends → s.WillLook w c
  | _ => True

instance (w : Wait) (s : System) (e : Event) : Decidable (s.Timely w e) := by
  cases e <;> unfold Timely <;> infer_instance

/-! ## What a step keeps -/

/-- What is ready will be seen, and the waiter sleeps in `sleep_ns` only. -/
structure Attentive (w : Wait) (s : System) : Prop where
  looks : ∀ c ∈ w.ends, (s.ends c).readable → s.WillLook w c
  asleep : s.state = .sleeping → s.pc = .slept
  unblocked : s.state ≠ .blocked

variable {w : Wait} {s : System}

theorem Attentive.prompt (h : s.Attentive w) : s.Prompt w := by
  rintro (hs | hs) c hc hr
  · have := h.looks c hc hr
    simp only [WillLook, h.asleep hs] at this
    exact absurd hs this
  · exact absurd hs h.unblocked

theorem attentive_of_enters (h : s.Enters) : s.Attentive w where
  looks c _ _ := by simp [WillLook, h.1]
  asleep hs := by simp [h.2] at hs
  unblocked := by simp [h.2]

section
variable (h : s.Attentive w)
include h

theorem Attentive.look {s' : System} (hstate : s'.state = s.state)
    (hrun : s.state = .running) (hlook : ∀ c, s'.WillLook w c) : s'.Attentive w where
  looks c _ _ := hlook c
  asleep hs := by simp [hstate, hrun] at hs
  unblocked := hstate ▸ h.unblocked

theorem Attentive.advance (hrun : s.state = .running) : (s.advance w).Attentive w := by
  unfold System.advance
  split
  case h_1 i hpc =>
    split
    · exact h.look rfl hrun fun c => by simp [WillLook]
    · rename_i d hd
      exact h.look rfl hrun fun c => by cases hr : (s.ends d).readable <;> simp [WillLook]
  case h_2 i hpc =>
    split
    · exact { h with looks := fun c hc _ => by simpa [WillLook] using hc,
                     asleep := fun hs => by simp [hrun] at hs }
    · exact h.look rfl hrun fun c => by simp [WillLook]
  case h_3 i hpc =>
    split
    · rename_i hend
      refine { h with looks := fun c hc hr => ?_, asleep := fun hs => by simp [hrun] at hs }
      have := h.looks c hc hr
      simp only [WillLook, hpc, List.drop_eq_nil_of_le (List.getElem?_eq_none_iff.1 hend)] at this
      exact absurd this List.not_mem_nil
    · rename_i d hd
      refine { h with looks := fun c hc hr => ?_, asleep := fun hs => by simp [hrun] at hs }
      by_cases hready : (s.ends d).readable = true
      · simp [WillLook, hready]
      -- the end looked at is not ready, so what is ready is among the rest
      have := h.looks c hc hr
      obtain ⟨hlt, hget⟩ := List.getElem?_eq_some_iff.1 hd
      simp only [WillLook, hpc, List.drop_eq_getElem_cons hlt, hget, List.mem_cons] at this
      simp only [WillLook, if_neg hready]
      exact this.resolve_left fun heq => hready (heq ▸ hr)
  case h_4 hpc =>
    refine { h with looks := fun c hc hr => ?_, asleep := fun hs => by simp [hrun] at hs }
    have := h.looks c hc hr
    simp only [WillLook, hpc] at this
  case h_5 hpc =>
    have hnone : ∀ c ∈ w.ends, ¬ (s.ends c).readable = true := fun c hc hr => by
      simpa only [WillLook, hpc] using h.looks c hc hr
    split
    · exact h.look rfl hrun fun c => by simp [WillLook]
    · exact ⟨fun c hc hr => absurd hr (hnone c hc), fun _ => rfl, nofun⟩
  case h_6 hpc =>
    split
    · exact h.look rfl hrun fun c => by simp [WillLook]
    split
    · exact ⟨fun c _ _ => by simp [WillLook, hpc], nofun, nofun⟩
    · exact h.look rfl hrun fun c => by simp [WillLook]
  case h_7 => exact h

theorem Attentive.deliver (c : Nat) (e : End) (hc : c ∈ w.ends → s.WillLook w c) :
    (s.deliver c e).Attentive w where
  __ := h
  looks d hd hr := by
    by_cases hdc : d = c
    · subst hdc
      exact hc hd
    · exact h.looks d hd (by simpa [System.deliver, setEnd, Function.update_of_ne hdc] using hr)

theorem Attentive.setState {state : ThreadState}
    (hnew : state ≠ .sleeping) (hb : state ≠ .blocked) : { s with state }.Attentive w := by
  refine ⟨fun c hc hr => ?_, fun heq => absurd heq hnew, hb⟩
  have := h.looks c hc hr
  unfold WillLook at this ⊢
  split at this <;> simp_all

theorem Attentive.unpark : s.unpark = s := if_neg h.unblocked

theorem Attentive.step (e : Event) (he : s.Timely w e) : (s.step w e).Attentive w := by
  cases e with
  | run =>
    simp only [System.step]
    split
    · exact h.advance ‹_›
    · exact h
  | dispatch | preempt =>
    simp only [System.step]
    split
    · exact h.setState nofun nofun
    · exact h
  | tick ns =>
    simp only [System.step]
    split
    · rename_i hdue
      refine ⟨fun c hc hr => ?_, nofun, nofun⟩
      have := h.looks c hc hr
      simp only [WillLook, h.asleep hdue.1] at this
      exact absurd hdue.1 this
    · exact ⟨h.looks, h.asleep, h.unblocked⟩
  | send c | close c =>
    simp only [System.step]
    split
    · exact h
    · exact h.deliver c _ he
  | unpark =>
    simp only [System.step]
    split
    · exact h
    · rw [h.unpark]
      exact ⟨h.looks, h.asleep, h.unblocked⟩
  | recv c =>
    refine ⟨fun d hd hr => h.looks d hd ?_, h.asleep, h.unblocked⟩
    by_cases hdc : d = c
    · subst hdc
      simp only [System.step, setEnd, Function.update_self, End.readable, ne_eq,
        Bool.or_eq_true, decide_eq_true_eq] at hr ⊢
      exact hr.imp_left fun hr heq => hr (by simp [heq])
    · simpa [System.step, setEnd, Function.update_of_ne hdc] using hr
  | kill =>
    simp only [System.step, h.unpark]
    exact ⟨h.looks, h.asleep, h.unblocked⟩

end

/-- In every run from a call of `wait_any` in which messages and closes come
while the waiter is still going to look at their end, it never sleeps while one
whose delivery is over waits for it. -/
theorem timely_run_prompt (w : Wait) (s : System) (hs : s.Enters) (es : List Event)
    (hes : Along (System.step w) (System.Timely w) s es) :
    ∀ es', es' <+: es → (es'.foldl (System.step w) s).Prompt w := by
  intro es' hes'
  exact (hes.inv (I := System.Attentive w) (fun _ e h he => h.step e he) (attentive_of_enters hs) es'
    hes').prompt

/-- A call that waits for end 0, with nothing there. -/
def quiet : System :=
  { pc := .check 0, state := .running, now := 0, wakeAt := 0, killed := false,
    ends := fun _ => { queued := 0, peerClosed := false, waiters := 0 }, owed := [] }

/-- The message comes between the registration and the second look. -/
theorem timely_run_prompt_secondLook :
    ([Event.run, .run, .run, .run, .send 0, .unpark, .run].foldl (System.step ⟨[0], none⟩)
      quiet).Prompt ⟨[0], none⟩ :=
  timely_run_prompt ⟨[0], none⟩ quiet ⟨rfl, rfl⟩
    [.run, .run, .run, .run, .send 0, .unpark, .run] (by decide) _ (List.prefix_refl _)

/-- The waiter sleeps, a message comes, the sender wakes it and returns; it
sleeps on. -/
theorem send_leaves_waiter_asleep :
    ¬ ((List.replicate 8 Event.run ++ [Event.send 0, .unpark, .tick 1]).foldl
      (System.step ⟨[0], none⟩) quiet).Prompt ⟨[0], none⟩ := by
  intro h
  exact absurd (h (.inl (by decide)) 0 (by decide) (by decide)) (by decide)

end System
end NexoOS.Kernel.WaitAny
