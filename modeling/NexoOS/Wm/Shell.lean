import NexoOS.Wm.Core

/-!
# The privileges of the shell

The shell is the session in slot `0`. Slots are reused: an `open` that is
served after the bootstrap session disconnected puts the new session there. In
the runs without such an `open` the privileges stay with the bootstrap session.
-/

namespace NexoOS.Wm

open Function State

namespace State

variable (st : State)

/-! ## What keeps the table of sessions -/

theorem lossOf_sessions (slot : Fin maxClients) (id : Nat) (lost : Fin maxSurfaces → Bool) :
    ((st.lossOf slot id lost).apply st.core).sessions = st.sessions := by
  unfold lossOf
  split
  · rfl
  · split <;> rfl

theorem serve_sessions (slot : Fin maxClients) (mem : Option Nat) {rq : Request}
    (h : rq ≠ .openSession) : (st.serve slot mem rq).1.sessions = st.sessions := by
  refine (congrArg Core.sessions (st.serve_core slot mem rq)).trans ?_
  cases rq with
  | openSession => exact absurd rfl h
  | switchContext =>
    dsimp only [requestEffect]
    split <;> rfl
  | destroy id | resize id | maximize id | restore id => exact st.lossOf_sessions slot id _
  | createSurface | setContext | grab | ungrab =>
    dsimp only [requestEffect]
    split
    · rfl
    · split <;> rfl
  | activate id =>
    dsimp only [requestEffect]
    split
    · split <;> rfl
    · rfl
  | _ => rfl

theorem inputEvent_sessions (e : InputEvent) : (st.inputEvent e).sessions = st.sessions :=
  congrArg Core.sessions (st.inputEvent_core e)

theorem takeInput_sessions (i : Input) : (st.takeInput i).sessions = st.sessions := by
  cases i with
  | nothing | closed => rfl
  | events es =>
    unfold takeInput
    dsimp only
    induction es generalizing st with
    | nil => rfl
    | cons e es ih => rw [List.foldl_cons, ih, inputEvent_sessions]

theorem beginPass_sessions (p : Pass) : (st.beginPass p).sessions = st.sessions := rfl

/-! ## Slot `0` -/

variable {st}

/-- The session in slot `0`, if any, is the bootstrap session. -/
def ShellIsBootstrap (st : State) : Prop := ∀ chan, st.sessions 0 = some chan → chan = 0

theorem ShellIsBootstrap.congr {st' : State} (h : st.ShellIsBootstrap)
    (heq : st'.sessions = st.sessions) : st'.ShellIsBootstrap := by
  unfold ShellIsBootstrap
  rw [heq]
  exact h

/-- A session that is opened while slot `0` is taken goes to another slot. -/
theorem ShellIsBootstrap.openSession (h : st.ShellIsBootstrap) (htaken : st.sessions 0 ≠ none) :
    st.openSession.1.ShellIsBootstrap := by
  unfold State.openSession
  split
  · exact h.congr rfl
  rename_i i hi
  have hfree : (st.sessions i).isNone = true := by
    have := List.find?_some hi
    exact this
  have hne : (0 : Fin maxClients) ≠ i := by
    rintro rfl
    exact htaken (Option.isNone_iff_eq_none.1 hfree)
  intro chan hc
  dsimp only at hc
  rw [update_of_ne hne] at hc
  exact h chan hc

/-- What is served obeys the guard, and the `open`s came while the shell was
there. -/
def Guards (v : Served) : Prop :=
  v.request.shellOnly = true → v.reply ≠ .error eNotShell → v.chan = 0

def OpensWithShell (v : Served) : Prop := v.request = .openSession → v.shell ≠ none

theorem guards_nil : ∀ v ∈ ([] : List Served), Guards v :=
  fun _ hv => absurd hv List.not_mem_nil

theorem serve_guard {mem : Option Nat} {rq : Request} (hr : rq.shellOnly = true)
    (hreply : (st.serve slot mem rq).2 ≠ .error eNotShell) : slot = 0 := by
  by_contra hne
  have hguard : ∀ r, (st.asShell slot r).2 = .error eNotShell := by
    intro r
    rw [asShell, if_neg hne]
  cases rq with
  | output | surfaceInfo | activate | notificationInfo | notificationsClear | setGlobalScale
  | setAutoTile => exact hreply (hguard _)
  | _ => cases hr

theorem disconnect_sessions (st : State) (slot : Fin maxClients) :
    (st.disconnect slot).sessions = update st.sessions slot none :=
  congrArg Core.sessions (st.disconnect_core slot)

section
variable (h : st.ShellIsBootstrap)
include h

variable (slot : Fin maxClients)

theorem ShellIsBootstrap.disconnect : (st.disconnect slot).ShellIsBootstrap := by
  intro chan hc
  rw [disconnect_sessions] at hc
  by_cases hs : (0 : Fin maxClients) = slot
  · rw [hs, update_self] at hc
    cases hc
  · rw [update_of_ne hs] at hc
    exact h chan hc

theorem ShellIsBootstrap.serve
    (mem : Option Nat) {q : Request} (hopen : q = .openSession → st.sessions 0 ≠ none) :
    (st.serve slot mem q).1.ShellIsBootstrap := by
  by_cases hq : q = .openSession
  · subst hq
    exact h.openSession (hopen rfl)
  · exact h.congr (st.serve_sessions slot mem hq)

/-- What one message does to the shell's slot, and what it reports. -/
theorem ShellIsBootstrap.takeMessage
    (i : Incoming) (hopen : ∀ v ∈ (st.takeMessage slot i).2, OpensWithShell v) :
    (st.takeMessage slot i).1.ShellIsBootstrap ∧ ∀ v ∈ (st.takeMessage slot i).2, Guards v := by
  unfold State.takeMessage at hopen ⊢
  cases i with
  | nothing => exact ⟨h, guards_nil⟩
  | closed =>
    dsimp only
    refine ⟨?_, guards_nil⟩
    split
    · exact h.disconnect slot
    · exact h
  | message rq mem lost =>
    rcases hs : st.sessions slot with _ | chan
    · exact ⟨h, guards_nil⟩
    rcases rq with _ | q
    · exact ⟨h, guards_nil⟩
    rw [hs] at hopen
    dsimp only at hopen ⊢
    refine ⟨?_, ?_⟩
    · have hserve := h.serve slot mem (hopen _ (List.mem_singleton_self _))
      split
      · exact hserve.congr rfl
      · exact hserve
    · intro v hv
      rw [List.mem_singleton] at hv
      subst hv
      intro hguard hreply
      obtain rfl := serve_guard hguard hreply
      exact h chan hs

theorem ShellIsBootstrap.takeSlot (incoming : Fin maxClients → Incoming)
    (slot : Fin maxClients) (hopen : ∀ v ∈ (st.takeSlot incoming slot).2, OpensWithShell v) :
    (st.takeSlot incoming slot).1.ShellIsBootstrap ∧
      ∀ v ∈ (st.takeSlot incoming slot).2, Guards v := by
  unfold State.takeSlot at hopen ⊢
  split
  · exact ⟨h, guards_nil⟩
  rename_i hexited
  rw [if_neg hexited] at hopen
  exact h.takeMessage slot _ hopen

theorem ShellIsBootstrap.pass (p : Pass) (hopen : ∀ v ∈ (st.pass p).2, OpensWithShell v) :
    (st.pass p).1.ShellIsBootstrap ∧ ∀ v ∈ (st.pass p).2, Guards v := by
  unfold State.pass at hopen ⊢
  split
  · exact ⟨h, guards_nil⟩
  rename_i hexited
  rw [if_neg hexited] at hopen
  dsimp only at hopen ⊢
  obtain ⟨hb, hg⟩ := runLogged_inv (I := ShellIsBootstrap) (C := OpensWithShell) (P := Guards)
    (fun st slot hb hc => hb.takeSlot p.incoming slot hc) (h.congr (st.beginPass_sessions p)) _
    hopen
  refine ⟨?_, hg⟩
  split
  · exact hb
  · exact hb.congr (takeInput_sessions _ p.input)

end

end State

/-- In every run in which each `open` is served while slot `0` is taken, what
only the shell may ask for is granted only on the channel of the bootstrap
session. -/
theorem shell_is_bootstrap (ps : List State.Pass)
    (hopen : ∀ v ∈ (start.run ps).2, v.request = .openSession → v.shell ≠ none) :
    ∀ v ∈ (start.run ps).2, v.request.shellOnly = true → v.reply ≠ .error eNotShell →
      v.chan = 0 := by
  have hstart : start.ShellIsBootstrap := by
    intro chan hc
    exact (Option.some.inj hc).symm
  exact (runLogged_inv (I := State.ShellIsBootstrap) (C := State.OpensWithShell)
    (P := State.Guards) (fun st p hb hc => hb.pass p hc) hstart ps hopen).2

def passFor (slot : Fin maxClients) (i : State.Incoming) : State.Pass where
  incoming := fun j => if j = slot then i else .nothing
  input := .nothing
  readerGone := false

def asks (q : Request) : State.Incoming := .message (some q) none false

/-- The shell opens a session, reads the output and disconnects; the other
session asks for the output in vain. -/
def shellReads : List State.Pass :=
  [passFor 0 (asks .openSession), passFor 0 (asks (.output 0)), passFor 0 .closed,
    passFor 1 (asks (.output 0))]

theorem shell_is_bootstrap_of_two : ∃ v ∈ (start.run shellReads).2,
      v.request = .output 0 ∧ v.reply ≠ .error eNotShell ∧ v.chan = 0 := by
  have hopen : ∀ v ∈ (start.run shellReads).2, v.request = .openSession → v.shell ≠ none := by
    decide +kernel
  obtain ⟨v, hv, hreq, hreply⟩ : ∃ v ∈ (start.run shellReads).2,
      v.request = .output 0 ∧ v.reply ≠ .error eNotShell := by
    decide +kernel
  have hshell : v.request.shellOnly = true := by
    rw [hreq]
    rfl
  exact ⟨v, hv, hreq, hreply, shell_is_bootstrap shellReads hopen v hv hshell hreply⟩

/-- The bootstrap session opens a session and disconnects; the session that is
left opens one for itself, which gets slot `0` and is given the output. -/
theorem reopened_slot_is_shell :
    ∃ ps, ps = [passFor 0 (asks .openSession), passFor 0 .closed, passFor 1 (asks .openSession),
        passFor 0 (asks (.output 0))] ∧
      ∃ v ∈ (start.run ps).2, v.request = .output 0 ∧ v.chan = 2 ∧
        v.reply = .output outW outH 0 := by
  refine ⟨_, rfl, ?_⟩
  decide +kernel

end NexoOS.Wm
