import NexoOS.Wm.FocusVisible

/-!
# The capture of the input

A surface that captured the input keeps it until it gives it up, until it is
gone, or until its session closes. In between no key, pointer or drop event goes
to another session.
-/

namespace NexoOS.Wm

/-- The surface `i`, of the session on `chan`, has the capture. -/
structure Core.Captured (c : Core) (i : Fin maxSurfaces) (chan : Nat) : Prop where
  grabbed : c.grabbed = some i
  used : c.used i = true
  session : c.sessions (c.owner i) = some chan

/-- The surface gives up its capture, goes, or loses its session. -/
def Effect.endsCapture (c : Core) (i : Fin maxSurfaces) : Effect → Bool
  | .ungrab => true
  | .remove j => j = i
  | .closed slot => c.owner i = slot
  | _ => false

variable {c : Core} {i : Fin maxSurfaces} {chan : Nat}

theorem Core.Captured.apply {e : Effect} (h : c.Captured i chan) (hen : e.Enabled c)
    (hend : e.endsCapture c i = false) : (e.apply c).Captured i chan := by
  cases e with
  | stay | moveTo | switch | activate | focus => exact ⟨h.grabbed, h.used, h.session⟩
  | sweep => exact ⟨by simp [Effect.apply, h.grabbed, h.used], h.used, h.session⟩
  | create j slot =>
    have hij : i ≠ j := by
      rintro rfl
      cases hen.1.symm.trans h.used
    exact ⟨h.grabbed, by simp [Effect.apply, hij, h.used], by simp [Effect.apply, hij, h.session]⟩
  | remove j =>
    have hij : i ≠ j := fun heq => of_decide_eq_false hend heq.symm
    exact ⟨h.grabbed, by simp [Effect.apply, hij, h.used], h.session⟩
  | grab j slot =>
    obtain rfl := hen.2.2.2 i h.grabbed
    exact ⟨rfl, h.used, h.session⟩
  | ungrab => cases hend
  | opened slot _ =>
    have hne : c.owner i ≠ slot := by
      rintro rfl
      cases h.session.symm.trans hen
    exact ⟨h.grabbed, h.used, by simp [Effect.apply, hne, h.session]⟩
  | closed slot =>
    have hne : c.owner i ≠ slot := of_decide_eq_false hend
    exact ⟨h.grabbed, by simp [Effect.apply, hne, h.used], by simp [Effect.apply, hne, h.session]⟩

namespace State

variable (st : State)

def inputsToOthers (chan : Nat) : List (Dest × Msg) := st.inputs.filter (·.1 ≠ .session chan)

variable {st}

theorem inputsToOthers_congr {st' : State} (h : st'.inputs = st.inputs) :
    st'.inputsToOthers chan = st.inputsToOthers chan := by
  unfold inputsToOthers
  rw [h]

theorem inputEvent_captured (h : st.core.Captured i chan) (e : InputEvent) :
    (st.inputEvent e).inputsToOthers chan = st.inputsToOthers chan := by
  have hgrab : st.grabbed = some i := h.grabbed
  have hkey : (st.key e.code e.value).inputsToOthers chan = st.inputsToOthers chan := by
    have hused : (st.surfaces i).used = true := h.used
    have hsession : st.sessions (st.surfaces i).owner = some chan := h.session
    simp [key, hgrab, hused, sendOwner, hsession, inputsToOthers, inputs, send]
  unfold inputEvent
  split
  · split
    · dsimp only [inputsToOthers, inputs]
    split <;> dsimp only [inputsToOthers, inputs]
  split
  · split
    -- the button does nothing, and what is dragged is dropped nowhere
    · split
      · simp [click, hgrab]
      unfold release
      split
      · rfl
      · simp only [hgrab, Option.isSome_some, if_true]
        rfl
    split
    · rfl
    split
    · unfold sendOwner
      split
      · rfl
      · simp [inputsToOthers, inputs, send, Msg.isInput]
    split
    · split
      · rfl
      · exact inputsToOthers_congr (congrArg (·.2.2.1) (st.focusOn_frame true _))
    · exact hkey
  · rfl

theorem turn_captured (h : st.core.Captured i chan) (t : Turn) :
    (st.turn t).1.inputsToOthers chan = st.inputsToOthers chan := by
  unfold turn
  cases t with
  | sweep | inputClosed =>
    dsimp only
    split <;> rfl
  | slot slot incoming =>
    dsimp only
    split
    · rfl
    exact inputsToOthers_congr (st.takeMessage_inputs slot incoming)
  | input e =>
    dsimp only
    split
    · rfl
    · exact inputEvent_captured h e

/-- From a capture on, in any state and so in every run, until it ends: no input
goes to another session. -/
theorem capture_exclusive (st : State) (t : Turn) (ts : List Turn) {slot : Fin maxClients}
    (hgrab : st.effect t = .grab i slot) (hs : st.sessions slot = some chan)
    (hheld : Meets turn (fun st u => (st.effect u).endsCapture st.core i = false) (st.turn t).1 ts) :
    ((st.turn t).1.turns ts).1.inputsToOthers chan = (st.turn t).1.inputsToOthers chan := by
  have hen := st.effect_enabled t
  rw [hgrab] at hen
  have hstart : (st.turn t).1.core.Captured i chan := by
    rw [turn_core, hgrab]
    exact ⟨rfl, hen.1, (congrArg st.sessions hen.2.1).trans hs⟩
  refine (Meets.inv (I := fun st' => st'.core.Captured i chan ∧
    st'.inputsToOthers chan = (st.turn t).1.inputsToOthers chan) ?_ ⟨hstart, rfl⟩ hheld).2
  rintro st' u ⟨h, hsame⟩ hend
  refine ⟨?_, (turn_captured h u).trans hsame⟩
  rw [turn_core]
  exact h.apply (st'.effect_enabled u) hend

/-- Two windows: the first has the focus, and the second, of session `1`, is
to capture the input. -/
def twoWindows : State :=
  (start.run [talk [.createSurface 0 0 8 8 0 0], talk [.openSession],
    talk [.setInput, .createSurface 0 0 8 8 0 0]]).1

/-- A key then goes to session `1`, and nothing to the focused window. -/
theorem capture_exclusive_key :
    ∃ t, ((twoWindows.turn t).1.turns [.input ⟨evKey, 30, 1⟩]).1.sent = [(.session 1, .key 1 30 1)] ∧
      ((twoWindows.turn t).1.turns [.input ⟨evKey, 30, 1⟩]).1.inputsToOthers 1 = [] := by
  have hgrab : twoWindows.effect (.slot 1 (.message (some (.grab 1)) none false)) = .grab 1 1 := rfl
  refine ⟨_, by decide +kernel, (capture_exclusive twoWindows _ _ hgrab ?_ ?_).trans ?_⟩
  all_goals decide +kernel

end State
end NexoOS.Wm
