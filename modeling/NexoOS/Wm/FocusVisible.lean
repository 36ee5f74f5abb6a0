import NexoOS.Wm.Core

/-!
# The focus on what is shown

Only the windows of the active context are shown and get the input. While no
capture is in force, the focus is to be on a window that is in use and in the
active context. Several requests leave it elsewhere: `set_context` on the focused
window, the end of the focused window until the next look at the focus, a first
window while a context other than `0` is active. `KeepsVisible` says exactly which
turns these are.
-/

namespace NexoOS.Wm

namespace Core

/-- The focused surface is in use and in the active context. -/
def FocusShown (c : Core) : Prop :=
  ∀ i, c.focused = some i → c.used i = true ∧ c.context i = c.activeCtx

/-- Without a capture, the focus is on what is shown. -/
def FocusVisible (c : Core) : Prop := c.grabbed = none → c.FocusShown

instance (c : Core) : Decidable c.FocusVisible :=
  inferInstanceAs (Decidable (c.grabbed = none →
    ∀ i, c.focused = some i → c.used i = true ∧ c.context i = c.activeCtx))

end Core

namespace Effect

/-- What an effect must not do to the focus. -/
def KeepsVisible (c : Core) : Effect → Prop
  -- the first window gets the focus, and it is in context `0`
  | .create _ _ => c.grabbed = none → c.focused = none → c.activeCtx = 0
  | .remove i => c.grabbed = none → c.focused ≠ some i
  | .moveTo i ctx => c.grabbed = none → c.focused = some i → ctx = c.activeCtx
  | .closed slot => c.grabbed = none → ∀ i, c.focused = some i → c.owner i ≠ slot
  -- the end of a capture shows the focus again
  | .ungrab => c.FocusShown
  | .sweep => (∀ g, c.grabbed = some g → c.used g = false) →
      ∀ i, c.focused = some i → c.used i = true → c.context i = c.activeCtx
  | _ => True

variable {c : Core} {i : Fin maxSurfaces}

theorem keepsVisible_create {slot : Fin maxClients} (h : c.FocusVisible)
    (hfree : c.used i = false) :
    (create i slot).KeepsVisible c ↔ ((create i slot).apply c).FocusVisible := by
  unfold KeepsVisible Core.FocusVisible
  refine forall_congr' fun hgrab => ?_
  rcases hf : c.focused with _ | j
  · constructor
    · intro hctx k hk
      have : k = i := by simpa [apply, hf] using hk.symm
      subst this
      simpa [apply] using (hctx rfl).symm
    · intro hshown _
      have := (hshown i (by simp [apply, hf])).2
      simpa [apply] using this.symm
  · have hshown := h hgrab j hf
    have hne : j ≠ i := by
      rintro rfl
      rw [hfree] at hshown
      cases hshown.1
    refine iff_of_true (fun hn => by cases hn) fun k hk => ?_
    have : k = j := by simpa [apply, hf] using hk.symm
    subst this
    simpa [apply, hne] using hshown

theorem keepsVisible_remove (h : c.FocusVisible) :
    (remove i).KeepsVisible c ↔ ((remove i).apply c).FocusVisible := by
  refine forall_congr' fun hgrab => ?_
  constructor
  · intro hne k hk
    have hki : k ≠ i := fun heq => hne (heq ▸ hk)
    simpa [apply, hki] using h hgrab k hk
  · intro hshown hi
    have := (hshown i hi).1
    simp [apply] at this

theorem keepsVisible_moveTo {ctx : Fin numContexts} (h : c.FocusVisible) :
    (moveTo i ctx).KeepsVisible c ↔ ((moveTo i ctx).apply c).FocusVisible := by
  refine forall_congr' fun hgrab => ?_
  constructor
  · intro hctx k hk
    by_cases hki : k = i
    · subst hki
      simpa [apply] using ⟨(h hgrab k hk).1, hctx hk⟩
    · simpa [apply, hki] using h hgrab k hk
  · intro hshown hi
    have := (hshown i hi).2
    simpa [apply] using this

theorem keepsVisible_closed {slot : Fin maxClients} (h : c.FocusVisible) :
    (closed slot).KeepsVisible c ↔ ((closed slot).apply c).FocusVisible := by
  refine forall_congr' fun hgrab => forall_congr' fun i => forall_congr' fun hi => ?_
  have hshown := h hgrab i hi
  simp [apply, hshown.1, hshown.2]

theorem keepsVisible_sweep : sweep.KeepsVisible c ↔ (sweep.apply c).FocusVisible := by
  have hgrab : (∀ g, c.grabbed = some g → c.used g = false) ↔ (sweep.apply c).grabbed = none := by
    simp [apply, Option.filter_eq_none_iff]
  unfold KeepsVisible Core.FocusVisible
  rw [← hgrab]
  refine forall_congr' fun _ => forall_congr' fun i => ?_
  simp only [apply, Option.filter_eq_some_iff]
  tauto

/-- The condition is exact. -/
theorem keepsVisible_iff {e : Effect} (hen : e.Enabled c) (h : c.FocusVisible) :
    e.KeepsVisible c ↔ (e.apply c).FocusVisible := by
  cases e with
  | stay | opened => exact iff_of_true trivial h
  | sweep => exact keepsVisible_sweep
  | create i slot => exact keepsVisible_create h hen.1
  | remove i => exact keepsVisible_remove h
  | moveTo i ctx => exact keepsVisible_moveTo h
  | switch ctx top => exact iff_of_true trivial fun _ i hi => hen i hi
  | activate i =>
    refine iff_of_true trivial fun _ j hj => ?_
    cases hj
    exact ⟨hen, rfl⟩
  | focus i =>
    refine iff_of_true trivial fun _ j hj => ?_
    cases hj
    exact hen
  | grab i slot => exact iff_of_true trivial nofun
  | ungrab => exact ⟨fun hshown _ => hshown, fun hvisible => hvisible rfl⟩
  | closed slot => exact keepsVisible_closed h

end Effect

namespace State

/-- In a run of the loop the focus is visible between any two turns exactly when
no turn does to it what `KeepsVisible` excludes. -/
theorem focus_visible_iff (ps : List Pass) :
    Meets turn (fun st t => (st.effect t).KeepsVisible st.core) .start (ps.flatMap Pass.turns) ↔
      ∀ ts, ts <+: ps.flatMap Pass.turns → (start.turns ts).1.core.FocusVisible := by
  have hstep : ∀ (st : State) (t : Turn), True → st.core.FocusVisible →
      ((st.effect t).KeepsVisible st.core ↔ (st.turn t).1.core.FocusVisible) := by
    intro st t _ h
    rw [turn_core]
    exact Effect.keepsVisible_iff (st.effect_enabled t) h
  have hstart : State.start.core.FocusVisible := fun _ i hi => nomatch hi
  exact meets_iff_prefixes (fun _ _ _ => trivial) hstep trivial hstart _

/-- A pass in which the first sessions ask these requests. -/
def talk (rqs : List Request) : Pass where
  incoming slot := match rqs[slot]? with
    | none => .nothing
    | some rq => .message (some rq) (some 7) false
  input := .nothing
  readerGone := false

/-- The focused window goes to a context that is not shown, and keeps the
keyboard. -/
theorem set_context_hides_focus : ¬ (start.run [talk [.createSurface 0 0 8 8 0 0],
      talk [.setContext 0 1]]).1.core.FocusVisible := by
  decide +kernel

end State
end NexoOS.Wm
