import NexoOS.Wm.FocusVisible

/-!
# Focus, capture and the reuse of slots

Focus and capture are slot numbers, and slots are reused. Beside the compositor
we count the surfaces as they are created and remember which of them was given
the focus and which the capture. The loop drops focus and capture of a surface
that is gone once in a pass; a `create_surface` that is served before takes the
slot, and with it focus and capture.
-/

namespace NexoOS.Wm

open Function Option

def Effect.focusGiven (c : Core) : Effect → Option (Fin maxSurfaces)
  | .create i _ => if c.focused.isNone then some i else none
  | .switch _ top => top
  | .activate i => some i
  | .focus i => some i
  | _ => none

/-- The number of the surface in each slot, in the order of their creation, and
those that were given the focus and the capture last. -/
structure Origins where
  made : Nat
  born : Fin maxSurfaces → Nat
  focusOf : Nat
  grabOf : Nat

namespace Origins

def start : Origins := { made := 0, born := fun _ => 0, focusOf := 0, grabOf := 0 }

def create (o : Origins) : Effect → Origins
  | .create i _ => { o with made := o.made + 1, born := update o.born i o.made }
  | _ => o

def give (o : Origins) (focus grab : Option (Fin maxSurfaces)) : Origins :=
  { o with
    focusOf := (focus.map o.born).getD o.focusOf
    grabOf := (grab.map o.born).getD o.grabOf }

def grabGiven : Effect → Option (Fin maxSurfaces)
  | .grab i _ => some i
  | _ => none

def after (o : Origins) (c : Core) (e : Effect) : Origins :=
  (o.create e).give (e.focusGiven c) (grabGiven e)

def turn (st : State) (o : Origins) (t : Turn) : Origins := o.after st.core (st.effect t)

/-- Focus and capture are on the surfaces they were given to. -/
structure Same (o : Origins) (c : Core) : Prop where
  focus : ∀ i, c.focused = some i → o.born i = o.focusOf
  grab : ∀ i, c.grabbed = some i → o.born i = o.grabOf

/-- The numbers given out so far. -/
structure Counted (o : Origins) (c : Core) : Prop where
  born : ∀ i, c.used i = true → o.born i < o.made
  focus : ∀ i, c.focused = some i → o.focusOf < o.made
  grab : ∀ i, c.grabbed = some i → o.grabOf < o.made

end Origins

/-- No surface is created in a slot that focus or capture still point to. -/
def Effect.SparesPointed (c : Core) : Effect → Prop
  | .create i _ => c.focused ≠ some i ∧ c.grabbed ≠ some i
  | _ => True

namespace Origins

variable {o : Origins} {c : Core}

theorem counted_create (h : o.Counted c) (i : Fin maxSurfaces) (slot : Fin maxClients) :
    (o.after c (.create i slot)).Counted ((Effect.create i slot).apply c) := by
  have hborn : ∀ j, (Effect.create i slot |>.apply c).used j = true →
      update o.born i o.made j < o.made + 1 := by
    intro j hj
    by_cases hji : j = i
    · subst hji
      simp
    have := h.born j (by simpa [Effect.apply, hji] using hj)
    simp only [update_of_ne hji]
    omega
  refine ⟨hborn, fun j hj => ?_, fun j hj => ?_⟩
  · rcases hf : c.focused with _ | k
    · simp [after, create, give, Effect.focusGiven, hf]
    · have := h.focus k hf
      simp only [after, create, give, Effect.focusGiven, hf, isNone_some,
        Bool.false_eq_true, if_false, map_none, getD_none]
      omega
  · have := h.grab j hj
    simp only [after, create, give, grabGiven, map_none, getD_none]
    omega

theorem same_create (h : o.Counted c) (hsame : o.Same c) {i : Fin maxSurfaces}
    {slot : Fin maxClients} : (Effect.create i slot).SparesPointed c ↔
      (o.after c (.create i slot)).Same ((Effect.create i slot).apply c) := by
  constructor
  · rintro ⟨hfocus, hgrab⟩
    refine ⟨fun j hj => ?_, fun j hj => ?_⟩
    · rcases hf : c.focused with _ | k
      · have : j = i := by simpa [Effect.apply, hf] using hj.symm
        subst this
        simp [after, create, give, Effect.focusGiven, hf]
      · have : j = k := by simpa [Effect.apply, hf] using hj.symm
        subst this
        have hji : j ≠ i := fun heq => hfocus (heq ▸ hf)
        simpa [after, create, give, Effect.focusGiven, hf, hji] using hsame.focus j hf
    · have hji : j ≠ i := fun heq => hgrab (heq ▸ hj)
      simpa [after, create, give, grabGiven, hji] using hsame.grab j hj
  · intro hafter
    -- the new surface has a number of its own
    refine ⟨fun hf => ?_, fun hg => ?_⟩
    · have hold := h.focus i hf
      have := hafter.focus i (by simp [Effect.apply, hf])
      simp only [after, create, give, Effect.focusGiven, hf, isNone_some,
        Bool.false_eq_true, if_false, map_none, getD_none,
        update_self] at this
      omega
    · have hold := h.grab i hg
      have := hafter.grab i hg
      simp only [after, create, give, grabGiven, map_none, getD_none,
        update_self] at this
      omega

theorem counted_after {e : Effect} (hen : e.Enabled c) (h : o.Counted c) :
    (o.after c e).Counted (e.apply c) := by
  cases e with
  | create i slot => exact counted_create h i slot
  | stay => exact h
  | ungrab => exact ⟨h.born, h.focus, nofun⟩
  | opened | moveTo => exact ⟨h.born, h.focus, h.grab⟩
  | sweep =>
    refine ⟨h.born, fun i hi => ?_, fun i hi => ?_⟩
    · exact h.focus i (filter_eq_some_iff.1 hi).1
    · exact h.grab i (filter_eq_some_iff.1 hi).1
  | remove i =>
    refine ⟨fun j hj => h.born j ?_, h.focus, h.grab⟩
    by_cases hji : j = i
    · subst hji
      simp [Effect.apply] at hj
    · simpa [Effect.apply, hji] using hj
  | closed slot =>
    refine ⟨fun j hj => h.born j ?_, h.focus, h.grab⟩
    simp only [Effect.apply, Bool.and_eq_true] at hj
    exact hj.1
  | switch ctx top =>
    refine ⟨h.born, fun i hi => ?_, h.grab⟩
    obtain rfl : top = some i := hi
    exact h.born i (hen i rfl).1
  | activate i => exact ⟨h.born, fun _ _ => h.born i hen, h.grab⟩
  | focus i => exact ⟨h.born, fun _ _ => h.born i hen.1, h.grab⟩
  | grab i slot => exact ⟨h.born, h.focus, fun _ _ => h.born i hen.1⟩

/-- Only a create can pass focus or capture on. -/
theorem same_after {e : Effect} (h : o.Counted c) (hsame : o.Same c) :
    e.SparesPointed c ↔ (o.after c e).Same (e.apply c) := by
  cases e with
  | create i slot => exact same_create h hsame
  | stay => exact iff_of_true trivial hsame
  | remove | moveTo | opened | closed => exact iff_of_true trivial ⟨hsame.focus, hsame.grab⟩
  | ungrab => exact iff_of_true trivial ⟨hsame.focus, nofun⟩
  | sweep =>
    refine iff_of_true trivial ⟨fun i hi => ?_, fun i hi => ?_⟩
    · exact hsame.focus i (filter_eq_some_iff.1 hi).1
    · exact hsame.grab i (filter_eq_some_iff.1 hi).1
  | switch ctx top =>
    refine iff_of_true trivial ⟨fun i hi => ?_, hsame.grab⟩
    obtain rfl : top = some i := hi
    rfl
  | activate | focus =>
    refine iff_of_true trivial ⟨fun j hj => ?_, hsame.grab⟩
    cases hj
    rfl
  | grab i slot =>
    refine iff_of_true trivial ⟨hsame.focus, fun j hj => ?_⟩
    cases hj
    rfl

end Origins

namespace State

def origins (ts : List Turn) : Origins :=
  (runLogged (withGhost turn Origins.turn) (start, Origins.start) ts).1.2

/-- In a run of the loop, focus and capture are between any two turns on the
surfaces they were given to exactly when no `create_surface` takes a slot that
they still point to. -/
theorem focus_not_inherited_iff (ps : List Pass) :
    Meets turn (fun st t => (st.effect t).SparesPointed st.core) .start (ps.flatMap Pass.turns) ↔
      ∀ ts, ts <+: ps.flatMap Pass.turns → (origins ts).Same (start.turns ts).1.core := by
  have hcounted : ∀ (s : State × Origins) (t : Turn), s.2.Counted s.1.core →
      (withGhost turn Origins.turn s t).1.2.Counted (withGhost turn Origins.turn s t).1.1.core := by
    intro s t h
    dsimp only [withGhost, Origins.turn]
    rw [turn_core]
    exact Origins.counted_after (s.1.effect_enabled t) h
  have hsame : ∀ (s : State × Origins) (t : Turn), s.2.Counted s.1.core → s.2.Same s.1.core →
      ((s.1.effect t).SparesPointed s.1.core ↔ (withGhost turn Origins.turn s t).1.2.Same
          (withGhost turn Origins.turn s t).1.1.core) := by
    intro s t h hs
    dsimp only [withGhost, Origins.turn]
    rw [turn_core]
    exact Origins.same_after h hs
  have hstart : Origins.start.Counted start.core := ⟨nofun, nofun, nofun⟩
  have hstartSame : Origins.start.Same start.core := ⟨nofun, nofun⟩
  rw [← meets_withGhost turn Origins.turn (start, Origins.start),
    meets_iff_prefixes hcounted hsame hstart hstartSame]
  simp only [runLogged_withGhost_state]
  rfl

/-- A window with the focus is destroyed, and in the same pass another session
creates one: it is in the same slot, and the focus is now on it. -/
def reusePasses : List Pass :=
  [talk [.createSurface 0 0 8 8 0 0], talk [.openSession],
    talk [.destroy 0, .createSurface 0 0 8 8 0 0]]

theorem focus_inherited : (start.run reusePasses).1.focused = some 0 ∧
      ((start.run reusePasses).1.surfaces 0).used = true ∧
      ((start.run reusePasses).1.surfaces 0).owner = 1 ∧
      ¬ (origins (reusePasses.flatMap Pass.turns)).Same (start.run reusePasses).1.core := by
  refine ⟨by decide +kernel, by decide +kernel, by decide +kernel, fun h => ?_⟩
  have := h.focus 0 (by decide +kernel)
  exact absurd this (by decide +kernel)

end State
end NexoOS.Wm
