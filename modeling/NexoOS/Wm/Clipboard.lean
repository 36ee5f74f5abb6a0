import NexoOS.Wm.FocusReuse

/-!
# Who reads the clipboard

The clipboard is for the session that has the input: the captured surface, or
else the focused one. Beside the compositor we keep the sessions whose surface
was once given the focus. A session that was never given it can still get at the
clipboard in two ways: it captures the input, which any session may do, or it
creates a surface in the slot of one that is gone and that focus or capture still
point to. In the runs without either, the clipboard stays with the others.
-/

namespace NexoOS.Wm

/-- The sessions that had the focus, after an effect. -/
def Effect.owners (own : List Nat) (c : Core) (e : Effect) : List Nat :=
  match e.focusGiven c with
  | none => own
  | some i => ((e.apply c).sessions ((e.apply c).owner i)).toList ++ own

namespace Core

/-- A surface belongs to a session. -/
def Attended (c : Core) : Prop := ∀ i, c.used i = true → c.sessions (c.owner i) ≠ none

def HadFocus (c : Core) (own : List Nat) (slot : Fin maxClients) : Prop :=
  ∃ chan ∈ own, c.sessions slot = some chan

/-- Focus and capture are with sessions that had the focus. -/
def Entitled (c : Core) (own : List Nat) : Prop :=
  ∀ i, c.focused = some i ∨ c.grabbed = some i → c.used i = true → c.HadFocus own (c.owner i)

end Core

/-- Capture, and surfaces in a slot that focus or capture point to, are only for
sessions that had the focus. -/
def Effect.ToEntitled (own : List Nat) (c : Core) : Effect → Prop
  | .create i slot => c.focused = some i ∨ c.grabbed = some i → c.HadFocus own slot
  | .grab _ slot => c.HadFocus own slot
  | _ => True

instance (c : Core) (own : List Nat) (slot : Fin maxClients) : Decidable (c.HadFocus own slot) :=
  inferInstanceAs (Decidable (∃ chan ∈ own, c.sessions slot = some chan))

instance (own : List Nat) (c : Core) : ∀ e : Effect, Decidable (e.ToEntitled own c)
  | .create i slot =>
    inferInstanceAs (Decidable (c.focused = some i ∨ c.grabbed = some i → c.HadFocus own slot))
  | .grab _ slot => inferInstanceAs (Decidable (c.HadFocus own slot))
  | .stay | .sweep | .remove _ | .moveTo _ _ | .switch _ _ | .activate _ | .focus _ | .ungrab
  | .opened _ _ | .closed _ => .isTrue trivial

namespace Core

open Effect (apply)

variable {c : Core} {own : List Nat} {e : Effect}

theorem HadFocus.mono {own' : List Nat} {slot : Fin maxClients} (h : c.HadFocus own slot)
    (hsub : own ⊆ own') : c.HadFocus own' slot := by
  obtain ⟨chan, hchan, hs⟩ := h
  exact ⟨chan, hsub hchan, hs⟩

theorem owners_subset (own : List Nat) (c : Core) (e : Effect) : own ⊆ e.owners own c := by
  unfold Effect.owners
  split
  · exact List.Subset.refl _
  · exact List.subset_append_right _ _

theorem hadFocus_of_given {i : Fin maxSurfaces} (h : e.focusGiven c = some i)
    (hs : (e.apply c).sessions ((e.apply c).owner i) ≠ none) :
    (e.apply c).HadFocus (e.owners own c) ((e.apply c).owner i) := by
  obtain ⟨chan, hchan⟩ := Option.ne_none_iff_exists'.1 hs
  refine ⟨chan, ?_, hchan⟩
  simp [Effect.owners, h, hchan]

theorem attended_apply (hen : e.Enabled c) (h : c.Attended) : (e.apply c).Attended := by
  intro i hi
  cases e with
  | create j slot =>
    by_cases hij : i = j
    · subst hij
      simpa [apply] using hen.2
    · have hused : c.used i = true := by simpa [apply, hij] using hi
      simpa [apply, hij] using h i hused
  | remove j =>
    by_cases hij : i = j
    · subst hij
      simp [apply] at hi
    · exact h i (by simpa [apply, hij] using hi)
  | opened slot chan =>
    by_cases hslot : c.owner i = slot
    · simp [apply, hslot]
    · simpa [apply, hslot] using h i hi
  | closed slot =>
    simp only [apply, Bool.and_eq_true, decide_eq_true_eq] at hi
    simpa [apply, hi.2] using h i hi.1
  | stay | sweep | moveTo | switch | activate | focus | grab | ungrab => exact h i hi

/-- If focus and capture come from where they were, or from what the effect
gives, then they stay with sessions that had the focus. -/
theorem Entitled.keep (hen : e.Enabled c) (hatt : c.Attended)
    (hkeep : ∀ i, (e.apply c).focused = some i ∨ (e.apply c).grabbed = some i →
      (e.apply c).used i = true → e.focusGiven c = some i ∨
        (e.apply c).HadFocus own ((e.apply c).owner i)) :
    (e.apply c).Entitled (e.owners own c) := by
  intro i hi hused
  rcases hkeep i hi hused with hgiven | hhad
  · exact hadFocus_of_given hgiven (attended_apply hen hatt i hused)
  · exact hhad.mono (owners_subset own c e)

theorem entitled_apply (hen : e.Enabled c) (hatt : c.Attended) (hto : e.ToEntitled own c)
    (h : c.Entitled own) : (e.apply c).Entitled (e.owners own c) := by
  refine Entitled.keep hen hatt fun i hi hused => ?_
  cases e with
  | stay | moveTo => exact .inr (h i hi hused)
  | sweep =>
    refine .inr (h i ?_ hused)
    exact hi.imp (fun hf => (Option.filter_eq_some_iff.1 hf).1)
      fun hg => (Option.filter_eq_some_iff.1 hg).1
  | create j slot =>
    by_cases hij : i = j
    · subst hij
      have howner : ((Effect.create i slot).apply c).owner i = slot := Function.update_self ..
      rw [howner]
      rcases hi with hf | hg
      · rcases hfocus : c.focused with _ | k
        · exact .inl (by simp [Effect.focusGiven, hfocus])
        · obtain rfl : k = i := by simpa [apply, hfocus] using hf
          exact .inr (hto (.inl hfocus))
      · exact .inr (hto (.inr hg))
    · have howner : ((Effect.create j slot).apply c).owner i = c.owner i :=
        Function.update_of_ne hij ..
      have hold : c.used i = true := by simpa [apply, hij] using hused
      rw [howner]
      refine .inr (h i (hi.imp_left fun hf => ?_) hold)
      rcases hfocus : c.focused with _ | k
      · exact absurd (by simpa [apply, hfocus] using hf) (Ne.symm hij)
      · simpa [apply, hfocus] using hf
  | remove j =>
    by_cases hij : i = j
    · subst hij
      simp [apply] at hused
    · exact .inr (h i hi (by simpa [apply, hij] using hused))
  | switch | activate | focus =>
    rcases hi with hf | hg
    · exact .inl hf
    · exact .inr (h i (.inr hg) hused)
  | grab j slot =>
    rcases hi with hf | hg
    · exact .inr (h i (.inl hf) hused)
    obtain rfl := Option.some.inj hg
    have howner : ((Effect.grab j slot).apply c).owner j = slot := hen.2.1
    rw [howner]
    exact .inr hto
  | ungrab => exact .inr (h i (hi.imp_right fun hg => by cases hg) hused)
  | opened slot chan =>
    obtain ⟨ch, hch, hs⟩ := h i hi hused
    have hne : c.owner i ≠ slot := by
      intro heq
      rw [heq, show c.sessions slot = none from hen] at hs
      cases hs
    exact .inr ⟨ch, hch, by simpa [apply, hne] using hs⟩
  | closed slot =>
    simp only [apply, Bool.and_eq_true, decide_eq_true_eq] at hused
    obtain ⟨ch, hch, hs⟩ := h i hi hused.1
    exact .inr ⟨ch, hch, by simpa [apply, hused.2] using hs⟩

end Core

/-! ## Replies with the clipboard -/

namespace State

variable (st : State) {slot : Fin maxClients}

theorem served_of_turn {t : Turn} {s : Served} (h : s ∈ (st.turn t).2) :
    ∃ slot mem, st.sessions slot = some s.chan ∧ s.reply = (st.serve slot mem s.request).2 := by
  cases t with
  | sweep | input | inputClosed =>
    dsimp only [turn] at h
    split at h <;> nomatch h
  | slot slot incoming =>
    dsimp only [turn] at h
    split at h
    · cases h
    cases incoming with
    | nothing | closed => cases h
    | message rq mem lost =>
      dsimp only [takeMessage] at h
      split at h
      · rename_i chan q hs
        obtain rfl := List.mem_singleton.1 h
        exact ⟨slot, mem, hs, rfl⟩
      · cases h

theorem inputOwner_pointed (h : st.inputOwner slot = true) :
    ∃ i, (st.core.focused = some i ∨ st.core.grabbed = some i) ∧ st.core.used i = true ∧
      st.core.owner i = slot := by
  unfold inputOwner at h
  split at h
  · cases h
  rename_i i hor
  have hpointed := (Option.or_eq_some_iff.1 hor).symm.imp And.right id
  have := of_decide_eq_true h
  exact ⟨i, hpointed, this.1, this.2⟩

/-! ## Runs -/

def ownersTurn (st : State) (own : List Nat) (t : Turn) : List Nat :=
  (st.effect t).owners own st.core

/-- The sessions that had the focus in some turns. -/
def owners (ts : List Turn) : List Nat := (runLogged (withGhost turn ownersTurn) (start, []) ts).1.2

/-- Focus and capture are entitled, and so was every reader of the clipboard. -/
structure Mediated (s : State × List Nat) (log : List Served) : Prop where
  attended : s.1.core.Attended
  entitled : s.1.core.Entitled s.2
  read : ∀ r ∈ log, r.reply.isClipboard = true → r.chan ∈ s.2

theorem Mediated.turn {s : State × List Nat} {log : List Served} {t : Turn}
    (h : Mediated s log) (hto : (s.1.effect t).ToEntitled s.2 s.1.core) :
    Mediated (withGhost State.turn ownersTurn s t).1
      (log ++ (withGhost State.turn ownersTurn s t).2) := by
  have hen := s.1.effect_enabled t
  constructor
  case attended =>
    dsimp only [withGhost]
    rw [turn_core]
    exact Core.attended_apply hen h.attended
  case entitled =>
    dsimp only [withGhost]
    rw [turn_core]
    exact Core.entitled_apply hen h.attended hto h.entitled
  case read =>
    intro r hr hclip
    dsimp only [withGhost, ownersTurn]
    apply Core.owners_subset
    rcases List.mem_append.1 hr with hr | hr
    · exact h.read r hr hclip
    obtain ⟨slot, mem, hs, hreply⟩ := s.1.served_of_turn hr
    rw [hreply] at hclip
    obtain ⟨i, hpointed, hused, howner⟩ :=
      s.1.inputOwner_pointed ((serve_answers _ _ _).clipboard hclip)
    obtain ⟨chan, hchan, hsession⟩ := h.entitled i hpointed hused
    have : s.1.sessions slot = some chan := howner ▸ hsession
    rw [hs] at this
    rw [Option.some.inj this]
    exact hchan

/-- In a run of the loop in which capture, and surfaces in a slot that focus or
capture point to, are only given to sessions that had the focus, the clipboard and
its history are only ever read by such sessions. -/
theorem clipboard_only_to_owners (ps : List Pass)
    (h : Meets (withGhost turn ownersTurn) (fun s t => (s.1.effect t).ToEntitled s.2 s.1.core)
      (start, []) (ps.flatMap Pass.turns)) :
    ∀ ts, ts <+: ps.flatMap Pass.turns → ∀ s ∈ (start.turns ts).2,
      s.reply.isClipboard = true → s.chan ∈ owners ts := by
  intro ts hts
  have hstart : Mediated (start, []) [] :=
    ⟨nofun, nofun, fun _ hs => absurd hs List.not_mem_nil⟩
  have hrun := runLogged_history (fun _ _ _ hm hto => Mediated.turn hm hto) hstart ts
    (h.of_prefix hts)
  rw [List.nil_append, runLogged_withGhost_log] at hrun
  exact hrun.read

/-- The bootstrap session, which has the focus, reads what it wrote. -/
def ownPasses : List Pass :=
  [talk [.createSurface 0 0 8 8 0 0], talk [.clipboardSet [1, 2]], talk [.clipboardGet]]

theorem clipboard_only_to_owners_bootstrap : ∃ s ∈ (start.turns (ownPasses.flatMap Pass.turns)).2,
      s.reply = .clipboard [1, 2] ∧ s.chan ∈ owners (ownPasses.flatMap Pass.turns) := by
  obtain ⟨s, hs, hreply⟩ : ∃ s ∈ (start.turns (ownPasses.flatMap Pass.turns)).2,
      s.reply = .clipboard [1, 2] := by
    decide +kernel
  have hclip : s.reply.isClipboard = true := by
    rw [hreply]
    rfl
  exact ⟨s, hs, hreply,
    clipboard_only_to_owners ownPasses (by decide +kernel) _ List.prefix_rfl s hs hclip⟩

/-- Session `1` takes the slot of the focused window that the bootstrap session
destroyed. -/
def inheritPasses : List Pass :=
  [talk [.createSurface 0 0 8 8 0 0], talk [.openSession], talk [.clipboardSet [1, 2]],
    talk [.destroy 0, .createSurface 0 0 8 8 0 0], talk [.prefs, .clipboardGet]]

/-- Session `1` captures the input from the background. -/
def grabPasses : List Pass :=
  [talk [.createSurface 0 0 8 8 0 0], talk [.openSession], talk [.clipboardSet [1, 2]],
    talk [.prefs, .createSurface 0 0 8 8 0 0], talk [.prefs, .grab 1],
    talk [.prefs, .clipboardGet]]

/-- Either way a session that was never given the focus reads the clipboard. -/
theorem clipboard_read_in_background :
    (∃ s ∈ (start.run inheritPasses).2, s.chan = 1 ∧ s.reply = .clipboard [1, 2] ∧
      1 ∉ owners (inheritPasses.flatMap Pass.turns)) ∧
    (∃ s ∈ (start.run grabPasses).2, s.chan = 1 ∧ s.reply = .clipboard [1, 2] ∧
      1 ∉ owners (grabPasses.flatMap Pass.turns)) := by
  decide +kernel

/-- In every run each surface in use has a session. -/
theorem surfaces_have_sessions (ts : List Turn) : (start.turns ts).1.core.Attended := by
  refine Meets.inv (C := fun _ _ => True) (I := fun st : State => st.core.Attended) ?_
    (fun _ h => by cases h) (meets_true ..)
  intro st t h _
  rw [turn_core]
  exact Core.attended_apply (st.effect_enabled t) h

end State
end NexoOS.Wm
