import NexoOS.Wm.FocusVisible

/-!
# The memory of the surfaces

The compositor maps the object of every surface it creates, and what is mapped
is to be what the surfaces in use hold. `realloc_surface` gives up the old object;
`destroy` and the end of a session close the handle and leave the mapping.
-/

namespace NexoOS.Wm

def Request.destroyed : Request → Option Nat
  | .destroy id => some id
  | _ => none

namespace State

variable (st : State) (slot : Fin maxClients)

/-- What is mapped is what the surfaces in use hold. -/
def Exact : Prop := (st.memory.2 : Multiset Nat) = ∑ i, st.memory.1 i

instance : Decidable st.Exact := inferInstanceAs (Decidable (_ = _))

/-- The turn destroys a surface, or ends a session that has some. -/
def Abandons : Turn → Prop
  | .slot slot incoming => st.exited.isNone ∧ (st.sessions slot).isSome ∧ match incoming with
    | .message (some rq) _ _ => rq.destroyed.bind (st.mine slot) ≠ none
    | .closed => ∃ i, (st.surfaces i).used ∧ (st.surfaces i).owner = slot
    | _ => False
  | _ => False

def heldBut (i : Fin maxSurfaces) : Multiset Nat := ∑ j ∈ Finset.univ \ {i}, st.memory.1 j

variable {st} {st' : State} {i : Fin maxSurfaces}

theorem exact_setMapped {s : Slot} (l : List Nat) : ((st.setSurface i s).setMapped l).Exact ↔
    (l : Multiset Nat) = s.held + st.heldBut i := by
  have hs : (st.setSurface i s).memory.1 = Function.update st.memory.1 i s.held :=
    Function.comp_update Slot.held ..
  change _ = ∑ j, (st.setSurface i s).memory.1 j ↔ _
  rw [hs, Finset.sum_update_of_mem (Finset.mem_univ i)]
  rfl

section
variable (h : st.Exact)
include h

theorem Exact.congr (hm : st'.memory = st.memory) : st'.Exact := by
  unfold Exact
  rw [hm]
  exact h

theorem Exact.setSurface {s : Slot} (hs : s.held = (st.surfaces i).held) :
    (st.setSurface i s).Exact :=
  h.congr (congrArg (·.2.2.2) (st.frame_setSurface true hs))

theorem Exact.split (i : Fin maxSurfaces) :
    (st.mapped : Multiset Nat) = (st.surfaces i).held + st.heldBut i :=
  (exact_setMapped st.mapped).1 (h.setSurface rfl)

theorem Exact.reallocSurface (hused : (st.surfaces i).used = true) (w hh : Int)
    (mem : Option Nat) : (st.reallocSurface i w hh mem).1.Exact := by
  have hrest : ((st.mapped.erase (st.surfaces i).mem : List Nat) : Multiset Nat) = st.heldBut i := by
    rw [← Multiset.coe_erase, h.split i, Slot.held, if_pos hused, Multiset.singleton_add,
      Multiset.erase_cons_head]
  cases mem with
  | none => exact (exact_setMapped _).2 (hrest.trans (zero_add _).symm)
  | some mem =>
    refine (exact_setMapped _).2 ?_
    rw [← Multiset.cons_coe, hrest, Slot.held, if_pos hused, Multiset.singleton_add]

theorem Exact.createSurface (x y w hh z : Int) (display : UInt8) (mem : Option Nat) :
    (st.createSurface slot x y w hh z display mem).1.Exact := by
  unfold State.createSurface
  split
  · exact h
  split
  · exact h
  rename_i id hfree
  split
  · exact h
  rename_i mem
  refine Exact.congr ?_ (congrArg (·.2.2.2) (retileAuto_frame _))
  refine Exact.congr ((exact_setMapped (i := id) (mem :: st.mapped)).2 ?_) rfl
  have hunused : (st.surfaces id).used = false := by simpa using List.find?_some hfree
  rw [← Multiset.cons_coe, h.split id]
  simp [Slot.held, hunused]

theorem Exact.onMine {id : Nat} {f : Fin maxSurfaces → State × Reply}
    (hf : ∀ i, (st.surfaces i).used = true → (f i).1.Exact) : (st.onMine slot id f).1.Exact := by
  unfold State.onMine
  rcases hmine : st.mine slot id with _ | i
  · exact h
  · exact hf i (st.mine_used hmine).1

theorem Exact.serve (mem : Option Nat) (rq : Request) :
    (st.serve slot mem rq).1.Exact ↔ rq.destroyed.bind (st.mine slot) = none := by
  cases rq with
  | destroy id =>
    simp only [State.serve, State.onMine, Request.destroyed, Option.bind_some]
    rcases hmine : st.mine slot id with _ | i
    · exact iff_of_true h rfl
    refine iff_of_false (fun hexact => ?_) (by simp)
    have := (exact_setMapped st.mapped).1
      (hexact.congr (congrArg (·.2.2.2) (retileAuto_frame _)).symm)
    rw [h.split i, Slot.held, if_pos (st.mine_used hmine).1] at this
    exact Multiset.singleton_ne_zero _ (add_right_cancel this)
  | createSurface => exact iff_of_true (h.createSurface slot ..) rfl
  | resize id w hh =>
    refine iff_of_true (h.onMine slot fun i hused => ?_) rfl
    split
    · exact h
    · exact h.reallocSurface hused w hh mem
  | maximize id =>
    refine iff_of_true (h.onMine slot fun i hused => Exact.reallocSurface ?_ ?_ _ _ mem) rfl
    · exact h.setSurface rfl
    · simpa [State.setSurface, setSurfaces] using hused
  | restore id =>
    refine iff_of_true (h.onMine slot fun i hused => ?_) rfl
    unfold restore
    split
    · exact h
    refine Exact.reallocSurface ?_ ?_ _ _ mem
    · exact h.setSurface rfl
    · simpa [State.setSurface, setSurfaces] using hused
  | _ => exact iff_of_true (h.congr ((serve_answers slot mem _).memory rfl)) rfl

theorem Exact.disconnect : (st.disconnect slot).Exact ↔
    ∀ i, (st.surfaces i).used = true → (st.surfaces i).owner ≠ slot := by
  have hm : (st.disconnect slot).memory = (st.freeSessionSurfaces slot).memory :=
    congrArg (·.2.2) (st.disconnect_frame slot)
  have hfree : ∀ i, (st.freeSessionSurfaces slot).memory.1 i +
      (if (st.surfaces i).used ∧ (st.surfaces i).owner = slot then {(st.surfaces i).mem} else 0) =
        st.memory.1 i := by
    intro i
    unfold memory freeSessionSurfaces setSurfaces Slot.held
    dsimp only
    split <;> simp_all
  have hsum := Finset.sum_congr (rfl : Finset.univ = Finset.univ) fun i _ => hfree i
  rw [Finset.sum_add_distrib] at hsum
  unfold Exact at h ⊢
  rw [hm, show (st.freeSessionSurfaces slot).memory.2 = st.memory.2 from rfl, h, ← hsum]
  simp [Finset.sum_eq_zero_iff]

theorem Exact.turn (t : Turn) : ¬ st.Abandons t ↔ (st.turn t).1.Exact := by
  unfold State.turn
  cases t with
  | sweep | inputClosed => exact iff_of_true id (by dsimp only; split <;> exact h.congr rfl)
  | input e =>
    refine iff_of_true id ?_
    dsimp only
    split
    · exact h
    · exact h.congr (congrArg (·.2.2.2) (st.inputEvent_frame e))
  | slot slot incoming =>
    dsimp only
    split
    · rename_i hexited
      exact iff_of_true (fun ha => by simp [Option.isNone_iff_eq_none.1 ha.1] at hexited) h
    rcases hs : st.sessions slot with _ | chan
    · refine iff_of_true (fun ha => by simpa [hs] using ha.2.1) ?_
      cases incoming <;> simpa [takeMessage, hs] using h
    rcases incoming with _ | _ | ⟨_ | rq, mem, lost⟩
    · simpa [takeMessage, Abandons] using h
    · simp_all [takeMessage, Abandons, h.disconnect]
    · simpa [takeMessage, Abandons] using h
    · have hlost : ∀ {st' : State} {code},
          (if lost then { st' with exited := code } else st').Exact ↔ st'.Exact := by
        intro st' code
        split <;> rfl
      simp_all [takeMessage, Abandons, h.serve]

end

/-- In a run of the loop what is mapped is between any two turns what the surfaces
in use hold exactly when none of them is destroyed and no session that has some
ends. -/
theorem mappings_exact_iff (ps : List Pass) :
    Meets turn (fun st t => ¬ st.Abandons t) .start (ps.flatMap Pass.turns) ↔
      ∀ ts, ts <+: ps.flatMap Pass.turns → (start.turns ts).1.Exact :=
  meets_iff_prefixes (I := fun _ => True) (fun _ _ _ => trivial) (fun _ t _ h => h.turn t) trivial
    (by decide +kernel) _

/-- A destroyed surface stays mapped. -/
theorem destroyed_stays_mapped : ¬ (start.run [talk [.createSurface 0 0 8 8 0 0],
      talk [.destroy 0]]).1.Exact := by
  decide +kernel

end State
end NexoOS.Wm
