import NexoOS.Wm.Run

/-!
# Single turns of the loop

A pass of the loop is a sequence of turns: the look at focus and capture, one
message of each session, the events of the input source. Between any two of them
the compositor is in a state that its clients can see, so that an invariant of
the compositor is one of every sequence of turns.
-/

namespace NexoOS.Wm

open List

inductive Turn where
  | sweep (readerGone : Bool)
  | slot (slot : Fin maxClients) (incoming : State.Incoming)
  | input (e : InputEvent)
  | inputClosed

def Msg.isInput : Msg → Bool
  | .pointer .. | .key .. | .drop .. => true
  | _ => false

/-- The object of a surface in use. -/
def Slot.held (s : Slot) : Multiset Nat := if s.used then {s.mem} else 0

/-- The requests that leave the memory of the surfaces as it is. -/
def Request.keepsMemory : Request → Bool
  | .createSurface .. | .destroy _ | .resize .. | .maximize _ | .restore _ => false
  | _ => true

def Reply.isClipboard : Reply → Bool
  | .clipboard _ => true
  | _ => false

namespace State

variable (st : State)

/-- One turn. The input is looked at while there is an input source, and nothing
happens after the end. -/
def turn (st : State) : Turn → State × List Served
  | .sweep gone =>
    if st.exited.isSome then (st, [])
    else ({ st.sweep with a11y := if gone then none else st.a11y }, [])
  | .slot slot incoming =>
    if st.exited.isSome then (st, []) else st.takeMessage slot incoming
  | .input e => if st.exited.isSome ∨ st.inputCh.isNone then (st, []) else (st.inputEvent e, [])
  | .inputClosed =>
    if st.exited.isSome ∨ st.inputCh.isNone then (st, []) else ({ st with inputCh := none }, [])

def turns (ts : List Turn) : State × List Served := runLogged turn st ts

def Input.turns : Input → List Turn
  | .nothing => []
  | .closed => [.inputClosed]
  | .events es => es.map .input

def Pass.turns (p : Pass) : List Turn :=
  .sweep p.readerGone ::
    ((List.finRange maxClients).map fun i => .slot i (p.incoming i)) ++ p.input.turns

theorem turn_exited (h : st.exited.isSome) (t : Turn) : st.turn t = (st, []) := by
  cases t with
  | sweep | slot => exact if_pos h
  | input | inputClosed => exact if_pos (.inl h)

theorem turns_exited (h : st.exited.isSome) (ts : List Turn) : st.turns ts = (st, []) := by
  induction ts with
  | nil => rfl
  | cons t ts ih =>
    unfold turns at ih ⊢
    simp only [runLogged, st.turn_exited h, ih, append_nil]

theorem turns_append (ts ts' : List Turn) : st.turns (ts ++ ts') =
      (((st.turns ts).1.turns ts').1, (st.turns ts).2 ++ ((st.turns ts).1.turns ts').2) := by
  unfold turns
  induction ts generalizing st with
  | nil => rfl
  | cons t ts ih => simp only [cons_append, runLogged, ih, append_assoc]

/-! ## Passes -/

/-- The objects of the surfaces in use, and what is mapped. -/
def memory : (Fin maxSurfaces → Multiset Nat) × List Nat :=
  (fun i => (st.surfaces i).held, st.mapped)

def inputs : List (Dest × Msg) := st.sent.filter (·.2.isInput)

/-- What most turns leave as it is; with `sends` the input that was sent too. -/
def frame (sends : Bool) :
    Option Nat × Option Nat × List (Dest × Msg) × (Fin maxSurfaces → Multiset Nat) × List Nat :=
  (st.exited, st.inputCh, if sends then st.inputs else [], st.memory)

variable (sends : Bool)

theorem frame_setSurfaces {f : Fin maxSurfaces → Slot} (h : ∀ i, (f i).held = (st.surfaces i).held) :
    (st.setSurfaces f).frame sends = st.frame sends :=
  congrArg (st.exited, st.inputCh, if sends then st.inputs else [], ·, st.mapped) (funext h)

theorem frame_setSurface {i : Fin maxSurfaces} {s : Slot} (h : s.held = (st.surfaces i).held) :
    (st.setSurface i s).frame sends = st.frame sends := by
  refine st.frame_setSurfaces sends fun j => ?_
  by_cases hj : j = i
  · rw [hj, Function.update_self, h]
  · rw [Function.update_of_ne hj]

theorem sendOwner_frame (slot : Fin maxClients) (m : Msg) :
    (st.sendOwner slot m).frame false = st.frame false := by
  unfold sendOwner
  split <;> rfl

theorem a11yEmit_frame (kind surface : Nat) (text : List UInt8) :
    (st.a11yEmit kind surface text).frame sends = st.frame sends := by
  unfold a11yEmit
  split
  · rfl
  · simp [frame, inputs, send, memory, Msg.isInput]

theorem focusOn_frame (i : Fin maxSurfaces) : (st.focusOn i).frame sends = st.frame sends := by
  refine (a11yEmit_frame _ sends 1 i _).trans ?_
  exact st.frame_setSurface sends rfl

/-- An event of the input source neither ends the compositor nor its input, and
maps nothing. -/
theorem inputEvent_frame (e : InputEvent) : (st.inputEvent e).frame false = st.frame false := by
  have hclick : st.click.frame false = st.frame false := by
    unfold click
    split
    · rfl
    split
    · unfold clickBanner
      split
      · rfl
      split
      · exact focusOn_frame _ _ _
      · rfl
    split
    · rfl
    rw [sendOwner_frame]
    exact focusOn_frame _ _ _
  have hrelease : st.release.frame false = st.frame false := by
    unfold release
    split
    · rfl
    split
    · rfl
    split
    · rfl
    · exact sendOwner_frame _ _ _
  have hkey : (st.key e.code e.value).frame false = st.frame false := by
    unfold key
    split
    · rfl
    split
    · exact sendOwner_frame _ _ _
    · rfl
  unfold inputEvent
  split
  · split
    · dsimp only [frame, inputs, memory]
    split <;> dsimp only [frame, inputs, memory]
  split
  · split
    · split
      · exact hclick
      · exact hrelease
    split
    · rfl
    split
    · exact sendOwner_frame _ _ _
    split
    · split
      · rfl
      · exact focusOn_frame _ _ _
    · exact hkey
  · rfl

theorem inputEvent_open (e : InputEvent) :
    (st.inputEvent e).exited = st.exited ∧ (st.inputEvent e).inputCh = st.inputCh :=
  ⟨congrArg (·.1) (st.inputEvent_frame e), congrArg (·.2.1) (st.inputEvent_frame e)⟩

theorem turns_input (es : List InputEvent) (h : ¬ (st.exited.isSome ∨ st.inputCh.isNone)) :
    st.turns (es.map .input) = (es.foldl inputEvent st, []) := by
  induction es generalizing st with
  | nil => rfl
  | cons e es ih =>
    have hnext : ¬ ((st.inputEvent e).exited.isSome ∨ (st.inputEvent e).inputCh.isNone) := by
      rw [(st.inputEvent_open e).1, (st.inputEvent_open e).2]
      exact h
    have := ih (st.inputEvent e) hnext
    unfold turns at this ⊢
    simp only [map_cons, runLogged, turn, if_neg h, this, foldl_cons, append_nil]

theorem turns_noInput (i : Input) (h : st.exited.isSome ∨ st.inputCh.isNone) :
    st.turns i.turns = (st, []) := by
  cases i with
  | nothing => rfl
  | closed =>
    unfold turns
    simp only [Input.turns, runLogged, turn, if_pos h, append_nil]
  | events es =>
    unfold turns Input.turns
    induction es with
    | nil => rfl
    | cons e es ih => simp only [map_cons, runLogged, turn, if_pos h, ih, append_nil]

theorem turns_takeInput (i : Input) (h : ¬ (st.exited.isSome ∨ st.inputCh.isNone)) :
    st.turns i.turns = (st.takeInput i, []) := by
  cases i with
  | nothing => rfl
  | closed =>
    unfold turns
    simp only [Input.turns, runLogged, turn, if_neg h, takeInput, append_nil]
  | events es => exact st.turns_input es h

theorem turns_slots (incoming : Fin maxClients → Incoming) (slots : List (Fin maxClients)) :
    st.turns (slots.map fun i => .slot i (incoming i)) = runLogged (takeSlot incoming) st slots := by
  unfold turns
  induction slots generalizing st with
  | nil => rfl
  | cons i slots ih =>
    simp only [map_cons, runLogged, ih]
    rfl

theorem pass_eq_turns (p : Pass) : st.pass p = st.turns p.turns := by
  unfold pass
  split
  · rename_i h
    rw [st.turns_exited h]
  rename_i h
  have hsweep : st.turns [.sweep p.readerGone] = (st.beginPass p, []) := by
    unfold turns
    simp only [runLogged, turn, if_neg h, append_nil]
    rfl
  rw [Pass.turns, ← singleton_append, append_assoc, turns_append, hsweep, turns_append,
    turns_slots]
  dsimp only
  split
  · rename_i hinput
    rw [turns_noInput _ _ hinput]
    simp only [append_nil, nil_append]
  rename_i hinput
  rw [turns_takeInput _ _ hinput]
  simp only [append_nil, nil_append]

theorem run_eq_turns (ps : List Pass) : st.run ps = st.turns (ps.flatMap Pass.turns) := by
  induction ps generalizing st with
  | nil => rfl
  | cons p ps ih =>
    rw [flatMap_cons, turns_append, ← pass_eq_turns, ← ih]
    rfl

/-! ## What every request keeps -/

theorem retile_frame : st.retile.frame true = st.frame true := by
  unfold retile
  dsimp only
  split
  · rfl
  · refine st.frame_setSurfaces true fun i => ?_
    split <;> rfl

theorem retileAuto_frame : st.retileAuto.frame true = st.frame true := by
  unfold retileAuto
  split
  · exact st.retile_frame
  · rfl

theorem showContext_frame (c : Fin numContexts) : (st.showContext c).frame true = st.frame true := by
  unfold showContext
  dsimp only
  split
  · exact a11yEmit_frame ..
  · rfl

theorem notify_frame (slot : Fin maxClients) (title : List UInt8) :
    (st.notify slot title).frame true = st.frame true := by
  unfold notify postNotice
  dsimp only
  split
  · rfl
  split
  · exact a11yEmit_frame ..
  · rfl

/-- The compositor goes on, sends no input, and gives the clipboard to the
session that has the input only. -/
structure Answers (slot : Fin maxClients) (keeps : Bool) (r : State × Reply) : Prop where
  exited : r.1.exited = st.exited
  inputs : r.1.inputs = st.inputs
  memory : keeps = true → r.1.memory = st.memory
  clipboard : r.2.isClipboard = true → st.inputOwner slot = true

variable {st} {slot : Fin maxClients} {keeps : Bool}

theorem Answers.of_frame {r : State × Reply} (h : r.1.frame true = st.frame true)
    (hc : r.2.isClipboard = true → st.inputOwner slot = true) : st.Answers slot keeps r :=
  ⟨congrArg (·.1) h, congrArg (·.2.2.1) h, fun _ => congrArg (·.2.2.2) h, hc⟩

theorem onMine_answers {id : Nat} {f : Fin maxSurfaces → State × Reply}
    (h : ∀ i, st.Answers slot keeps (f i)) : st.Answers slot keeps (st.onMine slot id f) := by
  unfold onMine
  split
  · exact .of_frame rfl nofun
  · exact h _

theorem withInput_answers {r : State × Reply} (h : r.1.frame true = st.frame true) :
    st.Answers slot keeps (st.withInput slot r) := by
  unfold withInput
  split
  · exact .of_frame h fun _ => ‹_›
  · exact .of_frame rfl nofun

theorem asShell_answers {r : State × Reply} (h : st.Answers slot keeps r) :
    st.Answers slot keeps (st.asShell slot r) := by
  unfold asShell
  split
  · exact h
  · exact .of_frame rfl nofun

theorem reallocSurface_answers {st' : State} (h : st'.frame true = st.frame true) (i : Fin maxSurfaces)
    (w hh : Int) (mem : Option Nat) : st.Answers slot false (st'.reallocSurface i w hh mem) := by
  cases mem <;> exact ⟨congrArg (·.1) h, congrArg (·.2.2.1) h, nofun, nofun⟩

theorem serve_answers (slot : Fin maxClients) (mem : Option Nat) (rq : Request) :
    st.Answers slot rq.keepsMemory (st.serve slot mem rq) := by
  cases rq with
  | createSurface x y w h z display =>
    dsimp only [serve, createSurface]
    split
    · exact .of_frame rfl nofun
    split
    · exact .of_frame rfl nofun
    split
    · exact .of_frame rfl nofun
    · exact ⟨congrArg (·.1) (retileAuto_frame _), congrArg (·.2.2.1) (retileAuto_frame _), nofun, nofun⟩
  | commit id => exact onMine_answers fun _ => .of_frame rfl nofun
  | dismissNotification | prefs | a11ySubscribe => exact .of_frame rfl nofun
  | setInput => exact ⟨rfl, rfl, fun _ => rfl, nofun⟩
  | move | raise | lower | setAlpha | setTitle | setDocument =>
    exact onMine_answers fun _ => .of_frame (st.frame_setSurface true rfl) nofun
  | destroy id =>
    exact onMine_answers fun _ =>
      ⟨congrArg (·.1) (retileAuto_frame _), congrArg (·.2.2.1) (retileAuto_frame _), nofun, nofun⟩
  | output display => exact asShell_answers (by split <;> exact .of_frame rfl nofun)
  | openSession =>
    dsimp only [serve, openSession]
    split <;> exact .of_frame rfl nofun
  | resize id w h =>
    refine onMine_answers fun i => ?_
    split
    · exact .of_frame rfl nofun
    · exact reallocSurface_answers rfl i w h mem
  | maximize id =>
    refine onMine_answers fun i => reallocSurface_answers ?_ i _ _ mem
    exact st.frame_setSurface true rfl
  | restore id =>
    refine onMine_answers fun i => ?_
    unfold restore
    split
    · exact .of_frame rfl nofun
    · refine reallocSurface_answers ?_ i _ _ mem
      exact st.frame_setSurface true rfl
  | tile => exact .of_frame st.retile_frame nofun
  | grab id =>
    refine onMine_answers fun i => ?_
    unfold grab
    split <;> exact .of_frame rfl nofun
  | ungrab id =>
    refine onMine_answers fun i => ?_
    unfold ungrab
    split <;> exact .of_frame rfl nofun
  | moveToDisplay | setContext =>
    refine onMine_answers fun i => ?_
    split
    all_goals first | exact .of_frame rfl nofun | exact .of_frame (st.frame_setSurface true rfl) nofun
  | switchContext context =>
    dsimp only [serve, switchContext]
    split
    · exact .of_frame ((showContext_frame _ _).trans (a11yEmit_frame ..)) nofun
    · exact .of_frame rfl nofun
  | clipboardSet | clipboardGet | clipboardEnableHistory | setDnd | dragStart | setReduceMotion
  | setTheme | setIdioma | prefsSave => exact withInput_answers rfl
  | clipboardHistory index => exact withInput_answers (by split <;> rfl)
  | notify title => exact .of_frame (st.notify_frame slot title) nofun
  | notificationInfo | notificationsClear => exact asShell_answers (.of_frame rfl nofun)
  | surfaceInfo index =>
    refine asShell_answers ?_
    unfold surfaceInfo
    split <;> exact .of_frame rfl nofun
  | activate id =>
    refine asShell_answers ?_
    unfold activate
    split
    · split
      · exact .of_frame ((focusOn_frame ..).trans (showContext_frame _ _)) nofun
      · exact .of_frame rfl nofun
    · exact .of_frame rfl nofun
  | setScale id num den =>
    refine onMine_answers fun i => ?_
    unfold setScale
    split
    · exact .of_frame rfl nofun
    dsimp only
    split
    · exact .of_frame rfl nofun
    · exact .of_frame (st.frame_setSurface true rfl) nofun
  | setGlobalScale num den =>
    refine asShell_answers ?_
    unfold setGlobalScale
    split
    · exact .of_frame rfl nofun
    refine .of_frame (frame_setSurfaces _ _ fun i => ?_) nofun
    dsimp only
    split <;> rfl
  | setAutoTile enabled => exact asShell_answers (.of_frame (retileAuto_frame _) nofun)
  | prefsLoad file =>
    refine withInput_answers ?_
    cases file <;> rfl

theorem disconnect_frame (st : State) (slot : Fin maxClients) :
    ((st.disconnect slot).frame true).2 =
      ((st.freeSessionSurfaces slot).frame true).2 := by
  have hend : ∀ {st' : State} (p : Prop) [Decidable p],
      ((if p then { st' with exited := some 0 } else st').frame true).2 = (st'.frame true).2 := by
    intro st' p _
    split <;> rfl
  exact (hend _).trans (congrArg (·.2) (retileAuto_frame _))

theorem takeMessage_inputs (st : State) (slot : Fin maxClients) (incoming : Incoming) :
    (st.takeMessage slot incoming).1.inputs = st.inputs := by
  cases incoming with
  | nothing => rfl
  | closed =>
    dsimp only [takeMessage]
    split
    · exact congrArg (·.2.1) (st.disconnect_frame slot)
    · rfl
  | message rq mem lost =>
    dsimp only [takeMessage]
    split
    · rename_i chan q _
      refine Eq.trans ?_ (serve_answers slot mem q).inputs
      split <;> rfl
    · rfl

end State
end NexoOS.Wm
