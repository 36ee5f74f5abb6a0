import NexoOS.Wm.Turns

/-!
# Who has the input

The part of the compositor that decides who gets the input: which surfaces are
in use, whose they are and in which context, the sessions, the focus and the
capture. The requests and the input act on it in few ways; each turn of the
compositor is one of these effects on its core.
-/

namespace NexoOS.Wm

open Function

@[ext]
structure Core where
  used : Fin maxSurfaces → Bool
  owner : Fin maxSurfaces → Fin maxClients
  context : Fin maxSurfaces → Fin numContexts
  sessions : Fin maxClients → Option Nat
  focused : Option (Fin maxSurfaces)
  grabbed : Option (Fin maxSurfaces)
  activeCtx : Fin numContexts

/-- What a turn does to the core. -/
inductive Effect where
  | stay
  /-- Focus and capture on surfaces that are not in use are dropped. -/
  | sweep
  /-- A new surface of the session in `slot`. -/
  | create (i : Fin maxSurfaces) (slot : Fin maxClients)
  | remove (i : Fin maxSurfaces)
  /-- The surface goes to another context. -/
  | moveTo (i : Fin maxSurfaces) (c : Fin numContexts)
  /-- Another context becomes active, and its highest surface gets the focus. -/
  | switch (c : Fin numContexts) (top : Option (Fin maxSurfaces))
  /-- The shell chooses a surface, and with it its context. -/
  | activate (i : Fin maxSurfaces)
  /-- The user chooses a surface by pointer or keyboard. -/
  | focus (i : Fin maxSurfaces)
  | grab (i : Fin maxSurfaces) (slot : Fin maxClients)
  | ungrab
  | opened (slot : Fin maxClients) (chan : Nat)
  | closed (slot : Fin maxClients)

namespace Effect

def apply (c : Core) : Effect → Core
  | .stay => c
  | .sweep => { c with focused := c.focused.filter c.used, grabbed := c.grabbed.filter c.used }
  | .create i slot =>
    { c with
      used := update c.used i true
      owner := update c.owner i slot
      context := update c.context i 0
      focused := c.focused.or (some i) }
  | .remove i => { c with used := update c.used i false }
  | .moveTo i ctx => { c with context := update c.context i ctx }
  | .switch ctx top => { c with activeCtx := ctx, focused := top }
  | .activate i => { c with activeCtx := c.context i, focused := some i }
  | .focus i => { c with focused := some i }
  | .grab i _ => { c with grabbed := some i }
  | .ungrab => { c with grabbed := none }
  | .opened slot chan => { c with sessions := update c.sessions slot (some chan) }
  | .closed slot =>
    { c with
      used := fun i => c.used i && c.owner i ≠ slot
      sessions := update c.sessions slot none }

/-- When an effect can occur. -/
def Enabled (c : Core) : Effect → Prop
  | .create i slot => c.used i = false ∧ c.sessions slot ≠ none
  | .remove i => c.used i = true
  | .moveTo i _ => c.used i = true
  | .switch ctx top => ∀ i, top = some i → c.used i = true ∧ c.context i = ctx
  | .activate i => c.used i = true
  | .focus i => c.used i = true ∧ c.context i = c.activeCtx
  | .grab i slot => c.used i = true ∧ c.owner i = slot ∧ c.sessions slot ≠ none ∧
      ∀ j, c.grabbed = some j → j = i
  | .opened slot _ => c.sessions slot = none
  | .closed slot => c.sessions slot ≠ none
  | _ => True

end Effect

namespace State

variable (st : State)

def core : Core where
  used i := (st.surfaces i).used
  owner i := (st.surfaces i).owner
  context i := (st.surfaces i).context
  sessions := st.sessions
  focused := st.focused
  grabbed := st.grabbed
  activeCtx := st.activeCtx

/-! ## What keeps the core -/

@[simp] theorem core_setFocused (i : Option (Fin maxSurfaces)) :
    (st.setFocused i).core = { st.core with focused := i } := rfl

@[simp] theorem core_setActiveCtx (c : Fin numContexts) :
    (st.setActiveCtx c).core = { st.core with activeCtx := c } := rfl

@[simp] theorem core_setAttention (a : Attention) : (st.setAttention a).core = st.core := rfl

@[simp] theorem core_setMapped (l : List Nat) : (st.setMapped l).core = st.core := rfl

@[simp] theorem core_sendOwner (slot : Fin maxClients) (m : Msg) :
    (st.sendOwner slot m).core = st.core := by
  unfold sendOwner
  split <;> rfl

@[simp] theorem core_a11yEmit (kind surface : Nat) (text : List UInt8) :
    (st.a11yEmit kind surface text).core = st.core := by
  unfold a11yEmit
  split <;> rfl

theorem core_setSurfaces {f : Fin maxSurfaces → Slot}
    (h : ∀ i, (f i).used = (st.surfaces i).used ∧ (f i).owner = (st.surfaces i).owner ∧
      (f i).context = (st.surfaces i).context) : (st.setSurfaces f).core = st.core := by
  ext i
  · simp only [core, setSurfaces, (h i).1]
  · simp only [core, setSurfaces, (h i).2.1]
  · simp only [core, setSurfaces, (h i).2.2]
  all_goals rfl

theorem core_update (i : Fin maxSurfaces) (s : Slot) : (st.setSurface i s).core = { st.core with
        used := update st.core.used i s.used, owner := update st.core.owner i s.owner,
        context := update st.core.context i s.context } := by
  ext j
  · exact congrFun (Function.comp_update Slot.used st.surfaces i s) j
  · exact congrArg Fin.val (congrFun (Function.comp_update Slot.owner st.surfaces i s) j)
  · exact congrArg Fin.val (congrFun (Function.comp_update Slot.context st.surfaces i s) j)
  all_goals rfl

variable {i : Fin maxSurfaces} {slot : Fin maxClients} {id : Nat}

theorem core_setSurface {s : Slot} (hused : s.used = (st.surfaces i).used)
    (howner : s.owner = (st.surfaces i).owner) (hctx : s.context = (st.surfaces i).context) :
    (st.setSurface i s).core = st.core := by
  rw [core_update, hused, howner, hctx]
  simp only [core, Function.update_eq_self]

@[simp] theorem core_retile : st.retile.core = st.core := by
  unfold retile
  dsimp only
  split
  · rfl
  · refine st.core_setSurfaces fun i => ?_
    split <;> exact ⟨rfl, rfl, rfl⟩

@[simp] theorem core_retileAuto : st.retileAuto.core = st.core := by
  unfold retileAuto
  split
  · exact st.core_retile
  · rfl

theorem core_focusOn (i : Fin maxSurfaces) :
    (st.focusOn i).core = { st.core with focused := some i } := by
  have hraise : (st.setSurface i { st.surfaces i with z := st.above }).core = st.core :=
    st.core_setSurface rfl rfl rfl
  unfold focusOn
  rw [core_a11yEmit, core_setFocused, hraise]

@[simp] theorem core_showContext (c : Fin numContexts) :
    (st.showContext c).core = { st.core with activeCtx := c } := by
  unfold showContext
  dsimp only
  split <;> simp

/-! ## The effect of a turn -/

/-- A request that costs the session its surface if it is `lost`. -/
def lossOf (slot : Fin maxClients) (id : Nat) (lost : Fin maxSurfaces → Bool) : Effect :=
  match st.mine slot id with
  | none => .stay
  | some i => if lost i then .remove i else .stay

def requestEffect (slot : Fin maxClients) (mem : Option Nat) : Request → Effect
  | .createSurface _ _ w h _ display =>
    if w ≤ 0 ∨ h ≤ 0 ∨ outW < w ∨ outH < h ∨ numDisplays ≤ display.toNat then .stay
    else match (List.finRange maxSurfaces).find? fun i => !(st.surfaces i).used, mem with
      | some i, some _ => .create i slot
      | _, _ => .stay
  | .destroy id => st.lossOf slot id fun _ => true
  | .resize id w h => st.lossOf slot id fun _ =>
    mem.isNone ∧ ¬ (w ≤ 0 ∨ h ≤ 0 ∨ outW < w ∨ outH < h)
  | .maximize id => st.lossOf slot id fun _ => mem.isNone
  | .restore id => st.lossOf slot id fun i => mem.isNone && (st.surfaces i).saved.isSome
  | .setContext id context =>
    match st.mine slot id with
    | none => .stay
    | some i => if h : context.toNat < numContexts then .moveTo i ⟨context.toNat, h⟩ else .stay
  | .switchContext context =>
    if h : context.toNat < numContexts then
      .switch ⟨context.toNat, h⟩ (st.maxByZ fun s => s.used ∧ s.context = ⟨context.toNat, h⟩)
    else .stay
  | .activate id =>
    if h : id < maxSurfaces then
      if slot = 0 ∧ (st.surfaces ⟨id, h⟩).used then .activate ⟨id, h⟩ else .stay
    else .stay
  | .grab id => match st.mine slot id with
    | none => .stay
    | some i => if st.grabbed.isSome ∧ st.grabbed ≠ some i then .stay else .grab i slot
  | .ungrab id => match st.mine slot id with
    | none => .stay
    | some i => if st.grabbed = some i then .ungrab else .stay
  | .openSession =>
    match (List.finRange maxClients).find? fun i => (st.sessions i).isNone with
    | none => .stay
    | some i => .opened i st.nextChan
  | _ => .stay

/-- The surface that a press of the button gives the focus to. -/
def clickTarget : Option (Fin maxSurfaces) :=
  if st.grabbed.isSome then none
  else if st.onBanner then
    st.attention.bannerSrc.filter fun i =>
      (st.surfaces i).used ∧ (st.surfaces i).context = st.activeCtx
  else st.hit

/-- The surface that an event of the input gives the focus to. -/
def inputTarget (e : InputEvent) : Option (Fin maxSurfaces) :=
  if e.ty = evKey then
    if e.code = btnLeft then if e.value = 1 then st.clickTarget else none
    else if e.code = keyTab ∧ e.value = 1 ∧ st.metaDown then
      st.minByZ fun s => s.used ∧ s.context = st.activeCtx
    else none
  else none

def effect : Turn → Effect
  | .sweep _ => if st.exited.isSome then .stay else .sweep
  | .slot slot incoming =>
    if st.exited.isSome then .stay
    else match incoming with
      | .nothing => .stay
      | .closed => if (st.sessions slot).isSome then .closed slot else .stay
      | .message rq mem _ =>
        match st.sessions slot, rq with
        | some _, some q => st.requestEffect slot mem q
        | _, _ => .stay
  | .input e =>
    if st.exited.isSome ∨ st.inputCh.isNone then .stay
    else match st.inputTarget e with
      | none => .stay
      | some i => .focus i
  | .inputClosed => .stay

/-! ## The core follows the effects -/

variable {st} in
theorem onMine_core {f : Fin maxSurfaces → State × Reply} (h : ∀ i, (f i).1.core = st.core) :
    (st.onMine slot id f).1.core = st.core := by
  unfold onMine
  split
  · rfl
  · exact h _

theorem updateMine_core {f : Slot → Slot}
    (hf : ∀ s, (f s).used = s.used ∧ (f s).owner = s.owner ∧ (f s).context = s.context) :
    (st.updateMine slot id f).1.core = st.core :=
  onMine_core fun _ => st.core_setSurface (hf _).1 (hf _).2.1 (hf _).2.2

variable {st} in
theorem withInput_core {r : State × Reply} (h : r.1.core = st.core) :
    (st.withInput slot r).1.core = st.core := by
  unfold withInput
  split
  · exact h
  · rfl

variable {st} in
theorem asShell_core {r : State × Reply} (h : r.1.core = st.core) :
    (st.asShell slot r).1.core = st.core := by
  unfold asShell
  split
  · exact h
  · rfl

theorem core_remove {s : Slot} (hused : s.used = false) (howner : s.owner = (st.surfaces i).owner)
    (hctx : s.context = (st.surfaces i).context) :
    (st.setSurface i s).core = (Effect.remove i).apply st.core := by
  rw [core_update, hused, howner, hctx]
  simp only [core, Effect.apply, Function.update_eq_self]

theorem createSurface_core (slot : Fin maxClients) (x y w h z : Int) (display : UInt8)
    (mem : Option Nat) : (st.createSurface slot x y w h z display mem).1.core =
      (st.requestEffect slot mem (.createSurface x y w h z display)).apply st.core := by
  unfold requestEffect createSurface
  dsimp only
  split
  · rfl
  rcases (List.finRange maxSurfaces).find? fun i => !(st.surfaces i).used with _ | i
  · rfl
  rcases mem with _ | mem
  · rfl
  dsimp only
  rw [core_retileAuto, core_setFocused, core_setMapped, core_update]
  rfl

theorem mine_used (h : st.mine slot id = some i) :
    (st.surfaces i).used = true ∧ (st.surfaces i).owner = slot := by
  unfold mine at h
  split at h
  · split at h
    · rename_i hmine
      rw [← Option.some.inj h]
      exact hmine
    · cases h
  · cases h

/-- A request on a surface of the session's own that keeps the surface or removes it. -/
theorem lossOf_core {f : Fin maxSurfaces → State × Reply} {lost : Fin maxSurfaces → Bool}
    (h : ∀ i, (f i).1.core = if lost i then (Effect.remove i).apply st.core else st.core) :
    (st.onMine slot id f).1.core = (st.lossOf slot id lost).apply st.core := by
  unfold onMine lossOf
  rcases st.mine slot id with _ | i
  · rfl
  dsimp only
  rw [h i]
  split <;> rfl

theorem reallocSurface_core (i : Fin maxSurfaces) (w h : Int) (mem : Option Nat) :
    (st.reallocSurface i w h mem).1.core =
      if mem.isNone then (Effect.remove i).apply st.core else st.core := by
  cases mem with
  | none => exact st.core_remove rfl rfl rfl
  | some mem => exact st.core_setSurface rfl rfl rfl

variable {st} in
theorem setRealloc_core {s : Slot} (hs : (st.setSurface i s).core = st.core) (w h : Int)
    (mem : Option Nat) : ((st.setSurface i s).reallocSurface i w h mem).1.core =
      if mem.isNone then (Effect.remove i).apply st.core else st.core := by
  rw [← hs]
  exact reallocSurface_core _ i w h mem

theorem maximize_core (i : Fin maxSurfaces) (mem : Option Nat) : (st.maximize i mem).1.core =
    if mem.isNone then (Effect.remove i).apply st.core else st.core := by
  unfold maximize
  refine setRealloc_core ?_ _ _ mem
  exact st.core_setSurface rfl rfl rfl

theorem restore_core (i : Fin maxSurfaces) (mem : Option Nat) : (st.restore i mem).1.core =
    if mem.isNone && (st.surfaces i).saved.isSome then (Effect.remove i).apply st.core
    else st.core := by
  unfold restore
  rcases (st.surfaces i).saved with _ | saved
  · simp
  · rw [Option.isSome_some, Bool.and_true]
    refine setRealloc_core ?_ _ _ mem
    exact st.core_setSurface rfl rfl rfl

variable (slot)

theorem notify_core (title : List UInt8) : (st.notify slot title).core = st.core := by
  have hpost : ∀ (st : State) src, (st.postNotice title src).core = st.core := by
    intro st src
    unfold postNotice
    dsimp only
    split <;> simp
  unfold notify
  dsimp only
  split
  · rfl
  · rw [hpost]
    rfl

theorem setContext_core (id : Nat) (context : UInt8) (mem : Option Nat) :
    (st.serve slot mem (.setContext id context)).1.core =
      (st.requestEffect slot mem (.setContext id context)).apply st.core := by
  unfold requestEffect serve onMine
  dsimp only
  rcases st.mine slot id with _ | i
  · rfl
  dsimp only
  split
  · rw [core_update]
    simp only [core, Effect.apply, Function.update_eq_self]
  · rfl

@[simp] theorem showContext_surfaces (c : Fin numContexts) :
    (st.showContext c).surfaces = st.surfaces := by
  unfold showContext a11yEmit
  dsimp only
  split
  · split <;> rfl
  · rfl

@[simp] theorem a11yEmit_surfaces (kind surface : Nat) (text : List UInt8) :
    (st.a11yEmit kind surface text).surfaces = st.surfaces := by
  unfold a11yEmit
  split <;> rfl

theorem switchContext_core (context : UInt8) (mem : Option Nat) :
    (st.switchContext context).1.core =
      (st.requestEffect slot mem (.switchContext context)).apply st.core := by
  unfold requestEffect switchContext maxByZ
  dsimp only
  split
  · rw [core_setFocused, core_showContext, core_a11yEmit, core_setActiveCtx]
    simp only [showContext_surfaces, a11yEmit_surfaces, setActiveCtx]
    rfl
  · rfl

theorem activate_core (id : Nat) (mem : Option Nat) :
    (st.asShell slot (st.activate id)).1.core =
      (st.requestEffect slot mem (.activate id)).apply st.core := by
  unfold requestEffect asShell activate
  by_cases hid : id < maxSurfaces
  · simp only [dif_pos hid]
    by_cases hslot : slot = 0
    · by_cases hused : (st.surfaces ⟨id, hid⟩).used
      · rw [if_pos hslot, if_pos hused, if_pos ⟨hslot, hused⟩, core_focusOn, core_showContext]
        rfl
      · rw [if_pos hslot, if_neg hused, if_neg fun h => hused h.2]
        rfl
    · rw [if_neg hslot, if_neg fun h => hslot h.1]
      rfl
  · simp only [dif_neg hid]
    split <;> rfl

theorem openSession_core (mem : Option Nat) :
    st.openSession.1.core = (st.requestEffect slot mem .openSession).apply st.core := by
  unfold requestEffect openSession
  rcases (List.finRange maxClients).find? fun i => (st.sessions i).isNone with _ | i <;> rfl

theorem serve_core (mem : Option Nat) (rq : Request) :
    (st.serve slot mem rq).1.core = (st.requestEffect slot mem rq).apply st.core := by
  cases rq with
  | createSurface x y w h z display => exact st.createSurface_core slot x y w h z display mem
  | destroy id =>
    refine st.lossOf_core fun i => ?_
    rw [core_retileAuto, if_pos rfl]
    exact st.core_remove rfl rfl rfl
  | resize id w h =>
    refine st.lossOf_core fun i => ?_
    split
    · rename_i hbad
      rw [if_neg (by simp [hbad])]
    · rename_i hok
      rw [reallocSurface_core]
      simp [hok]
  | maximize id => exact st.lossOf_core fun i => st.maximize_core i mem
  | restore id => exact st.lossOf_core fun i => st.restore_core i mem
  | setContext id context => exact st.setContext_core slot id context mem
  | switchContext context => exact st.switchContext_core slot context mem
  | activate id => exact st.activate_core slot id mem
  | grab id | ungrab id =>
    unfold requestEffect serve onMine
    dsimp only
    rcases st.mine slot id with _ | i
    · rfl
    dsimp only [grab, ungrab]
    split <;> rfl
  | openSession => exact st.openSession_core slot mem
  -- the others stay
  | commit id => exact onMine_core fun _ => rfl
  | setInput | dismissNotification | prefs | a11ySubscribe => rfl
  | move | raise | lower | setAlpha | setTitle | setDocument =>
    exact st.updateMine_core fun _ => ⟨rfl, rfl, rfl⟩
  | clipboardSet | clipboardGet | clipboardEnableHistory | setDnd | dragStart | setReduceMotion
  | setTheme | setIdioma | prefsSave => exact withInput_core rfl
  | output display => exact asShell_core (by split <;> rfl)
  | tile => exact st.core_retile
  | moveToDisplay id display =>
    refine onMine_core fun i => ?_
    split
    · rfl
    · exact st.core_setSurface rfl rfl rfl
  | clipboardHistory index => exact withInput_core (by split <;> rfl)
  | notify title => exact st.notify_core slot title
  | notificationInfo | notificationsClear => exact asShell_core rfl
  | surfaceInfo index =>
    refine asShell_core ?_
    unfold surfaceInfo
    split <;> rfl
  | setScale id num den =>
    refine onMine_core fun i => ?_
    unfold setScale
    split
    · rfl
    dsimp only
    split
    · rfl
    · exact st.core_setSurface rfl rfl rfl
  | setGlobalScale num den =>
    refine asShell_core ?_
    unfold setGlobalScale
    split
    · rfl
    refine core_setSurfaces _ fun i => ?_
    dsimp only
    split <;> exact ⟨rfl, rfl, rfl⟩
  | setAutoTile enabled => exact asShell_core (core_retileAuto _)
  | prefsLoad file =>
    refine withInput_core ?_
    cases file <;> rfl

theorem clickBanner_core (h : ¬ st.grabbed.isSome) (hbanner : st.onBanner) :
    st.clickBanner.core = { st.core with focused := st.clickTarget.or st.focused } := by
  unfold clickBanner clickTarget
  rw [if_neg h, if_pos hbanner]
  rcases st.attention.bannerSrc with _ | i
  · rfl
  dsimp only
  split
  · rename_i hsrc
    rw [core_focusOn, core_setAttention, Option.filter_some_pos (by simpa using hsrc)]
    rfl
  rename_i hsrc
  rw [Option.filter_some_neg (by simpa using hsrc)]
  rfl

theorem click_core : st.click.core = { st.core with focused := st.clickTarget.or st.focused } := by
  unfold click
  split
  · rename_i h
    unfold clickTarget
    rw [if_pos h]
    rfl
  · rename_i h
    split
    · rename_i hbanner
      exact st.clickBanner_core h hbanner
    rename_i hbanner
    unfold clickTarget
    rw [if_neg h, if_neg hbanner]
    rcases st.hit with _ | i
    · rfl
    rw [core_sendOwner, core_focusOn]
    rfl

theorem release_core : st.release.core = st.core := by
  unfold release
  split
  · rfl
  split
  · rfl
  split
  · rfl
  · rw [core_sendOwner]
    rfl

theorem key_core (code : UInt16) (value : UInt32) : (st.key code value).core = st.core := by
  unfold key
  split
  · rfl
  split
  · exact st.core_sendOwner _ _
  · rfl

theorem inputEvent_core (e : InputEvent) :
    (st.inputEvent e).core = { st.core with focused := (st.inputTarget e).or st.focused } := by
  unfold inputEvent inputTarget
  by_cases habs : e.ty = evAbs
  · have hkey : e.ty ≠ evKey := by rw [habs]; decide
    rw [if_pos habs, if_neg hkey]
    split
    · rfl
    split <;> rfl
  rw [if_neg habs]
  by_cases hkey : e.ty = evKey
  · rw [if_pos hkey, if_pos hkey]
    by_cases hbtn : e.code = btnLeft
    · rw [if_pos hbtn, if_pos hbtn]
      split
      · exact st.click_core
      · exact st.release_core
    rw [if_neg hbtn, if_neg hbtn]
    by_cases hmeta : e.code = keyLeftMeta
    · have htab : ¬ (e.code = keyTab ∧ e.value = 1 ∧ st.metaDown = true) := by
        rw [hmeta]
        exact fun h => absurd h.1 (by decide)
      rw [if_pos hmeta, if_neg htab]
      rfl
    rw [if_neg hmeta]
    by_cases hlock : e.code = keyL ∧ e.value = 1 ∧ st.metaDown = true
    · have htab : ¬ (e.code = keyTab ∧ e.value = 1 ∧ st.metaDown = true) := by
        rw [hlock.1]
        exact fun h => absurd h.1 (by decide)
      rw [if_pos hlock, if_neg htab]
      exact st.core_sendOwner _ _
    rw [if_neg hlock]
    split
    · split
      · rename_i hnone
        rw [hnone]
        rfl
      · rename_i i hsome
        rw [hsome]
        exact st.core_focusOn i
    · exact st.key_core _ _
  · rw [if_neg hkey, if_neg hkey]
    rfl

theorem disconnect_core : (st.disconnect slot).core = (Effect.closed slot).apply st.core := by
  have hend : ∀ st' : State, st'.retileAuto.core = (Effect.closed slot).apply st.core →
      (if ∀ i, (st'.retileAuto.sessions i).isNone then { st'.retileAuto with exited := some 0 }
        else st'.retileAuto).core = (Effect.closed slot).apply st.core := by
    intro st' h
    split
    · exact h
    · exact h
  refine hend _ ?_
  rw [core_retileAuto]
  unfold freeSessionSurfaces setSurfaces core Effect.apply
  ext i
  · dsimp only
    by_cases hused : (st.surfaces i).used <;> by_cases howner : (st.surfaces i).owner = slot <;>
      simp [hused, howner]
  · dsimp only
    split <;> rfl
  · dsimp only
    split <;> rfl
  all_goals rfl

variable {slot}

theorem turn_core (t : Turn) : (st.turn t).1.core = (st.effect t).apply st.core := by
  unfold turn effect
  cases t with
  | sweep | inputClosed =>
    dsimp only
    split <;> rfl
  | slot slot incoming =>
    dsimp only
    split
    · rfl
    cases incoming with
    | nothing => rfl
    | closed =>
      dsimp only [takeMessage]
      split
      · exact st.disconnect_core slot
      · rfl
    | message rq mem lost =>
      dsimp only [takeMessage]
      rcases hs : st.sessions slot with _ | chan
      · rfl
      rcases rq with _ | q
      · rfl
      dsimp only
      rw [← serve_core]
      split <;> rfl
  | input e =>
    dsimp only
    split
    · rfl
    · rw [inputEvent_core]
      rcases st.inputTarget e with _ | i <;> rfl

/-! ## Effects occur where they can -/

theorem of_foldl_choice (p : Slot → Bool) (better : Fin maxSurfaces → Fin maxSurfaces → Prop)
    [∀ b i, Decidable (better b i)] (l : List (Fin maxSurfaces)) {best : Option (Fin maxSurfaces)}
    (hbest : ∀ i, best = some i → p (st.surfaces i) = true) (h : l.foldl (fun best i =>
      if p (st.surfaces i) then match best with
        | none => some i
        | some b => if better b i then some i else some b
      else best) best = some i) : p (st.surfaces i) = true := by
  induction l generalizing best with
  | nil => exact hbest i h
  | cons j l ih =>
    refine ih (fun k hk => ?_) h
    dsimp only at hk
    split at hk
    · rename_i hj
      rcases best with _ | b
      · rw [← Option.some.inj hk]
        exact hj
      dsimp only at hk
      split at hk
      · rw [← Option.some.inj hk]
        exact hj
      · exact hbest k hk
    · exact hbest k hk

theorem of_maxByZ {p : Slot → Bool} (h : st.maxByZ p = some i) : p (st.surfaces i) = true := by
  refine st.of_foldl_choice p (fun b i => (st.surfaces b).z ≤ (st.surfaces i).z) _ ?_ h
  intro j hj
  cases hj

theorem of_minByZ {p : Slot → Bool} (h : st.minByZ p = some i) : p (st.surfaces i) = true := by
  refine st.of_foldl_choice p (fun b i => (st.surfaces i).z < (st.surfaces b).z) _ ?_ h
  intro j hj
  cases hj

theorem lossOf_enabled (slot : Fin maxClients) (id : Nat) (lost : Fin maxSurfaces → Bool) :
    (st.lossOf slot id lost).Enabled st.core := by
  unfold lossOf
  rcases hmine : st.mine slot id with _ | i
  · trivial
  dsimp only
  split
  · exact (st.mine_used hmine).1
  · trivial

theorem requestEffect_enabled (hs : st.sessions slot ≠ none) (mem : Option Nat) (rq : Request) :
    (st.requestEffect slot mem rq).Enabled st.core := by
  unfold requestEffect
  cases rq with
  | createSurface x y w h z display =>
    dsimp only
    split
    · trivial
    split
    · rename_i i _ hfree
      have hused : (st.surfaces i).used = false := by simpa using List.find?_some hfree
      exact ⟨hused, hs⟩
    · trivial
  | destroy | resize | maximize | restore => exact st.lossOf_enabled slot _ _
  | setContext id context =>
    dsimp only
    rcases hmine : st.mine slot id with _ | i
    · trivial
    dsimp only
    split
    · exact (st.mine_used hmine).1
    · trivial
  | switchContext context =>
    dsimp only
    split
    · intro i hi
      have := st.of_maxByZ hi
      rwa [decide_eq_true_eq] at this
    · trivial
  | activate id =>
    dsimp only
    split
    · split
      · rename_i h
        exact h.2
      · trivial
    · trivial
  | grab id =>
    dsimp only
    rcases hmine : st.mine slot id with _ | i
    · trivial
    dsimp only
    split
    · trivial
    rename_i hfree
    refine ⟨(st.mine_used hmine).1, (st.mine_used hmine).2, hs, fun j hj => ?_⟩
    by_contra hne
    have hj : st.grabbed = some j := hj
    exact hfree (by simp [hj, hne])
  | ungrab id =>
    dsimp only
    split
    · trivial
    · split <;> trivial
  | openSession =>
    dsimp only
    split
    · trivial
    rename_i i hfree
    have := List.find?_some hfree
    exact Option.isNone_iff_eq_none.1 this
  | _ => trivial

theorem hit_spec (h : st.hit = some i) :
    (st.surfaces i).used = true ∧ (st.surfaces i).context = st.activeCtx := by
  have := st.of_maxByZ h
  simp only [Bool.and_eq_true, decide_eq_true_eq] at this
  exact this.1

theorem clickTarget_spec (h : st.clickTarget = some i) :
    (st.surfaces i).used = true ∧ (st.surfaces i).context = st.activeCtx := by
  unfold clickTarget at h
  split at h
  · cases h
  split at h
  · have := (Option.filter_eq_some_iff.1 h).2
    simpa using this
  · exact st.hit_spec h

theorem inputTarget_spec {e : InputEvent} (h : st.inputTarget e = some i) :
    (st.surfaces i).used = true ∧ (st.surfaces i).context = st.activeCtx := by
  unfold inputTarget at h
  split at h
  · split at h
    · split at h
      · exact st.clickTarget_spec h
      · cases h
    · split at h
      · have := st.of_minByZ h
        simpa using this
      · cases h
  · cases h

theorem effect_enabled (t : Turn) : (st.effect t).Enabled st.core := by
  unfold effect
  cases t with
  | sweep gone =>
    dsimp only
    split <;> trivial
  | slot slot incoming =>
    dsimp only
    split
    · trivial
    cases incoming with
    | nothing => trivial
    | closed =>
      dsimp only
      split
      · rename_i h
        exact Option.isSome_iff_ne_none.1 h
      · trivial
    | message rq mem lost =>
      dsimp only
      split
      · rename_i chan q hs
        exact st.requestEffect_enabled (by rw [hs]; nofun) mem q
      · trivial
  | input e =>
    dsimp only
    split
    · trivial
    rcases htarget : st.inputTarget e with _ | i
    · trivial
    · exact st.inputTarget_spec htarget
  | inputClosed => trivial

end State
end NexoOS.Wm
