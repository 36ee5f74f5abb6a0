import NexoOS.Wm.State

/-!
# Requests to the compositor

`serve` and the event loop of `wm`. A pass of the loop drops a focus or capture
whose surface is gone, takes at most one message of each session in the order of
the slots, and then a message of the input source.
-/

namespace NexoOS.Wm

/-! ## Requests and replies -/

/-- What `prefs_le` reads from the volume. -/
structure Prefs where
  reduceMotion : Bool
  scale : Nat × Nat
  theme : UInt8
  idioma : UInt8
  deriving DecidableEq

/-- The requests of `nexo.wm`. `prefsLoad` has what the lent volume holds. -/
inductive Request where
  | createSurface (x y w h z : Int) (display : UInt8)
  | commit (id : Nat)
  | move (id : Nat) (x y : Int)
  | destroy (id : Nat)
  | output (display : UInt8)
  | openSession
  | raise (id : Nat)
  | lower (id : Nat)
  | resize (id : Nat) (w h : Int)
  | setInput
  | setAlpha (id : Nat) (alpha : UInt8)
  | maximize (id : Nat)
  | restore (id : Nat)
  | tile
  | grab (id : Nat)
  | ungrab (id : Nat)
  | moveToDisplay (id : Nat) (display : UInt8)
  | setContext (id : Nat) (context : UInt8)
  | switchContext (context : UInt8)
  | clipboardSet (data : List UInt8)
  | clipboardGet
  | clipboardEnableHistory
  | clipboardHistory (index : Nat)
  | notify (title : List UInt8)
  | dismissNotification
  | setDnd (enabled : UInt8)
  | dragStart (data : List UInt8)
  | notificationInfo (index : Nat)
  | notificationsClear
  | surfaceInfo (index : Nat)
  | activate (id : Nat)
  | setScale (id num den : Nat)
  | setReduceMotion (enabled : UInt8)
  | prefs
  | setGlobalScale (num den : Nat)
  | setAutoTile (enabled : UInt8)
  | setTheme (theme : UInt8)
  | setIdioma (idioma : UInt8)
  | setTitle (id : Nat) (title : List UInt8)
  | setDocument (id : Nat) (path : List UInt8)
  | a11ySubscribe
  | prefsSave
  | prefsLoad (file : Option Prefs)
  deriving DecidableEq

inductive Reply where
  | error (code : Nat)
  | done
  | created (id : Fin maxSurfaces) (mem : Nat)
  | memory (mem : Nat)
  | output (w h : Int) (display : UInt8)
  | clipboard (data : List UInt8)
  | notification (title : Option (List UInt8))
  | surface (s : Option (Fin maxSurfaces × Fin numContexts × UInt8 × List UInt8 × List UInt8))
  | prefs (p : Prefs)
  deriving DecidableEq

/-- The requests that only the shell may make: those with the check that the
session is number `0`. -/
def Request.shellOnly : Request → Bool
  | .output _ | .surfaceInfo _ | .activate _ | .notificationInfo _ | .notificationsClear
  | .setGlobalScale _ _ | .setAutoTile _ => true
  | _ => false

namespace State

variable (st : State)

/-! ## Buffers of surfaces -/

/-- `realloc_surface`: the old object is given up; without memory for a new one
the surface is removed. -/
def reallocSurface (i : Fin maxSurfaces) (w h : Int) : Option Nat → State × Reply
  | none =>
    ((st.setSurface i { st.surfaces i with used := false }).setMapped
        (st.mapped.erase (st.surfaces i).mem),
      .error eNoRes)
  | some mem =>
    let s := st.surfaces i
    ((st.setSurface i { s with rect := { s.rect with w, h }, bufW := w, bufH := h, mem }).setMapped
        (mem :: st.mapped.erase s.mem),
      .memory mem)

variable (slot : Fin maxClients)

def createSurface (x y w h z : Int) (display : UInt8) (mem : Option Nat) : State × Reply :=
  if w ≤ 0 ∨ h ≤ 0 ∨ outW < w ∨ outH < h ∨ numDisplays ≤ display.toNat then (st, .error eInvalid)
  else
    match (List.finRange maxSurfaces).find? fun i => !(st.surfaces i).used with
    | none => (st, .error eNoRes)
    | some id =>
      match mem with
      | none => (st, .error eNoRes)
      | some mem =>
        let rect : Rect :=
          ⟨x, y, scaled w st.attention.scale outW, scaled h st.attention.scale outH⟩
        let s : Slot :=
          { used := true, owner := slot, rect, z, alpha := 255, bufW := w, bufH := h, display,
            context := 0, title := [], document := [], saved := none, mem }
        let st' := ((st.setSurface id s).setMapped (mem :: st.mapped)).setFocused
          (st.focused.or (some id))
        (st'.retileAuto, .created id mem)

/-! ## Notifications -/

variable (title : List UInt8)

/-- The title enters the log, newest first. -/
def logNotice : State :=
  st.setAttention { st.attention with log := (title :: st.attention.log).take 8 }

/-- The window on top of those of the session: where a notification comes
from. -/
def noticeSource : Option (Fin maxSurfaces) :=
  st.maxByZ fun s => s.used ∧ s.owner = slot

def noticeContext : Option (Fin maxSurfaces) → Fin numContexts
  | none => st.activeCtx
  | some i => (st.surfaces i).context

/-- A notification is shown in the active context and waits in another. -/
def postNotice (src : Option (Fin maxSurfaces)) : State :=
  let ctx := st.noticeContext src
  if ctx = st.activeCtx then
    (st.setAttention { st.attention with
      banner := some (title, ctx), bannerSrc := src }).a11yEmit 2 0 title
  else
    st.setAttention { st.attention with
      pending := Function.update st.attention.pending ctx (some title)
      pendingSrc := Function.update st.attention.pendingSrc ctx src }

def notify : State :=
  let st := st.logNotice title
  if st.attention.dnd then st else st.postNotice title (st.noticeSource slot)

/-! ## `serve` -/

/-- A request on a surface of the session's own. -/
def onMine (id : Nat) (f : Fin maxSurfaces → State × Reply) : State × Reply :=
  match st.mine slot id with
  | none => (st, .error eNoSurface)
  | some i => f i

/-- A change of a surface of the session's own. -/
def updateMine (id : Nat) (f : Slot → Slot) : State × Reply :=
  st.onMine slot id fun i => (st.setSurface i (f (st.surfaces i)), .done)

/-- A request that needs the input. -/
def withInput (r : State × Reply) : State × Reply :=
  if st.inputOwner slot then r else (st, .error eNoInputOwner)

/-- A request that only the shell may make. -/
def asShell (r : State × Reply) : State × Reply :=
  if slot = 0 then r else (st, .error eNotShell)

def prefsNow : Prefs where
  reduceMotion := st.attention.reduceMotion
  scale := st.attention.scale
  theme := st.attention.theme
  idioma := st.attention.idioma

def setClipboard (data : List UInt8) : State :=
  { st with clipboard := { st.clipboard with
      data
      hist := if st.clipboard.histEnabled then (data :: st.clipboard.hist).take 4
        else st.clipboard.hist } }

/-- `activate`: the context of the window, then the window. -/
def activate (id : Nat) : State × Reply :=
  if h : id < maxSurfaces then
    if (st.surfaces ⟨id, h⟩).used then
      ((st.showContext (st.surfaces ⟨id, h⟩).context).focusOn ⟨id, h⟩, .done)
    else (st, .error eNoSurface)
  else (st, .error eNoSurface)

def surfaceInfo (index : Nat) : State × Reply :=
  if h : index < maxSurfaces then
    let s := st.surfaces ⟨index, h⟩
    (st, .surface (if s.used then
      some (⟨index, h⟩, s.context, s.display, s.title, s.document) else none))
  else (st, .error eInvalid)

def notificationsClear : State :=
  st.setAttention { st.attention with
    log := [], pending := fun _ => none, pendingSrc := fun _ => none, bannerSrc := none
    banner := none }

def setGlobalScale (num den : Nat) : State × Reply :=
  if num = 0 ∨ den = 0 ∨ 8 * den % 2 ^ 32 < num then (st, .error eInvalid)
  else
    ((st.setAttention { st.attention with scale := (num, den) }).setSurfaces fun i =>
        let s := st.surfaces i
        if s.used then
          { s with rect := { s.rect with
              w := scaled s.bufW (num, den) outW, h := scaled s.bufH (num, den) outH } }
        else s,
      .done)

def setAutoTile (enabled : UInt8) : State :=
  (st.setAttention { st.attention with autoTile := enabled ≠ 0 }).retileAuto

variable (i : Fin maxSurfaces)

def setScale (num den : Nat) : State × Reply :=
  if num = 0 ∨ den = 0 then (st, .error eInvalid)
  else
    let s := st.surfaces i
    let w := asI32 (s.bufW * num / den)
    let h := asI32 (s.bufH * num / den)
    if w ≤ 0 ∨ h ≤ 0 ∨ outW < w ∨ outH < h then (st, .error eInvalid)
    else (st.setSurface i { s with rect := { s.rect with w, h } }, .done)

variable (mem : Option Nat)

def maximize : State × Reply :=
  let s := st.surfaces i
  (st.setSurface i { s with
    saved := s.saved.or (some s.rect), rect := { s.rect with x := 0, y := 0 } }).reallocSurface
      i outW outH mem

def restore : State × Reply :=
  match (st.surfaces i).saved with
  | none => (st, .error eInvalid)
  | some saved =>
    let s := st.surfaces i
    (st.setSurface i { s with
      saved := none, rect := { s.rect with x := saved.x, y := saved.y } }).reallocSurface
        i saved.w saved.h mem

def switchContext (context : UInt8) : State × Reply :=
  if h : context.toNat < numContexts then
    let c : Fin numContexts := ⟨context.toNat, h⟩
    let st := ((st.setActiveCtx c).a11yEmit 3 context.toNat []).showContext c
    (st.setFocused (st.maxByZ fun s => s.used ∧ s.context = c), .done)
  else (st, .error eInvalid)

def grab : State × Reply :=
  if st.grabbed.isSome ∧ st.grabbed ≠ some i then (st, .error eGrabbed)
  else (st.setGrabbed (some i), .done)

def ungrab : State × Reply :=
  if st.grabbed = some i then (st.setGrabbed none, .done) else (st, .error eInvalid)

/-- `open`: the channel becomes the session of the first free slot. -/
def openSession : State × Reply :=
  match (List.finRange maxClients).find? fun i => (st.sessions i).isNone with
  | none => ({ st with nextChan := st.nextChan + 1 }, .error eNoSession)
  | some i =>
    ({ st with
        sessions := Function.update st.sessions i (some st.nextChan)
        nextChan := st.nextChan + 1 },
      .done)

def applyPrefs : Option Prefs → State
  | none => st
  | some p =>
    st.setAttention { st.attention with
      reduceMotion := p.reduceMotion, scale := p.scale, theme := p.theme, idioma := p.idioma }

/-- What the compositor does for the session in `slot`. `mem` is the object that
the kernel creates if one is asked for. -/
def serve : Request → State × Reply
  | .createSurface x y w h z display => st.createSurface slot x y w h z display mem
  | .commit id => st.onMine slot id fun _ => (st, .done)
  | .move id x y => st.updateMine slot id fun s => { s with rect := { s.rect with x, y } }
  | .destroy id =>
    st.onMine slot id fun i =>
      ((st.setSurface i { st.surfaces i with used := false }).retileAuto, .done)
  | .output display =>
    st.asShell slot
      (if numDisplays ≤ display.toNat then (st, .error eInvalid)
      else (st, .output outW outH display))
  | .openSession => st.openSession
  | .raise id => st.updateMine slot id fun s => { s with z := st.above }
  | .lower id => st.updateMine slot id fun s => { s with z := st.below }
  | .resize id w h =>
    st.onMine slot id fun i =>
      if w ≤ 0 ∨ h ≤ 0 ∨ outW < w ∨ outH < h then (st, .error eInvalid)
      else st.reallocSurface i w h mem
  | .setInput => ({ st with inputCh := some st.nextChan, nextChan := st.nextChan + 1 }, .done)
  | .setAlpha id alpha => st.updateMine slot id fun s => { s with alpha }
  | .maximize id => st.onMine slot id fun i => st.maximize i mem
  | .restore id => st.onMine slot id fun i => st.restore i mem
  | .tile => (st.retile, .done)
  | .grab id => st.onMine slot id st.grab
  | .ungrab id => st.onMine slot id st.ungrab
  | .moveToDisplay id display =>
    st.onMine slot id fun i =>
      if numDisplays ≤ display.toNat then (st, .error eInvalid)
      else (st.setSurface i { st.surfaces i with display }, .done)
  | .setContext id context =>
    st.onMine slot id fun i =>
      if h : context.toNat < numContexts then
        (st.setSurface i { st.surfaces i with context := ⟨context.toNat, h⟩ }, .done)
      else (st, .error eInvalid)
  | .switchContext context => st.switchContext context
  | .clipboardSet data => st.withInput slot (st.setClipboard data, .done)
  | .clipboardGet => st.withInput slot (st, .clipboard st.clipboard.data)
  | .clipboardEnableHistory =>
    st.withInput slot ({ st with clipboard := { st.clipboard with histEnabled := true } }, .done)
  | .clipboardHistory index =>
    st.withInput slot
      (match st.clipboard.histEnabled, st.clipboard.hist[index]? with
      | true, some data => (st, .clipboard data)
      | _, _ => (st, .error eInvalid))
  | .notify title => (st.notify slot title, .done)
  | .dismissNotification =>
    (st.setAttention { st.attention with banner := none, bannerSrc := none }, .done)
  | .setDnd enabled =>
    st.withInput slot (st.setAttention { st.attention with dnd := enabled ≠ 0 }, .done)
  | .dragStart data => st.withInput slot (st.setDrag (some data), .done)
  | .notificationInfo index => st.asShell slot (st, .notification st.attention.log[index]?)
  | .notificationsClear => st.asShell slot (st.notificationsClear, .done)
  | .surfaceInfo index => st.asShell slot (st.surfaceInfo index)
  | .activate id => st.asShell slot (st.activate id)
  | .setScale id num den => st.onMine slot id fun i => st.setScale i num den
  | .setReduceMotion enabled =>
    st.withInput slot
      (st.setAttention { st.attention with reduceMotion := enabled ≠ 0 }, .done)
  | .prefs => (st, .prefs st.prefsNow)
  | .setGlobalScale num den => st.asShell slot (st.setGlobalScale num den)
  | .setAutoTile enabled => st.asShell slot (st.setAutoTile enabled, .done)
  | .setTheme theme =>
    st.withInput slot
      (st.setAttention { st.attention with theme := if theme ≠ 0 then 1 else 0 }, .done)
  | .setIdioma idioma =>
    st.withInput slot
      (st.setAttention { st.attention with idioma := if idioma ≠ 0 then 1 else 0 }, .done)
  | .setTitle id title => st.updateMine slot id fun s => { s with title }
  | .setDocument id path => st.updateMine slot id fun s => { s with document := path }
  | .a11ySubscribe => ({ st with a11y := some st.nextChan, nextChan := st.nextChan + 1 }, .done)
  | .prefsSave => st.withInput slot (st, .done)
  | .prefsLoad file => st.withInput slot (st.applyPrefs file, .done)

end State
end NexoOS.Wm
