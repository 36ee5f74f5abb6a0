import NexoOS.Lib.Logged
import NexoOS.Wm.Serve

/-!
# Runs of the compositor

The event loop of `wm`, one pass at a time, and the requests that were served
in a run.
-/

namespace NexoOS.Wm

def evKey : UInt16 := 1
def evAbs : UInt16 := 3
def absX : UInt16 := 0
def absY : UInt16 := 1
def btnLeft : UInt16 := 0x110
def keyTab : UInt16 := 15
def keyL : UInt16 := 38
def keyLeftMeta : UInt16 := 125
def shellLock : Nat := 1

structure InputEvent where
  ty : UInt16
  code : UInt16
  value : UInt32

namespace State

variable (st : State)

/-! ## Input -/

/-- The surface under the pointer: the highest one of the active context. -/
def hit : Option (Fin maxSurfaces) :=
  st.maxByZ fun s => s.used && s.context = st.activeCtx && s.rect.contains st.px st.py

/-- The pointer in coordinates of the buffer. -/
def toBufCoords (s : Slot) : Int × Int :=
  ((asI32 (asI32 (st.px - s.rect.x) * s.bufW)).tdiv (max s.rect.w 1),
    (asI32 (asI32 (st.py - s.rect.y) * s.bufH)).tdiv (max s.rect.h 1))

def onBanner : Bool :=
  st.attention.banner.isSome ∧ outW - 32 ≤ st.px ∧ st.px < outW ∧ 0 ≤ st.py ∧ st.py < 10

/-- A click on the banner: it goes away, and the window it came from is shown. -/
def clickBanner : State :=
  let st' := st.setAttention { st.attention with banner := none, bannerSrc := none }
  match st.attention.bannerSrc with
  | none => st'
  | some i =>
    if (st.surfaces i).used ∧ (st.surfaces i).context = st.activeCtx then st'.focusOn i else st'

def click : State :=
  if st.grabbed.isSome then st
  else if st.onBanner then st.clickBanner
  else
    match st.hit with
    | none => st
    | some i =>
      let st := st.focusOn i
      let p := st.toBufCoords (st.surfaces i)
      st.sendOwner (st.surfaces i).owner (.pointer i p.1 p.2)

/-- The button is let go: what was dragged goes to the window under the
pointer. -/
def release : State :=
  let st' := st.setDrag none
  match st.drag with
  | none => st'
  | some data =>
    if st.grabbed.isSome then st'
    else
      match st.hit with
      | none => st'
      | some i => st'.sendOwner (st.surfaces i).owner (.drop i data)

/-- A key goes to the captured surface, or else to the focused one. -/
def key (code : UInt16) (value : UInt32) : State :=
  match st.grabbed.or st.focused with
  | none => st
  | some i =>
    if (st.surfaces i).used then st.sendOwner (st.surfaces i).owner (.key i code value) else st

def inputEvent (e : InputEvent) : State :=
  if e.ty = evAbs then
    if e.code = absX then { st with px := asI32 e.value.toNat }
    else if e.code = absY then { st with py := asI32 e.value.toNat }
    else st
  else if e.ty = evKey then
    if e.code = btnLeft then if e.value = 1 then st.click else st.release
    else if e.code = keyLeftMeta then { st with metaDown := e.value = 1 }
    else if e.code = keyL ∧ e.value = 1 ∧ st.metaDown then st.sendOwner 0 (.shell shellLock)
    else if e.code = keyTab ∧ e.value = 1 ∧ st.metaDown then
      match st.minByZ fun s => s.used ∧ s.context = st.activeCtx with
      | none => st
      | some i => st.focusOn i
    else st.key e.code e.value
  else st

/-! ## Passes of the loop -/

/-- What is found in the channel of a session. In a message, `mem` is the
object that the kernel creates if one is asked for; a reply is `lost` when the
client closed its end before. -/
inductive Incoming where
  | nothing
  | closed
  | message (rq : Option Request) (mem : Option Nat) (lost : Bool)

/-- What is found in the channel of the input source. -/
inductive Input where
  | nothing
  | closed
  | events (es : List InputEvent)

structure Pass where
  incoming : Fin maxClients → Incoming
  input : Input
  /-- The screen reader closed its end. -/
  readerGone : Bool

/-- A request that was served: on which channel, and which channel was in slot
`0` then. -/
structure Served where
  chan : Nat
  shell : Option Nat
  request : Request
  reply : Reply

/-- Focus and capture are dropped when their surface is not in use. -/
def sweep : State :=
  let live := fun i : Fin maxSurfaces => (st.surfaces i).used
  (st.setFocused (st.focused.filter live)).setGrabbed (st.grabbed.filter live)

/-- A session that closed: its surfaces go, and its slot is free. Without
sessions the compositor ends. -/
def disconnect (slot : Fin maxClients) : State :=
  let st := { st.freeSessionSurfaces slot with sessions := Function.update st.sessions slot none }
  let st := st.retileAuto
  if ∀ i, (st.sessions i).isNone then { st with exited := some 0 } else st

/-- The exit code when a reply with a handle cannot be delivered. -/
def lostCode : Request → Reply → Option Nat
  | _, .created _ _ => some 56
  | .resize _ _ _, .memory _ => some 61
  | .maximize _, .memory _ => some 63
  | .restore _, .memory _ => some 64
  | _, .output _ _ _ => some 58
  | _, _ => none

def takeMessage (slot : Fin maxClients) : Incoming → State × List Served
  | .nothing => (st, [])
  | .closed => (if (st.sessions slot).isSome then st.disconnect slot else st, [])
  | .message rq mem lost =>
    match st.sessions slot, rq with
    | some chan, some q =>
      let r := st.serve slot mem q
      (if lost then { r.1 with exited := lostCode q r.2 } else r.1,
        [{ chan, shell := st.sessions 0, request := q, reply := r.2 }])
    | _, _ => (st, [])

/-- The turn of one slot in a pass; nothing more happens after the end. -/
def takeSlot (incoming : Fin maxClients → Incoming) (st : State) (slot : Fin maxClients) :
    State × List Served :=
  if st.exited.isSome then (st, []) else st.takeMessage slot (incoming slot)

def takeInput : Input → State
  | .nothing => st
  | .closed => { st with inputCh := none }
  | .events es => es.foldl inputEvent st

/-- The top of the loop; a screen reader that is gone is forgotten. -/
def beginPass (p : Pass) : State :=
  { st.sweep with a11y := if p.readerGone then none else st.a11y }

def pass (st : State) (p : Pass) : State × List Served :=
  if st.exited.isSome then (st, [])
  else
    let r := runLogged (takeSlot p.incoming) (st.beginPass p) (List.finRange maxClients)
    (if r.1.exited.isSome ∨ r.1.inputCh.isNone then r.1 else r.1.takeInput p.input, r.2)

def run (ps : List Pass) : State × List Served := runLogged pass st ps

end State
end NexoOS.Wm
