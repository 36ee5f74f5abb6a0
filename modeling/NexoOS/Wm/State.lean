import NexoOS.Lib.Bytes

/-!
# The state of the compositor

`wm`: surfaces, sessions, focus and capture, the notifications and the
clipboard. Pixels and the composed frame are left out; what the compositor sends
on its channels is kept in `sent`.
-/

namespace NexoOS.Wm

open Function

abbrev maxSurfaces : Nat := 8
abbrev maxClients : Nat := 8
abbrev numContexts : Nat := 4
def numDisplays : Nat := 2
def outW : Int := 64
def outH : Int := 48

def eInvalid : Nat := 1
def eNoRes : Nat := 2
def eNoSurface : Nat := 3
def eNoSession : Nat := 4
def eGrabbed : Nat := 5
def eNoInputOwner : Nat := 6
def eNotShell : Nat := 7

structure Rect where
  x : Int
  y : Int
  w : Int
  h : Int
  deriving DecidableEq

def Rect.contains (r : Rect) (px py : Int) : Bool :=
  r.x ≤ px ∧ px < r.x + r.w ∧ r.y ≤ py ∧ py < r.y + r.h

/-- A surface. `mem` is the object with its pixels. -/
structure Slot where
  used : Bool
  owner : Fin maxClients
  rect : Rect
  z : Int
  alpha : UInt8
  bufW : Int
  bufH : Int
  display : UInt8
  context : Fin numContexts
  title : List UInt8
  document : List UInt8
  saved : Option Rect
  mem : Nat
  deriving DecidableEq

def Slot.empty : Slot where
  used := false
  owner := 0
  rect := ⟨0, 0, 0, 0⟩
  z := 0
  alpha := 255
  bufW := 0
  bufH := 0
  display := 0
  context := 0
  title := []
  document := []
  saved := none
  mem := 0

/-- Notifications and preferences. `log` has the newest title first. -/
structure Attention where
  banner : Option (List UInt8 × Fin numContexts)
  bannerSrc : Option (Fin maxSurfaces)
  pending : Fin numContexts → Option (List UInt8)
  pendingSrc : Fin numContexts → Option (Fin maxSurfaces)
  dnd : Bool
  reduceMotion : Bool
  theme : UInt8
  idioma : UInt8
  scale : Nat × Nat
  autoTile : Bool
  log : List (List UInt8)

structure Clipboard where
  data : List UInt8
  hist : List (List UInt8)
  histEnabled : Bool

/-- Events that the compositor sends by itself. -/
inductive Msg where
  | pointer (surface : Fin maxSurfaces) (x y : Int)
  | key (surface : Fin maxSurfaces) (code : UInt16) (value : UInt32)
  | drop (surface : Fin maxSurfaces) (data : List UInt8)
  | shell (kind : Nat)
  | a11y (kind : Nat) (surface : Nat) (text : List UInt8)
  deriving DecidableEq

/-- Where an event goes: to the channel of a session, or to the screen reader. -/
inductive Dest where
  | session (chan : Nat)
  | reader (chan : Nat)
  deriving DecidableEq

/-- Channels are numbered in the order in which the compositor got them; the
one of the bootstrap session is number `0`. -/
structure State where
  surfaces : Fin maxSurfaces → Slot
  sessions : Fin maxClients → Option Nat
  nextChan : Nat
  inputCh : Option Nat
  px : Int
  py : Int
  focused : Option (Fin maxSurfaces)
  grabbed : Option (Fin maxSurfaces)
  activeCtx : Fin numContexts
  a11y : Option Nat
  drag : Option (List UInt8)
  attention : Attention
  clipboard : Clipboard
  metaDown : Bool
  /-- Objects mapped for surfaces. -/
  mapped : List Nat
  sent : List (Dest × Msg)
  exited : Option Nat

def State.start : State where
  surfaces := fun _ => .empty
  sessions := fun i => if i = 0 then some 0 else none
  nextChan := 1
  inputCh := none
  px := 0
  py := 0
  focused := none
  grabbed := none
  activeCtx := 0
  a11y := none
  drag := none
  attention :=
    { banner := none, bannerSrc := none, pending := fun _ => none, pendingSrc := fun _ => none,
      dnd := false, reduceMotion := false, theme := 0, idioma := 0, scale := (1, 1),
      autoTile := false, log := [] }
  clipboard := { data := [], hist := [], histEnabled := false }
  metaDown := false
  mapped := []
  sent := []
  exited := none

namespace State

variable (st : State)

/-! ## Fields -/

def setSurfaces (f : Fin maxSurfaces → Slot) : State := { st with surfaces := f }

def setSurface (i : Fin maxSurfaces) (s : Slot) : State :=
  st.setSurfaces (update st.surfaces i s)

def setFocused (i : Option (Fin maxSurfaces)) : State := { st with focused := i }

def setGrabbed (i : Option (Fin maxSurfaces)) : State := { st with grabbed := i }

def setActiveCtx (c : Fin numContexts) : State := { st with activeCtx := c }

def setAttention (a : Attention) : State := { st with attention := a }

def setDrag (data : Option (List UInt8)) : State := { st with drag := data }

def setMapped (l : List Nat) : State := { st with mapped := l }

/-! ## Surfaces -/

variable (slot : Fin maxClients)

/-- The surface `id`, if it is in use and belongs to the session. -/
def mine (id : Nat) : Option (Fin maxSurfaces) :=
  if h : id < maxSurfaces then
    if (st.surfaces ⟨id, h⟩).used ∧ (st.surfaces ⟨id, h⟩).owner = slot then some ⟨id, h⟩ else none
  else none

/-- `max_by_key` over the surfaces that satisfy `p`: the last of the highest. -/
def maxByZ (p : Slot → Bool) : Option (Fin maxSurfaces) :=
  (List.finRange maxSurfaces).foldl (fun best i =>
    if p (st.surfaces i) then
      match best with
      | none => some i
      | some b => if (st.surfaces b).z ≤ (st.surfaces i).z then some i else some b
    else best) none

/-- `min_by_key`: the first of the lowest. -/
def minByZ (p : Slot → Bool) : Option (Fin maxSurfaces) :=
  (List.finRange maxSurfaces).foldl (fun best i =>
    if p (st.surfaces i) then
      match best with
      | none => some i
      | some b => if (st.surfaces i).z < (st.surfaces b).z then some i else some b
    else best) none

/-- One above the highest surface, saturating. -/
def above : Int :=
  let top := match st.maxByZ Slot.used with
    | none => 0
    | some i => (st.surfaces i).z
  min (top + 1) (2 ^ 31 - 1)

/-- One below the lowest surface, saturating. -/
def below : Int :=
  let bottom := match st.minByZ Slot.used with
    | none => 0
    | some i => (st.surfaces i).z
  max (bottom - 1) (-(2 ^ 31))

/-- The number of columns of a mosaic of `n` windows. -/
def columns (n : Nat) : Nat → Nat → Nat
  | 0, cols => cols
  | fuel + 1, cols => if cols * cols < n then columns n fuel (cols + 1) else cols

/-- `retile`: a grid over the output, in the order of the slots. -/
def retile : State :=
  let n := (List.finRange maxSurfaces).countP fun i => (st.surfaces i).used
  if n = 0 then st
  else
    let cols := columns n n 1
    let rows := (n + cols - 1) / cols
    let cw := outW / cols
    let ch := outH / rows
    st.setSurfaces fun i =>
      let s := st.surfaces i
      -- its place among the surfaces in use
      let k := (List.finRange maxSurfaces).countP fun j => j < i ∧ (st.surfaces j).used
      if s.used then { s with rect := ⟨(k % cols : Nat) * cw, (k / cols : Nat) * ch, cw, ch⟩ }
      else s

def retileAuto : State := if st.attention.autoTile then st.retile else st

def freeSessionSurfaces : State :=
  st.setSurfaces fun i =>
    let s := st.surfaces i
    if s.used ∧ s.owner = slot then { s with used := false } else s

/-- `input_owner`: the session has the captured surface or else the focused
one. -/
def inputOwner : Bool :=
  match st.grabbed.or st.focused with
  | none => false
  | some i => (st.surfaces i).used ∧ (st.surfaces i).owner = slot

/-- A number of 64 bits cut to 32, as `as i32` does. -/
def asI32 (n : Int) : Int := n.bmod (2 ^ 32)

/-- A length under the scale `num / den`, inside `1..=bound`. -/
def scaled (len : Int) (scale : Nat × Nat) (bound : Int) : Int :=
  max 1 (min (asI32 (len * scale.1 / scale.2)) bound)

/-! ## Events -/

def send (d : Dest) (m : Msg) : State := { st with sent := st.sent ++ [(d, m)] }

/-- An event to the session that owns a surface, if it is connected. -/
def sendOwner (m : Msg) : State :=
  match st.sessions slot with
  | none => st
  | some chan => st.send (.session chan) m

/-- `a11y_emit`: at most 32 bytes of the text. -/
def a11yEmit (kind surface : Nat) (text : List UInt8) : State :=
  match st.a11y with
  | none => st
  | some chan => st.send (.reader chan) (.a11y kind surface (text.take 32))

/-- The surface comes to the front and gets the focus. -/
def focusOn (i : Fin maxSurfaces) : State :=
  ((st.setSurface i { st.surfaces i with z := st.above }).setFocused (some i)).a11yEmit 1 i
    (st.surfaces i).title

/-- The banner of a context other than `c` goes back to waiting. -/
def Attention.putOff (a : Attention) (c : Fin numContexts) : Attention :=
  match a.banner with
  | none => a
  | some (title, ctx) =>
    if ctx = c then a
    else { a with
      pending := update a.pending ctx (some title)
      pendingSrc := update a.pendingSrc ctx a.bannerSrc
      bannerSrc := none
      banner := none }

/-- What waits for the context `c` becomes the banner. -/
def Attention.bringUp (a : Attention) (c : Fin numContexts) (title : List UInt8) : Attention :=
  { a with
    banner := some (title, c)
    bannerSrc := a.pendingSrc c
    pending := update a.pending c none
    pendingSrc := update a.pendingSrc c none }

/-- The context `c` becomes the active one: the banner of another context
waits, and what waits for `c` is shown. -/
def showContext (c : Fin numContexts) : State :=
  let a := Attention.putOff st.attention c
  let st := (st.setActiveCtx c).setAttention a
  match a.banner, a.pending c with
  | none, some title => (st.setAttention (Attention.bringUp a c title)).a11yEmit 2 0 title
  | _, _ => st

end State
end NexoOS.Wm
