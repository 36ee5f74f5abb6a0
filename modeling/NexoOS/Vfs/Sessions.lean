import NexoOS.Vfs.Confinement

/-! # The sessions of `vfs`

The loop of `_start` as a step function: a message of one session at a time,
in any order. A run keeps, beside the state, every session ever opened with
the session that opened it, so that the tree of sessions can be spoken of after
slots have been given away again. -/

namespace NexoOS.Vfs

open Function

open Confine List

def CLIENT : UInt32 := 2

structure State (D E : Type) where
  world : World D E
  clients : Fin MAX_CLIENTS → Option (UInt32 × UInt64)
  running : Bool

/-- What the process does towards its channels. -/
inductive Out where
  | send (chan : UInt32) (reply : Reply)
  | close (chan : UInt32)
  | exit (code : Nat)
  | panicked
  deriving DecidableEq, Repr

/-- What happens next: a message of the session in a slot, that does decode or
does not (with the handle it brings), the end of a session, a failure of the
channel, or a change that other clients of the services make. -/
inductive Event (D E : Type) where
  | request (k : Fin MAX_CLIENTS) (rq : FsRequest)
  | malformed (k : Fin MAX_CLIENTS) (handle : Option UInt32)
  | closed (k : Fin MAX_CLIENTS)
  | failed (k : Fin MAX_CLIENTS)
  | disk (d : D)
  | esp (e : E)

section Loop

variable {D E : Type}

def State.start (mounts : UInt64) (d : D) (e : E) : State D E where
  world := ⟨d, e, fun _ => [], Ramfs.empty⟩
  clients := update (fun _ => none) 0
    (some (CLIENT, if mounts = 0 then MOUNT_DISK ||| MOUNT_BOOT ||| MOUNT_TMP else mounts))
  running := true

def State.livre (s : State D E) : Option (Fin MAX_CLIENTS) :=
  (finRange MAX_CLIENTS).find? fun i => (s.clients i).isNone

/-- `open`: one more session, with the intersection of the masks. -/
def State.openSession (s : State D E) (ch : UInt32) (sessMounts : UInt64) (chan : UInt32)
    (mounts : UInt64) : State D E × List Out :=
  let pedida := if mounts = 0 then sessMounts else mounts
  let efetiva := pedida &&& sessMounts
  if efetiva = 0 then (s, [.close chan, .send ch { msg := .error 14 E_INVALID.toUInt32 }])
  else
    match s.livre with
    | some i =>
      ({ s with clients := update s.clients i (some (chan, efetiva)) },
        [.send ch { msg := .response .openSession }])
    | none => (s, [.close chan, .send ch { msg := .error 14 E_NO_SPACE.toUInt32 }])

variable (fs : D → FsRequest → D × Option Reply)
variable (esp : E → EspRequest → E × Option (Message EspResponse))

variable (s : State D E)

/-- Any other request, with the mask of the session. -/
def State.serve (ch : UInt32) (sessMounts : UInt64) (rq : FsRequest) : State D E × List Out :=
  let x := Vfs.serve fs esp sessMounts rq
  let s' := { s with world := final x s.world }
  match result x s.world with
  | .ok r => (s', [.send ch r])
  | .error (.code c) => (s', [.send ch { msg := .error rq.methodId c.toUInt32 }])
  | .error .panic => ({ s' with running := false }, [.panicked])

def State.request (ch : UInt32) (sessMounts : UInt64) :
    FsRequest → State D E × List Out
  | .openSession chan mounts => s.openSession ch sessMounts chan mounts
  | rq => s.serve fs esp ch sessMounts rq

def State.close (k : Fin MAX_CLIENTS) (ch : UInt32) : State D E × List Out :=
  let clients := update s.clients k none
  if ∀ i, clients i = none then
    ({ s with clients := clients, running := false }, [.close ch, .exit 0])
  else ({ s with clients := clients }, [.close ch])

def State.message (ch : UInt32) (sessMounts : UInt64) :
    Event D E → State D E × List Out
  | .request _ rq => s.request fs esp ch sessMounts rq
  | .malformed _ handle =>
    (s, (handle.toList.map .close) ++ [.send ch { msg := .error 0 255 }])
  | .closed k => s.close k ch
  | .failed _ => ({ s with running := false }, [.exit 50])
  | .disk _ => (s, [])
  | .esp _ => (s, [])

/-- The slot whose channel an event is about. -/
def Event.slot : Event D E → Option (Fin MAX_CLIENTS)
  | .request k _ => some k
  | .malformed k _ => some k
  | .closed k => some k
  | .failed k => some k
  | .disk _ => none
  | .esp _ => none

/-- What other clients of the services do to them. -/
def World.outside (w : World D E) : Event D E → World D E
  | .disk d => { w with disk := d }
  | .esp e => { w with esp := e }
  | _ => w

/-- One turn of the loop. A slot without a session has no channel that
anything could come from. -/
def State.step (e : Event D E) : State D E × List Out :=
  if s.running then
    match e.slot with
    | none => ({ s with world := s.world.outside e }, [])
    | some k =>
      match s.clients k with
      | none => (s, [])
      | some (ch, sessMounts) => s.message fs esp ch sessMounts e
  else (s, [])

def State.run (s : State D E) : List (Event D E) → State D E × List Out
  | [] => (s, [])
  | e :: es =>
    let (s', outs) := s.step fs esp e
    let (s'', outs') := State.run s' es
    (s'', outs ++ outs')

end Loop

/-! ## What a step does to the sessions -/

section Slots

variable {D E : Type} {fs : D → FsRequest → D × Option Reply}
variable {esp : E → EspRequest → E × Option (Message EspResponse)}

theorem State.livre_none {s : State D E} {i : Fin MAX_CLIENTS} (h : s.livre = some i) :
    s.clients i = none := by
  simpa using find?_some h

variable (s : State D E)

/-- `openSession` changes nothing, or fills a free slot with a mask that lies
within the one of the caller. -/
theorem State.openSession_clients (ch : UInt32) (sess : UInt64) (chan : UInt32)
    (mounts : UInt64) : (s.openSession ch sess chan mounts).1 = s ∨
      ∃ i m, s.clients i = none ∧ mountsOf m ⊆ mountsOf sess ∧
        (s.openSession ch sess chan mounts).1 =
          { s with clients := update s.clients i (some (chan, m)) } := by
  simp only [State.openSession]
  generalize (if mounts = 0 then sess else mounts) = pedida
  split
  · exact .inl rfl
  split
  · rename_i i hi
    exact .inr ⟨i, _, livre_none hi, mountsOf_and _ _, rfl⟩
  · exact .inl rfl

theorem State.serve_clients (ch : UInt32) (sess : UInt64) (rq : FsRequest) :
    (s.serve fs esp ch sess rq).1.clients = s.clients := by
  simp only [State.serve]
  split <;> rfl

/-- What a step does to the slots: it leaves them alone, empties the one the
event is about, or gives a free one to a session that the event's own session
opens. -/
inductive SlotStep (s s' : State D E) (e : Event D E) : Prop where
  | same (h : s'.clients = s.clients)
  | closed (k : Fin MAX_CLIENTS) (h : s'.clients = update s.clients k none)
  | opened (k i : Fin MAX_CLIENTS) (ch chan : UInt32) (sess m : UInt64) (hk : e.slot = some k)
      (hc : s.clients k = some (ch, sess)) (hi : s.clients i = none)
      (hm : mountsOf m ⊆ mountsOf sess)
      (h : s'.clients = update s.clients i (some (chan, m)))

theorem State.request_slots {e : Event D E} {k : Fin MAX_CLIENTS} {ch : UInt32}
    {sess : UInt64} (hk : e.slot = some k) (hc : s.clients k = some (ch, sess))
    (rq : FsRequest) : SlotStep s (s.request fs esp ch sess rq).1 e := by
  cases rq with
  | openSession chan mounts =>
    rcases s.openSession_clients ch sess chan mounts with h | ⟨i, m, hi, hm, h⟩
    · exact .same (congrArg State.clients h)
    · exact .opened k i ch chan sess m hk hc hi hm (congrArg State.clients h)
  | _ => exact .same (s.serve_clients ch sess _)

theorem State.step_slots (e : Event D E) : SlotStep s (s.step fs esp e).1 e := by
  simp only [State.step]
  split
  case isFalse => exact .same rfl
  case isTrue =>
    split
    · exact .same rfl
    rename_i k hk
    split
    · exact .same rfl
    rename_i ch sess hc
    cases e with
    | request k' rq => exact s.request_slots hk hc rq
    | closed k' =>
      refine .closed k' ?_
      simp only [State.message, State.close]
      split <;> rfl
    | _ => exact .same rfl

end Slots

/-! ## The tree of sessions -/

/-- A session that was opened, by the number of the one that opened it. -/
structure Session where
  opener : Option Nat
  mounts : UInt64

/-- A run so far: the sessions in the order they were opened, and the one each
slot was last given to. -/
structure Traced (D E : Type) where
  state : State D E
  sessions : List Session
  holder : Fin MAX_CLIENTS → Nat

/-- The slot that has a session now and had none before. -/
def born {D E : Type} (s s' : State D E) : Option (Fin MAX_CLIENTS × UInt64) :=
  (finRange MAX_CLIENTS).findSome? fun i =>
    match s.clients i, s'.clients i with
    | none, some (_, m) => some (i, m)
    | _, _ => none

section Trace

variable {D E : Type} (fs : D → FsRequest → D × Option Reply)
variable (esp : E → EspRequest → E × Option (Message EspResponse))

def Traced.start (mounts : UInt64) (d : D) (e : E) : Traced D E where
  state := State.start mounts d e
  sessions := [⟨none, if mounts = 0 then MOUNT_DISK ||| MOUNT_BOOT ||| MOUNT_TMP else mounts⟩]
  holder _ := 0

def Traced.step (t : Traced D E) (e : Event D E) : Traced D E :=
  let s' := (t.state.step fs esp e).1
  match e.slot, born t.state s' with
  | some k, some (i, m) =>
    { state := s'
      sessions := t.sessions ++ [⟨some (t.holder k), m⟩]
      holder := update t.holder i t.sessions.length }
  | _, _ => { t with state := s' }

def Traced.run (t : Traced D E) (es : List (Event D E)) : Traced D E :=
  es.foldl (Traced.step fs esp) t

/-- Every session lies within its opener, and every slot works with the mask
of the session it was given to. -/
structure Traced.Tree (t : Traced D E) : Prop where
  opener : ∀ (n p : Nat) (m : UInt64), t.sessions[n]? = some ⟨some p, m⟩ →
    ∃ q : Session, t.sessions[p]? = some q ∧ mountsOf m ⊆ mountsOf q.mounts
  holder : ∀ (k : Fin MAX_CLIENTS) (ch : UInt32) (m : UInt64),
    t.state.clients k = some (ch, m) →
      ∃ q : Session, t.sessions[t.holder k]? = some q ∧ q.mounts = m

variable {fs esp}

theorem born_same {s s' : State D E} (h : s'.clients = s.clients) : born s s' = none := by
  simp only [born, h, findSome?_eq_none_iff]
  intro i _
  cases s.clients i <;> rfl

theorem born_closed {s s' : State D E} {k : Fin MAX_CLIENTS}
    (h : s'.clients = update s.clients k none) : born s s' = none := by
  simp only [born, h, findSome?_eq_none_iff]
  intro i _
  by_cases hi : i = k
  · subst hi
    rw [update_self]
    cases s.clients i <;> rfl
  · rw [update_of_ne hi]
    cases s.clients i <;> rfl

theorem born_opened {s s' : State D E} {i : Fin MAX_CLIENTS} {chan : UInt32} {m : UInt64}
    (hi : s.clients i = none)
    (h : s'.clients = update s.clients i (some (chan, m))) : born s s' = some (i, m) := by
  -- no other slot changes, so whatever slot is found is this one
  have hsome : (born s s').isSome := by
    simp only [born, isSome_findSome?, any_eq_true]
    exact ⟨i, mem_finRange i, by simp [h, hi]⟩
  obtain ⟨r, hr⟩ := Option.isSome_iff_exists.mp hsome
  obtain ⟨j, -, hj⟩ := exists_of_findSome?_eq_some hr
  by_cases hji : j = i
  · subst hji
    rw [hr, ← hj, h, hi, update_self]
  · rw [h, update_of_ne hji] at hj
    cases hc : s.clients j <;> rw [hc] at hj <;> exact absurd hj nofun

theorem Traced.Tree.start (mounts : UInt64) (d : D) (e : E) :
    (Traced.start mounts d e : Traced D E).Tree := by
  constructor
  case opener =>
    intro n p m h
    cases n with
    | zero | succ => exact absurd h (by simp [Traced.start])
  case holder =>
    intro k ch m h
    by_cases hk : k = 0
    · subst hk
      simp only [Traced.start, State.start, update_self, Option.some.injEq, Prod.mk.injEq] at h
      exact ⟨_, rfl, h.2⟩
    · simp only [Traced.start, State.start, update_of_ne hk] at h
      cases h

theorem getElem?_opened {l : List Session} {n : Nat} {se : Session} (h : l[n]? = some se)
    (new : Session) : (l ++ [new])[n]? = some se := by
  rw [List.getElem?_append_left (List.getElem?_eq_some_iff.mp h).1, h]

theorem getElem?_opened_cases {l : List Session} {n : Nat} {se new : Session}
    (h : (l ++ [new])[n]? = some se) : l[n]? = some se ∨ se = new := by
  by_cases hn : n < l.length
  · exact .inl (by rw [← h, getElem?_append_left hn])
  · rw [getElem?_append_right (Nat.le_of_not_lt hn)] at h
    exact .inr (mem_singleton.mp (mem_of_getElem? h))

theorem Traced.Tree.step {t : Traced D E} (ht : t.Tree) (e : Event D E) :
    (t.step fs esp e).Tree := by
  have hslots : SlotStep t.state (t.state.step fs esp e).1 e := t.state.step_slots e
  cases hslots with
  | same h =>
    have hs : t.step fs esp e = { t with state := (t.state.step fs esp e).1 } := by
      simp [Traced.step, born_same h]
    rw [hs]
    exact ⟨ht.opener, fun k ch m hk => ht.holder k ch m (by rw [← hk, h])⟩
  | closed k h =>
    have hs : t.step fs esp e = { t with state := (t.state.step fs esp e).1 } := by
      simp [Traced.step, born_closed h]
    rw [hs]
    refine ⟨ht.opener, fun j ch m hj => ht.holder j ch m ?_⟩
    by_cases hjk : j = k
    · subst hjk
      rw [h, update_self] at hj
      cases hj
    · rw [← hj, h, update_of_ne hjk]
  | opened k i ch chan sess m hk hc hi hm h =>
    have hs : t.step fs esp e =
        { state := (t.state.step fs esp e).1
          sessions := t.sessions ++ [⟨some (t.holder k), m⟩]
          holder := update t.holder i t.sessions.length } := by
      simp [Traced.step, hk, born_opened hi h]
    obtain ⟨se, hse, hmask⟩ := ht.holder k ch sess hc
    rw [hs]
    constructor
    case opener =>
      intro n p m' hn
      rcases getElem?_opened_cases hn with hn | hn
      · obtain ⟨q, hq, hsub⟩ := ht.opener n p m' hn
        exact ⟨q, getElem?_opened hq _, hsub⟩
      · cases hn
        exact ⟨se, getElem?_opened hse _, by rw [hmask]; exact hm⟩
    case holder =>
      intro j ch' m' hj
      by_cases hji : j = i
      · subst hji
        dsimp only at hj ⊢
        rw [h, update_self] at hj
        cases hj
        exact ⟨⟨some (t.holder k), m⟩, by rw [update_self]; simp, rfl⟩
      · dsimp only at hj ⊢
        rw [h, update_of_ne hji] at hj
        obtain ⟨q, hq, hm'⟩ := ht.holder j ch' m' hj
        refine ⟨q, ?_, hm'⟩
        rw [update_of_ne hji]
        exact getElem?_opened hq _

theorem Traced.Tree.run {t : Traced D E} (ht : t.Tree) (es : List (Event D E)) :
    (t.run fs esp es).Tree := by
  induction es generalizing t with
  | nil => exact ht
  | cons e es ih => exact ih (ht.step e)

end Trace

/-! ## What the requests of a session can do -/

section Requests

variable {D E : Type}

/-- A message of the session in slot `k`. -/
def Event.From (k : Fin MAX_CLIENTS) : Event D E → Prop
  | .request j _ => j = k
  | .malformed j _ => j = k
  | _ => False

/-- States that differ at most in mounts outside `S`. -/
structure Alike (S : Set Mount) (s s' : State D E) : Prop where
  clients : s.clients = s'.clients
  running : s.running = s'.running
  world : SameOn World.view S s.world s'.world

variable (fs : D → FsRequest → D × Option Reply)
variable (esp : E → EspRequest → E × Option (Message EspResponse))

/-- The events neither change a mount outside `S` nor depend on one: where it
is replaced by anything else the process sends the same messages, and leaves
the same slots and the same mounts `S`. -/
structure Within (S : Set Mount) (s : State D E) (es : List (Event D E)) : Prop where
  keeps : ∀ i ∉ S, (s.run fs esp es).1.world.view i = s.world.view i
  outs : ∀ s', Alike S s s' → (s.run fs esp es).2 = (s'.run fs esp es).2
  alike : ∀ s', Alike S s s' → Alike S (s.run fs esp es).1 (s'.run fs esp es).1

variable {fs esp}

theorem State.serve_keeps (s : State D E) (ch : UInt32) (sess : UInt64) (rq : FsRequest)
    (i : Mount) (hi : i ∉ mountsOf sess) :
    (s.serve fs esp ch sess rq).1.world.view i = s.world.view i := by
  have hw : (s.serve fs esp ch sess rq).1.world = final (Vfs.serve fs esp sess rq) s.world := by
    simp only [State.serve]
    split <;> rfl
  rw [hw]
  exact (confined_serve rq).keeps s.world i hi

variable {s s' : State D E} {sess : UInt64} {k : Fin MAX_CLIENTS} {e : Event D E} {ch : UInt32}

theorem State.serve_alike (h : Alike (mountsOf sess) s s') (ch : UInt32) (rq : FsRequest) :
    (s.serve fs esp ch sess rq).2 = (s'.serve fs esp ch sess rq).2 ∧
      Alike (mountsOf sess) (s.serve fs esp ch sess rq).1 (s'.serve fs esp ch sess rq).1 := by
  have hc : Confined World.view (mountsOf sess) (Vfs.serve fs esp sess rq) := confined_serve rq
  have hw := hc.final_same _ _ h.world
  simp only [State.serve, hc.result_eq _ _ h.world]
  split
  · exact ⟨rfl, h.clients, h.running, hw⟩
  · exact ⟨rfl, h.clients, h.running, hw⟩
  · exact ⟨rfl, h.clients, rfl, hw⟩

theorem State.openSession_alike {S : Set Mount} (h : Alike S s s') (ch : UInt32) (sess : UInt64)
    (chan : UInt32) (mounts : UInt64) :
    (s.openSession ch sess chan mounts).2 = (s'.openSession ch sess chan mounts).2 ∧
      Alike S (s.openSession ch sess chan mounts).1 (s'.openSession ch sess chan mounts).1 := by
  have hl : s.livre = s'.livre := by
    simp only [State.livre, h.clients]
  simp only [State.openSession, hl]
  generalize (if mounts = 0 then sess else mounts) = pedida
  split
  · exact ⟨rfl, h⟩
  split
  · exact ⟨rfl, by rw [h.clients], h.running, h.world⟩
  · exact ⟨rfl, h⟩

theorem State.openSession_world (s : State D E) (ch : UInt32) (sess : UInt64) (chan : UInt32)
    (mounts : UInt64) : (s.openSession ch sess chan mounts).1.world = s.world := by
  rcases s.openSession_clients ch sess chan mounts with h | ⟨i, m, -, -, h⟩ <;> rw [h]

theorem Event.From.slot_eq (he : e.From k) : e.slot = some k := by
  cases e with
  | request | malformed => exact congrArg some he
  | _ => exact absurd he id

theorem State.step_running (hr : s.running = true) (hk : s.clients k = some (ch, sess))
    (he : e.From k) : s.step fs esp e = s.message fs esp ch sess e := by
  simp [State.step, hr, he.slot_eq, hk]

theorem State.step_stopped (hr : s.running = false) (e : Event D E) :
    s.step fs esp e = (s, []) := by
  simp [State.step, hr]

/-- Opening leaves every mount alone, and any other request is confined. -/
theorem State.message_keeps (he : e.From k) (i : Mount) (hi : i ∉ mountsOf sess) :
    (s.message fs esp ch sess e).1.world.view i = s.world.view i := by
  cases e with
  | request j rq =>
    cases rq with
    | openSession chan mounts =>
      exact congrArg (World.view · i) (s.openSession_world ch sess chan mounts)
    | _ => exact s.serve_keeps ch sess _ i hi
  | malformed j handle => rfl
  | _ => exact absurd he id

theorem State.message_alike (h : Alike (mountsOf sess) s s') (ch : UInt32) (he : e.From k) :
    (s.message fs esp ch sess e).2 = (s'.message fs esp ch sess e).2 ∧
      Alike (mountsOf sess) (s.message fs esp ch sess e).1 (s'.message fs esp ch sess e).1 := by
  cases e with
  | request j rq =>
    cases rq with
    | openSession chan mounts => exact openSession_alike h ch sess chan mounts
    | _ => exact serve_alike h ch _
  | malformed j handle => exact ⟨rfl, h⟩
  | _ => exact absurd he id

/-- A session's own messages leave it its slot: the one that `open` fills was
free. -/
theorem State.message_clients (hk : s.clients k = some (ch, sess)) (he : e.From k) :
    (s.message fs esp ch sess e).1.clients k = some (ch, sess) := by
  cases e with
  | request j rq =>
    cases rq with
    | openSession chan mounts =>
      show (s.openSession ch sess chan mounts).1.clients k = _
      rcases s.openSession_clients ch sess chan mounts with h | ⟨i, m, hi, -, h⟩
      · rw [h, hk]
      have hki : k ≠ i := by
        rintro rfl
        cases hk.symm.trans hi
      rw [h]
      exact (update_of_ne hki _ _).trans hk
    | _ => exact (congrFun (s.serve_clients ch sess _) k).trans hk
  | malformed j handle => exact hk
  | _ => exact absurd he id

variable (fs esp) in
/-- One message of a session. The session keeps its slot and its mask, so that
the next message meets the same conditions. -/
theorem State.step_within (hk : s.clients k = some (ch, sess)) (he : e.From k) :
    (∀ i ∉ mountsOf sess, (s.step fs esp e).1.world.view i = s.world.view i) ∧
    (∀ s', Alike (mountsOf sess) s s' → (s.step fs esp e).2 = (s'.step fs esp e).2 ∧
      Alike (mountsOf sess) (s.step fs esp e).1 (s'.step fs esp e).1) ∧
    (s.step fs esp e).1.clients k = some (ch, sess) := by
  cases hr : s.running with
  | false =>
    rw [step_stopped hr]
    refine ⟨fun _ _ => rfl, fun s' h => ?_, hk⟩
    rw [step_stopped (h.running.symm.trans hr)]
    exact ⟨rfl, h⟩
  | true =>
    rw [step_running hr hk he]
    refine ⟨message_keeps he, fun s' h => ?_, message_clients hk he⟩
    rw [step_running (h.running.symm.trans hr) (h.clients ▸ hk) he]
    exact message_alike h ch he

theorem State.run_within (hk : s.clients k = some (ch, sess)) {es : List (Event D E)}
    (he : ∀ e ∈ es, e.From k) : Within fs esp (mountsOf sess) s es := by
  induction es generalizing s with
  | nil => exact ⟨fun _ _ => rfl, fun _ _ => rfl, fun _ h => h⟩
  | cons e es ih =>
    obtain ⟨hkeeps, halike, hk'⟩ := step_within fs esp hk (he e mem_cons_self)
    have hrest := ih hk' fun e' h => he e' (mem_cons_of_mem _ h)
    constructor
    case keeps =>
      intro i hi
      exact (hrest.keeps i hi).trans (hkeeps i hi)
    case outs =>
      intro s' h
      obtain ⟨hout, hnext⟩ := halike s' h
      exact congrArg₂ (· ++ ·) hout (hrest.outs _ hnext)
    case alike =>
      intro s' h
      exact hrest.alike _ (halike s' h).2

variable (fs esp)

/-- In every run of `vfs`, whatever the services behind it do, a session's
mounts lie within those of the session that opened it, and no sequence of
requests of a session changes or depends on a mount outside its own. -/
theorem sessions_confined_to_mounts (mounts : UInt64) (d : D) (e : E) (es : List (Event D E)) :
    ((Traced.start mounts d e).run fs esp es).Tree ∧
      ∀ (k : Fin MAX_CLIENTS) (ch : UInt32) (mask : UInt64),
        ((Traced.start mounts d e).run fs esp es).state.clients k = some (ch, mask) →
        ∀ ms : List (Event D E), (∀ m ∈ ms, m.From k) →
          Within fs esp (mountsOf mask) ((Traced.start mounts d e).run fs esp es).state ms :=
  ⟨(Traced.Tree.start mounts d e).run es, fun _ _ _ hk _ hm => State.run_within hk hm⟩

end Requests

/-- An `fs` that counts its requests and an `espfs` that does not answer. -/
def countingFs (n : Nat) (_ : FsRequest) : Nat × Option Reply :=
  (n + 1, some { msg := .response (.read []) })

def silentEsp (u : Unit) (_ : EspRequest) : Unit × Option (Message EspResponse) := (u, none)

/-- The first client opens a session that has `/tmp` only. It asks for the root
of `/disk`, reads an inode number of `/disk` and moves a file there. -/
theorem sessions_confined_to_mounts_tmp : ∃ mask, ((Traced.start 0 0 ()).run countingFs silentEsp
        [.request 0 (.read 0x10000001 0 8), .request 0 (.openSession 9 4)]).state.clients 1 =
          some (9, mask) ∧ mask = 4 ∧ Within countingFs silentEsp (mountsOf mask)
        ((Traced.start 0 0 ()).run countingFs silentEsp
          [.request 0 (.read 0x10000001 0 8), .request 0 (.openSession 9 4)]).state
        [.request 1 (.stat diskName), .request 1 (.read 0x10000001 0 8),
          .request 1 (.rename tmpName diskName)] :=
  ⟨4, by decide, rfl, (sessions_confined_to_mounts countingFs silentEsp 0 0 () _).2 1 9 4
    (by decide) _ (by simp [Event.From])⟩

end NexoOS.Vfs
