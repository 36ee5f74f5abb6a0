import NexoOS.Net.NetdRun
import NexoOS.Wm.Turns

/-!
# What ends the services

`netd` and `wm` are to end when their last session is gone. They also end when
`channel_try_recv` fails otherwise than by an empty or closed channel, when a call
to the kernel for a request fails, and when a reply does not reach its client. All
of these are in the hands of a client: it can send a message that is too large or
has too many handles, hand over a handle that cannot be read as a session, leave
before the reply, or never take its replies.
-/

namespace NexoOS

/-- A message in a channel, and the room in the table of handles of the receiver. -/
structure Envelope where
  len : Nat
  handles : Nat
  room : Nat

/-- `channel_recv` with buffers for `cap` bytes and `hcap` handles takes it. -/
def Envelope.Fits (cap hcap : Nat) (e : Envelope) : Prop :=
  e.len ≤ cap ∧ e.handles ≤ hcap ∧ e.handles ≤ e.room

instance (cap hcap : Nat) (e : Envelope) : Decidable (e.Fits cap hcap) :=
  inferInstanceAs (Decidable (_ ∧ _))

/-! ## The compositor -/

namespace Wm

/-- What the kernel says to the calls that a request needs. -/
structure Calls where
  mapped : Bool
  duplicated : Bool
  delivered : Bool
  deriving DecidableEq

/-- The exit code of a request: for replies with a handle, each call must
succeed. -/
def stopCode (q : Request) (r : Reply) (k : Calls) : Option Nat :=
  match r with
  | .created _ _ =>
    if ¬ k.mapped then some 54
    else if ¬ k.duplicated then some 55
    else if ¬ k.delivered then some 56
    else none
  | .memory _ =>
    if ¬ k.mapped then some 59
    else if ¬ k.duplicated then some 60
    else if ¬ k.delivered then State.lostCode q r
    else none
  | .output _ _ _ =>
    if ¬ k.duplicated then some 57
    else if ¬ k.delivered then some 58
    else none
  | _ => none

/-- The calls that the reply to a request can need succeed. -/
def Calls.Suffice (k : Calls) : Request → Prop
  | .createSurface .. | .resize .. | .maximize _ | .restore _ =>
    k.mapped ∧ k.duplicated ∧ k.delivered
  | .output _ => k.duplicated ∧ k.delivered
  | _ => True

/-- What a pass finds. -/
inductive Found where
  | sweep (readerGone : Bool)
  | quiet (slot : Fin maxClients)
  | closed (slot : Fin maxClients)
  /-- The handle of the session is not a channel that can be read. -/
  | unreadable (slot : Fin maxClients)
  | message (slot : Fin maxClients) (e : Envelope) (rq : Option Request) (mem : Option Nat)
      (k : Calls)
  | input (e : Envelope) (es : List InputEvent)
  | inputClosed
  | inputUnreadable

namespace State

variable (st : State)

def stop (code : Nat) : State := { st with exited := some code }

/-- One turn of the loop, with everything that can end the compositor. -/
def react (st : State) : Found → State × List Served
  | .sweep gone => st.turn (.sweep gone)
  | .quiet slot => st.turn (.slot slot .nothing)
  | .closed slot => st.turn (.slot slot .closed)
  | .unreadable slot =>
    if st.exited.isSome ∨ st.sessions slot = none then (st, []) else (st.stop 53, [])
  | .message slot e rq mem k =>
    if st.exited.isSome ∨ st.sessions slot = none then (st, [])
    else if ¬ e.Fits 512 1 then (st.stop 53, [])
    else
      let r := st.turn (.slot slot (.message rq mem false))
      match rq with
      | none => r
      | some q =>
        match stopCode q (st.serve slot mem q).2 k with
        | none => r
        | some code => (r.1.stop code, r.2)
  | .input e es =>
    if st.exited.isSome ∨ st.inputCh.isNone then (st, [])
    else if ¬ e.Fits 512 1 then (st.stop 62, [])
    else st.turns (es.map .input)
  | .inputClosed => st.turn .inputClosed
  | .inputUnreadable =>
    if st.exited.isSome ∨ st.inputCh.isNone then (st, []) else (st.stop 62, [])

/-- Nothing that ends the compositor by itself: sessions and input can be read, what
they sent fits, and the calls for the request succeed. -/
def Harmless (st : State) : Found → Prop
  | .unreadable slot => st.exited.isSome ∨ st.sessions slot = none
  | .message slot e rq _ k =>
    st.exited.isSome ∨ st.sessions slot = none ∨
      (e.Fits 512 1 ∧ ∀ q, rq = some q → k.Suffice q)
  | .input e _ => st.exited.isSome ∨ st.inputCh.isNone ∨ e.Fits 512 1
  | .inputUnreadable => st.exited.isSome ∨ st.inputCh.isNone
  | _ => True

/-- The compositor has not ended, or all sessions are gone. -/
def EndsLast (st : State) : Prop := st.exited.isSome → ∀ slot, st.sessions slot = none

instance : Decidable st.EndsLast :=
  inferInstanceAs (Decidable (st.exited.isSome → ∀ slot, st.sessions slot = none))

variable {st} {slot : Fin maxClients} {mem : Option Nat} {k : Calls}

/-! ### The calls of a request -/

/-- The calls that a reply needs succeed. -/
def Sends (k : Calls) : Reply → Prop
  | .created _ _ | .memory _ => k.mapped ∧ k.duplicated ∧ k.delivered
  | .output _ _ _ => k.duplicated ∧ k.delivered
  | _ => True

theorem stopCode_eq_none {q : Request} {r : Reply} (h : Sends k r) : stopCode q r k = none := by
  cases r with
  | created | memory =>
    obtain ⟨hm, hdup, hdel⟩ := h
    simp [stopCode, hm, hdup, hdel]
  | output =>
    obtain ⟨hdup, hdel⟩ := h
    simp [stopCode, hdup, hdel]
  | _ => rfl

theorem reallocSurface_sends (i : Fin maxSurfaces) (w h : Int)
    (hk : k.mapped ∧ k.duplicated ∧ k.delivered) : Sends k (st.reallocSurface i w h mem).2 := by
  cases mem with
  | none => trivial
  | some m => exact hk

/-- Only the requests that `Suffice` names have a reply with a handle. -/
theorem serve_sends {q : Request} (h : k.Suffice q) : Sends k (st.serve slot mem q).2 := by
  cases q <;> dsimp only [serve, onMine, updateMine, withInput, asShell, createSurface, maximize,
    restore, grab, ungrab, switchContext, openSession, surfaceInfo, activate, setScale,
    setGlobalScale]
  -- a reply with a handle needs what `h` says; the others need nothing
  all_goals repeat' split
  all_goals first | trivial | exact h | exact reallocSurface_sends _ _ _ h

theorem stopCode_isSome {q : Request} {r : Reply} (h : ¬ Sends k r) (hq : (lostCode q r).isSome) :
    (stopCode q r k).isSome := by
  cases r <;> first | exact absurd trivial h | skip
  all_goals
    dsimp only [stopCode]
    repeat' split
    all_goals first | rfl | exact hq | (refine absurd ?_ h; simp_all [Sends])

/-- One of the requests that `Suffice` names is refused, or its reply needs the calls. -/
theorem serve_refused_or {q : Request} (h : ¬ k.Suffice q) :
    (∃ code, (st.serve slot mem q).2 = .error code) ∨
      (stopCode q (st.serve slot mem q).2 k).isSome := by
  cases q with
  | createSurface | output | resize | maximize | restore =>
    dsimp only [serve, onMine, asShell, createSurface, maximize, restore]
    repeat' split
    all_goals first
      | exact .inl ⟨_, rfl⟩
      | exact .inr (stopCode_isSome h rfl)
      | cases mem with
        | none => exact .inl ⟨_, rfl⟩
        | some m => exact .inr (stopCode_isSome h rfl)
  | _ => exact absurd trivial h

theorem endsLast_of_live (h : st.exited = none) : st.EndsLast := by
  intro hsome
  rw [h] at hsome
  cases hsome

theorem endsLast_disconnect (h : st.exited = none) (slot : Fin maxClients) :
    (st.disconnect slot).EndsLast := by
  unfold disconnect
  dsimp only
  split
  · rename_i hall
    exact fun _ slot => Option.isNone_iff_eq_none.1 (hall slot)
  · refine endsLast_of_live (Eq.trans ?_ h)
    exact congrArg (·.1) (retileAuto_frame _)

theorem endsLast_message (h : st.exited = none) (slot : Fin maxClients) (rq : Option Request)
    (mem : Option Nat) : (st.turn (.slot slot (.message rq mem false))).1.exited = none := by
  dsimp only [turn, takeMessage]
  rw [if_neg (by rw [h]; nofun)]
  split
  · exact (serve_answers slot mem _).exited.trans h
  · exact h

theorem endsLast_turn (h : st.EndsLast) {t : Turn}
    (ht : ∀ slot rq mem, t ≠ .slot slot (.message rq mem true)) : (st.turn t).1.EndsLast := by
  by_cases hlive : st.exited = none
  · cases t with
    | sweep gone =>
      dsimp only [turn]
      rw [if_neg (by rw [hlive]; nofun)]
      exact endsLast_of_live hlive
    | slot slot incoming =>
      cases incoming with
      | nothing =>
        dsimp only [turn, takeMessage]
        split <;> exact h
      | closed =>
        dsimp only [turn, takeMessage]
        rw [if_neg (by rw [hlive]; nofun)]
        split
        · exact endsLast_disconnect hlive slot
        · exact h
      | message rq mem lost =>
        cases lost with
        | false => exact endsLast_of_live (endsLast_message hlive slot rq mem)
        | true => exact absurd rfl (ht slot rq mem)
    | input e =>
      dsimp only [turn]
      split
      · exact h
      · exact endsLast_of_live ((st.inputEvent_open e).1.trans hlive)
    | inputClosed =>
      dsimp only [turn]
      split <;> exact h
  · rw [st.turn_exited (Option.isSome_iff_ne_none.2 hlive)]
    exact h

theorem endsLast_turns (h : st.EndsLast) {ts : List Turn}
    (hts : ∀ t ∈ ts, ∀ slot rq mem, t ≠ .slot slot (.message rq mem true)) :
    (st.turns ts).1.EndsLast := by
  induction ts generalizing st with
  | nil => exact h
  | cons t ts ih =>
    have hhead := endsLast_turn h (hts t List.mem_cons_self)
    exact ih hhead fun t' ht' => hts t' (List.mem_cons_of_mem t ht')

theorem endsLast_react (h : st.EndsLast) {f : Found} (hf : st.Harmless f) :
    (st.react f).1.EndsLast := by
  cases f with
  | sweep | quiet | closed | inputClosed => exact endsLast_turn h nofun
  | unreadable | inputUnreadable =>
    dsimp only [Harmless] at hf
    dsimp only [react]
    rw [if_pos hf]
    exact h
  | input e es =>
    dsimp only [react]
    split
    · exact h
    rename_i hlive
    have hfits : e.Fits 512 1 := hf.resolve_left (fun h => hlive (.inl h)) |>.resolve_left
      fun h => hlive (.inr h)
    rw [if_neg (not_not.2 hfits)]
    refine endsLast_turns h fun t ht slot rq mem heq => ?_
    obtain ⟨e', -, rfl⟩ := List.mem_map.1 ht
    cases heq
  | message slot e rq mem k =>
    dsimp only [react]
    split
    · exact h
    rename_i hlive
    obtain ⟨hfits, hcalls⟩ := hf.resolve_left (fun h => hlive (.inl h)) |>.resolve_left
      fun h => hlive (.inr h)
    rw [if_neg (not_not.2 hfits)]
    cases rq with
    | none => exact endsLast_turn h nofun
    | some q =>
      dsimp only
      rw [stopCode_eq_none (serve_sends (hcalls q rfl))]
      exact endsLast_turn h nofun

/-- The request that was found is answered with an error, which needs no call. -/
def Refused (st : State) : Found → Prop
  | .message slot _ (some q) mem _ => ∃ code, (st.serve slot mem q).2 = .error code
  | _ => False

/-- What is not harmless ends the compositor, whoever is still there, unless it is a
request that is refused. -/
theorem stops_of_not_harmless {f : Found} (hf : ¬ st.Harmless f) :
    st.exited = none ∧ (st.Refused f ∨ (st.react f).1.exited.isSome) := by
  cases f with
  | sweep | quiet | closed | inputClosed => exact absurd trivial hf
  | unreadable | inputUnreadable =>
    dsimp only [Harmless] at hf
    dsimp only [react]
    rw [if_neg hf]
    exact ⟨Option.not_isSome_iff_eq_none.1 fun h => hf (.inl h), .inr rfl⟩
  | input e es =>
    have hlive : ¬ (st.exited.isSome = true ∨ st.inputCh.isNone = true) :=
      fun h => hf (h.imp_right .inl)
    dsimp only [react]
    rw [if_neg hlive, if_pos fun h => hf (.inr (.inr h))]
    exact ⟨Option.not_isSome_iff_eq_none.1 fun h => hlive (.inl h), .inr rfl⟩
  | message slot e rq mem k =>
    have hlive : ¬ (st.exited.isSome = true ∨ st.sessions slot = none) :=
      fun h => hf (h.imp_right .inl)
    refine ⟨Option.not_isSome_iff_eq_none.1 fun h => hlive (.inl h), ?_⟩
    dsimp only [react]
    rw [if_neg hlive]
    by_cases hfits : e.Fits 512 1
    · rw [if_neg (not_not.2 hfits)]
      rcases rq with _ | q
      · exact absurd (.inr (.inr ⟨hfits, fun q hq => by cases hq⟩)) hf
      have hcalls : ¬ k.Suffice q := by
        refine fun h => hf (.inr (.inr ⟨hfits, fun q' hq' => ?_⟩))
        rw [← Option.some.inj hq']
        exact h
      refine (serve_refused_or hcalls).imp_right fun hstop => ?_
      obtain ⟨code, hcode⟩ := Option.isSome_iff_exists.1 hstop
      dsimp only
      rw [hcode]
      rfl
    · rw [if_pos hfits]
      exact .inr rfl

end State
end Wm

/-! ## The network service -/

namespace Net.Daemon

/-- What a pass finds, and the turns of the pump. -/
inductive Found where
  | turn (t : Netd.Turn) (lost : Bool)
  | message (slot : Fin maxClients) (e : Envelope) (rq : Option Request) (now : Nat) (lost : Bool)
  /-- The handle of the session is not a channel that can be read. -/
  | unreadable (slot : Fin maxClients)
  | closed (slot : Fin maxClients) (now : Nat)

namespace State

variable (s : State)

def stop (code : Nat) : State × Output :=
  ({ s with exited := some code }, s.idle.2)

/-- One turn of the loop, with everything that can end the service. -/
def react (s : State) : Found → State × Output
  | .turn t lost => s.step (.turn t lost)
  | .message slot e rq now lost =>
    if s.clients slot = none ∨ ¬ s.Serving then s.idle
    else if ¬ e.Fits 4096 8 then s.stop 107
    else s.step (.request slot rq now lost)
  | .unreadable slot =>
    if s.clients slot = none ∨ ¬ s.Serving then s.idle else s.stop 107
  | .closed slot now => s.step (.disconnect slot now)

/-- Nothing that ends the service by itself: sessions can be read, what they sent fits,
and the reply, if one is due, reaches the client; that of `open` and of a malformed
message need not. -/
def Harmless (s : State) : Found → Prop
  | .turn _ lost => lost = false ∨ s.exited.isSome ∨ s.waiting = none
  | .message slot e rq _ lost =>
    s.clients slot = none ∨ ¬ s.Serving ∨
      (e.Fits 4096 8 ∧ (lost = false ∨ ∀ q, rq = some q → ∃ o, q = .openSession o))
  | .unreadable slot => s.clients slot = none ∨ ¬ s.Serving
  | .closed _ _ => True

/-- The service has not ended, or all sessions are gone. -/
def EndsLast (s : State) : Prop := s.exited.isSome → ∀ slot, s.clients slot = none

instance : Decidable s.EndsLast :=
  inferInstanceAs (Decidable (s.exited.isSome → ∀ slot, (s.clients slot) = none))

variable {s}

theorem endsLast_of_live (h : s.exited = none) : s.EndsLast := by
  intro hsome
  rw [h] at hsome
  cases hsome

variable {slot : Fin maxClients} {lost : Bool}

theorem finish_live (hlive : s.exited = none) (r : Netd × Netd.Outcome) :
    (s.finish slot false r).1.exited = none := by
  rcases r with ⟨net, r | w⟩ <;> exact hlive

/-- A lost reply ends the service, but a request that is not answered yet waits. -/
theorem finish_lost (r : Netd × Netd.Outcome) :
    (s.finish slot true r).1.waiting.isSome ∨ (s.finish slot true r).1.exited.isSome := by
  rcases r with ⟨net, r | w⟩
  · exact .inr rfl
  · exact .inl rfl

theorem endsLast_turn (h : s.EndsLast) {t : Netd.Turn} (hf : s.Harmless (.turn t lost)) :
    (s.step (.turn t lost)).1.EndsLast := by
  unfold step
  dsimp only
  split
  · rename_i hlive
    unfold turn
    split
    · exact endsLast_of_live hlive
    · rename_i slot w hwait
      have hlost : lost = false := by
        rcases hf with hlost | hend | hnone
        · exact hlost
        · rw [hlive] at hend
          cases hend
        · rw [hwait] at hnone
          cases hnone
      rw [hlost]
      exact endsLast_of_live (finish_live hlive _)
  · exact h

theorem endsLast_request {c : Client} {rq : Option Request} {now : Nat} (hlive : s.exited = none)
    (hf : lost = false ∨ ∀ q, rq = some q → ∃ o, q = .openSession o) :
    (s.request slot c rq now lost).1.EndsLast := by
  refine endsLast_of_live ?_
  unfold request
  split
  · exact hlive
  · unfold openSession
    split
    · exact hlive
    · exact hlive
  · rename_i q hopen
    rcases hf with rfl | hall
    · exact finish_live hlive _
    · obtain ⟨o, rfl⟩ := hall q rfl
      exact absurd rfl (hopen o)

theorem endsLast_react (h : s.EndsLast) {f : Found} (hf : s.Harmless f) :
    (s.react f).1.EndsLast := by
  cases f with
  | turn t lost => exact endsLast_turn h hf
  | unreadable slot =>
    dsimp only [Harmless] at hf
    dsimp only [react]
    rw [if_pos hf]
    exact h
  | closed slot now =>
    dsimp only [react, step]
    split
    · exact h
    split
    · rename_i hserving
      unfold disconnect
      dsimp only
      intro hsome
      split at hsome
      · rename_i hall
        exact fun slot => Option.isNone_iff_eq_none.1 (hall.2 slot)
      · rw [hserving.1] at hsome
        cases hsome
    · exact h
  | message slot e rq now lost =>
    dsimp only [react]
    split
    · exact h
    rename_i htaken
    obtain ⟨hfits, hanswer⟩ := hf.resolve_left (fun h => htaken (.inl h)) |>.resolve_left
      fun h => htaken (.inr h)
    have hserving : s.Serving := not_not.1 fun h => htaken (.inr h)
    rw [if_neg (not_not.2 hfits)]
    dsimp only [step]
    split
    · exact h
    rename_i c hc
    rw [if_pos hserving]
    exact endsLast_request hserving.1 hanswer

/-- What is not harmless ends the service, whoever is still there, unless the request
is not answered yet. -/
theorem stops_of_not_harmless {f : Found} (hf : ¬ s.Harmless f) :
    s.exited = none ∧ ((s.react f).1.waiting.isSome ∨ (s.react f).1.exited.isSome) := by
  cases f with
  | closed slot now => exact absurd trivial hf
  | unreadable slot =>
    dsimp only [Harmless] at hf
    have hserving : s.Serving := not_not.1 fun h => hf (.inr h)
    dsimp only [react]
    rw [if_neg hf]
    exact ⟨hserving.1, .inr rfl⟩
  | turn t lost =>
    simp only [Harmless, not_or, Bool.not_eq_false, Option.not_isSome_iff_eq_none] at hf
    obtain ⟨rfl, hlive, hwait⟩ := hf
    obtain ⟨⟨slot, w⟩, hwait⟩ := Option.ne_none_iff_exists'.1 hwait
    refine ⟨hlive, ?_⟩
    dsimp only [react, step]
    rw [if_pos hlive]
    unfold turn
    rw [hwait]
    exact finish_lost _
  | message slot e rq now lost =>
    simp only [Harmless, not_or, not_not] at hf
    obtain ⟨hclient, hserving, hbad⟩ := hf
    refine ⟨hserving.1, ?_⟩
    dsimp only [react]
    rw [if_neg (not_or.2 ⟨hclient, not_not.2 hserving⟩)]
    by_cases hfits : e.Fits 4096 8
    · rw [if_neg (not_not.2 hfits)]
      simp only [hfits, true_and, not_or, Bool.not_eq_false, not_forall, not_exists] at hbad
      obtain ⟨rfl, q, rfl, hopen⟩ := hbad
      obtain ⟨c, hc⟩ := Option.ne_none_iff_exists'.1 hclient
      dsimp only [step]
      rw [hc]
      dsimp only
      rw [if_pos hserving]
      unfold request
      split
      · rename_i heq
        cases heq
      · rename_i o heq
        exact absurd (Option.some.inj heq) (hopen o)
      rename_i q' _ heq
      cases heq
      exact finish_lost _
    · rw [if_pos hfits]
      exact .inr rfl

end State
end Net.Daemon

/-! ## Both services -/

namespace Services

/-- `netd` with a log of what it does. -/
def netdReact (s : Net.Daemon.State) (f : Net.Daemon.Found) :
    Net.Daemon.State × List Net.Daemon.Output :=
  ((s.react f).1, [(s.react f).2])

/-- In the runs in which everything is harmless, `wm` and `netd` end only when all
sessions are gone. Anything else ends the service at once, unless the request is
refused or waits. -/
theorem services_end_last (ws : List Wm.Found) (ns : List Net.Daemon.Found)
    (mac gwMac : Net.Daemon.Mac) (lease : Net.Daemon.DhcpLease)
    (hw : Meets Wm.State.react Wm.State.Harmless .start ws)
    (hn : Meets netdReact Net.Daemon.State.Harmless (.start mac gwMac lease) ns) :
    (∀ l, l <+: ws → (runLogged Wm.State.react .start l).1.EndsLast) ∧
    (∀ l, l <+: ns → (runLogged netdReact (.start mac gwMac lease) l).1.EndsLast) ∧
    (∀ (st : Wm.State) f, ¬ st.Harmless f →
      st.exited = none ∧ (st.Refused f ∨ (st.react f).1.exited.isSome)) ∧
    (∀ (s : Net.Daemon.State) f, ¬ s.Harmless f →
      s.exited = none ∧ ((s.react f).1.waiting.isSome ∨ (s.react f).1.exited.isSome)) := by
  refine ⟨fun l hl => ?_, fun l hl => ?_, fun st f hf => ?_, fun s f hf => ?_⟩
  · exact (hw.of_prefix hl).inv (I := Wm.State.EndsLast)
      (fun _ _ h hf => Wm.State.endsLast_react h hf) (Wm.State.endsLast_of_live rfl)
  · exact (hn.of_prefix hl).inv (I := Net.Daemon.State.EndsLast)
      (fun _ _ h hf => Net.Daemon.State.endsLast_react h hf) (Net.Daemon.State.endsLast_of_live rfl)
  · exact Wm.State.stops_of_not_harmless hf
  · exact Net.Daemon.State.stops_of_not_harmless hf

/-- The kernel does what it is asked, but the reply is `delivered` or not. -/
def calls (delivered : Bool) : Wm.Calls := { mapped := true, duplicated := true, delivered }

/-- A client of the compositor asks for a surface and leaves. -/
def politeWm : List Wm.Found :=
  [.message 0 ⟨40, 0, 200⟩ (some (.createSurface 0 0 8 8 0 0)) (some 7) (calls true), .closed 0]

/-- A client of the network service asks for its address and leaves. -/
def politeNetd : List Net.Daemon.Found :=
  [.message 0 ⟨16, 0, 200⟩ (some .info) 0 false, .closed 0 1]

def newNetd : Net.Daemon.State :=
  .start (.replicate 6 0) (.replicate 6 1)
    { ip := Net.Tcp.ipv4 10 0 2 15, mask := Net.Tcp.ipv4 255 255 255 0,
      router := Net.Tcp.ipv4 10 0 2 2, dns := Net.Tcp.ipv4 10 0 2 3 }

theorem meets_politeWm : Meets Wm.State.react Wm.State.Harmless .start politeWm := by
  refine ⟨.inr (.inr ⟨by decide, fun q hq => ?_⟩), trivial, trivial⟩
  cases hq
  exact ⟨rfl, rfl, rfl⟩

theorem meets_politeNetd : Meets netdReact Net.Daemon.State.Harmless newNetd politeNetd :=
  ⟨.inr (.inr ⟨by decide, .inl rfl⟩), trivial, trivial⟩

theorem services_end_last_polite : (runLogged Wm.State.react .start politeWm).1.exited = some 0 ∧
      (runLogged Wm.State.react .start politeWm).1.EndsLast ∧
      (runLogged netdReact newNetd politeNetd).1.exited = some 0 ∧
      (runLogged netdReact newNetd politeNetd).1.EndsLast := by
  obtain ⟨hw, hn, -, -⟩ := services_end_last politeWm politeNetd _ _ _ meets_politeWm meets_politeNetd
  exact ⟨by decide +kernel, hw _ List.prefix_rfl, by decide +kernel, hn _ List.prefix_rfl⟩

/-- Session `1` asks for a surface and leaves before the reply. -/
def rudeWm : List Wm.Found :=
  [.message 0 ⟨16, 1, 200⟩ (some .openSession) none (calls true),
    .message 1 ⟨40, 0, 200⟩ (some (.createSurface 0 0 8 8 0 0)) (some 7) (calls false)]

/-- Session `1` asks for its address and leaves before the reply. -/
def rudeNetd : List Net.Daemon.Found :=
  [.message 0 ⟨64, 1, 200⟩ (some (.openSession
      { allowDns := 0, allowListen := 0, ruleIp := [], rulePrefixLen := 0, rulePortLo := 0,
        rulePortHi := 0, ruleProtos := 0 })) 0 false,
    .message 1 ⟨16, 0, 200⟩ (some .info) 0 true]

/-- Both services end while the session they started with is still there. -/
theorem client_stops_services : (runLogged Wm.State.react .start rudeWm).1.exited = some 56 ∧
      (runLogged Wm.State.react .start rudeWm).1.sessions 0 = some 0 ∧
      (runLogged netdReact newNetd rudeNetd).1.exited = some 108 ∧
      ((runLogged netdReact newNetd rudeNetd).1.clients 0).isSome = true ∧
      ¬ (runLogged Wm.State.react .start rudeWm).1.EndsLast ∧
      ¬ (runLogged netdReact newNetd rudeNetd).1.EndsLast := by
  decide +kernel

end Services
end NexoOS
