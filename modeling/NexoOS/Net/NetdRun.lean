import NexoOS.Net.Netd

/-!
# Runs of the network service

The event loop of `netd`: sessions send requests and disconnect, `open` adds a
session, and the pump turns between them. Sessions are numbered in the order in
which they were opened; `sessions` keeps what each was opened with.
-/

namespace NexoOS.Net.Daemon

open Firewall (Profile)

/-- A channel that is served: the number of its session, and its profile. -/
structure Client where
  session : Nat
  profile : Profile

/-- How a session came to be. -/
structure Session where
  parent : Option Nat
  profile : Profile

structure State where
  net : Netd
  clients : Fin maxClients → Option Client
  waiting : Option (Fin maxClients × Wait)
  sessions : List Session
  exited : Option Nat

/-- What happens. A reply is `lost` when the client closed its end before. -/
inductive Event where
  | turn (t : Netd.Turn) (lost : Bool)
  | request (slot : Fin maxClients) (rq : Option Request) (now : Nat) (lost : Bool)
  | disconnect (slot : Fin maxClients) (now : Nat)

/-- What a step does for a session: the request it takes, the frames that go
out, and the reply. -/
structure Output where
  session : Option Nat
  request : Option Request
  frames : List Tx
  reply : Option Reply
  deriving DecidableEq

/-- The profile that `open` gives to the new session. -/
def childProfile (rq : OpenRequest) : Profile :=
  let child : Profile :=
    { rules := [], allowDns := rq.allowDns ≠ 0, allowListen := rq.allowListen ≠ 0 }
  if rq.ruleProtos ≠ 0 then
    match toAddr rq.ruleIp with
    | none => child
    | some ip =>
      child.addRule
        { base := ip, prefixLen := rq.rulePrefixLen, portLo := rq.rulePortLo,
          portHi := rq.rulePortHi, protos := rq.ruleProtos }
  else child

namespace State

variable (s : State)

/-- The service takes requests: it has not exited and no request waits. -/
def Serving : Prop := s.exited = none ∧ s.waiting.isNone

instance : Decidable s.Serving := inferInstanceAs (Decidable (_ ∧ _))

def place : Option (Fin maxClients) :=
  (List.finRange maxClients).find? fun i => (s.clients i).isNone

/-- The end of a turn for the client `slot`: it is answered, or waits. A reply
that cannot be delivered ends the service. -/
def finish (slot : Fin maxClients) (lost : Bool) : Netd × Netd.Outcome → State × Option Reply
  | (net, .reply r) =>
    ({ s with net, waiting := none, exited := if lost then some 108 else s.exited }, some r)
  | (net, .wait w) => ({ s with net, waiting := some (slot, w) }, none)

/-- The frames that went out since `s`. -/
def framesSince (net : Netd) : List Tx := net.sent.drop s.net.sent.length

/-- `open`: the channel becomes a client if there is a place. -/
def openSession (c : Client) (rq : OpenRequest) : State × Reply :=
  match s.place with
  | none => (s, .error eNoRes)
  | some i =>
    ({ s with
        clients := Function.update s.clients i
          (some { session := s.sessions.length, profile := childProfile rq })
        sessions := s.sessions ++ [{ parent := some c.session, profile := childProfile rq }] },
      .opened)

def request (slot : Fin maxClients) (c : Client) (rq : Option Request) (now : Nat) (lost : Bool) :
    State × Output :=
  match rq with
  | none =>
    (s, { session := some c.session, request := none, frames := [],
          reply := some (.error eInvalid) })
  | some (.openSession o) =>
    let r := s.openSession c o
    (r.1, { session := some c.session, request := rq, frames := [], reply := some r.2 })
  | some q =>
    let r := s.finish slot lost (s.net.serve slot c.profile now q)
    (r.1, { session := some c.session, request := rq, frames := s.framesSince r.1.net,
            reply := r.2 })

def disconnect (slot : Fin maxClients) (c : Client) (now : Nat) : State × Output :=
  let clients := Function.update s.clients slot none
  let net := s.net.libertaSessao slot now
  ({ s with
      net, clients
      exited := if slot = 0 ∧ ∀ i, (clients i).isNone then some 0 else s.exited },
    { session := some c.session, request := none, frames := s.framesSince net, reply := none })

/-- A turn of the loop that waits, or of the event loop. -/
def turn (t : Netd.Turn) (lost : Bool) : State × Output :=
  match s.waiting with
  | none =>
    let net := s.net.pump t.now t.frames
    ({ s with net },
      { session := none, request := none, frames := s.framesSince net, reply := none })
  | some (slot, w) =>
    let r := s.finish slot lost (s.net.turn t w)
    (r.1, { session := (s.clients slot).map Client.session, request := none,
            frames := s.framesSince r.1.net, reply := r.2 })

/-- Nothing happens. -/
def idle : State × Output :=
  (s, { session := none, request := none, frames := [], reply := none })

/-- One step. While a request waits, the others stay in their channels. -/
def step (e : Event) : State × Output :=
  match e with
  | .turn t lost => if s.exited = none then s.turn t lost else s.idle
  | .request slot rq now lost =>
    match s.clients slot with
    | none => s.idle
    | some c => if s.Serving then s.request slot c rq now lost else s.idle
  | .disconnect slot now =>
    match s.clients slot with
    | none => s.idle
    | some c => if s.Serving then s.disconnect slot c now else s.idle

def run (es : List Event) : State := es.foldl (fun s e => (step s e).1) s

/-- What the steps of a run did. -/
def outputs : State → List Event → List Output
  | _, [] => []
  | s, e :: es => (s.step e).2 :: outputs (s.step e).1 es

end State

/-- The service after its start: no sockets, and one client without
restrictions. -/
def Netd.init (mac gwMac : Mac) (lease : DhcpLease) : Netd where
  mac := mac
  gwMac := gwMac
  lease := lease
  udp := fun _ => { used := false, owner := some 0, port := 0, queue := [] }
  tcp := fun _ => none
  tcpOwner := fun _ => 0
  dns := []
  stats := { rxFrames := 0, txFrames := 0, udpDropped := 0, pingsSent := 0, pingsReplied := 0 }
  ping := none
  pingReply := none
  sent := []

def State.start (mac gwMac : Mac) (lease : DhcpLease) : State where
  net := .init mac gwMac lease
  clients := fun i => if i = 0 then some { session := 0, profile := .unrestricted } else none
  waiting := none
  sessions := [{ parent := none, profile := .unrestricted }]
  exited := none

/-! ## What a step does to the sessions -/

namespace State

variable {s : State}

theorem finish_clients (slot : Fin maxClients) (lost : Bool) (r : Netd × Netd.Outcome) :
    (s.finish slot lost r).1.clients = s.clients ∧
      (s.finish slot lost r).1.sessions = s.sessions := by
  rcases r with ⟨net, r | w⟩ <;> exact ⟨rfl, rfl⟩

theorem finish_net (slot : Fin maxClients) (lost : Bool) (r : Netd × Netd.Outcome) :
    (s.finish slot lost r).1.net = r.1 := by
  rcases r with ⟨net, r | w⟩ <;> rfl

theorem finish_waiting {slot slot' : Fin maxClients} {lost : Bool} {r : Netd × Netd.Outcome}
    {w : Wait} (h : (s.finish slot lost r).1.waiting = some (slot', w)) :
    slot' = slot ∧ r.2 = .wait w := by
  rcases r with ⟨net, r | w'⟩
  · cases h
  · cases h
    exact ⟨rfl, rfl⟩

theorem finish_reply {slot : Fin maxClients} {lost : Bool} {r : Netd × Netd.Outcome} {p : Reply}
    (h : (s.finish slot lost r).2 = some p) : r.2 = .reply p := by
  rcases r with ⟨net, p' | w⟩
  · exact congrArg _ (Option.some.inj h)
  · cases h

theorem place_isNone {i : Fin maxClients} (h : s.place = some i) : s.clients i = none := by
  unfold place at h
  have hi := List.find?_some h
  exact Option.isNone_iff_eq_none.1 hi

/-- The event is an `open` that is served and finds a place. -/
structure Opens (s : State) (e : Event) (c : Client) (rq : OpenRequest) (i : Fin maxClients) :
    Prop where
  event : ∃ slot now lost, e = .request slot (some (.openSession rq)) now lost ∧
    s.clients slot = some c
  serving : s.Serving
  place : s.place = some i

/-- The clients and sessions after a step: as before, or one of each more, or a
client less. -/
theorem step_clients (s : State) (e : Event) :
    ((s.step e).1.clients = s.clients ∧ (s.step e).1.sessions = s.sessions ∧
        ∀ c rq i, ¬ s.Opens e c rq i) ∨ (∃ c rq i, s.Opens e c rq i ∧
        (s.step e).1.clients = Function.update s.clients i
          (some { session := s.sessions.length, profile := childProfile rq }) ∧
        (s.step e).1.sessions =
          s.sessions ++ [{ parent := some c.session, profile := childProfile rq }]) ∨
      (∃ slot, (s.step e).1.clients = Function.update s.clients slot none ∧
        (s.step e).1.sessions = s.sessions ∧ ∀ c rq i, ¬ s.Opens e c rq i) := by
  cases e with
  | turn t lost =>
    refine .inl ?_
    have hno : ∀ c rq i, ¬ s.Opens (.turn t lost) c rq i := by
      rintro c rq i ⟨⟨_, _, _, he, _⟩, _, _⟩
      cases he
    unfold step turn
    dsimp only
    split
    · split
      · exact ⟨rfl, rfl, hno⟩
      · exact ⟨(finish_clients _ _ _).1, (finish_clients _ _ _).2, hno⟩
    · exact ⟨rfl, rfl, hno⟩
  | disconnect slot now =>
    have hno : ∀ c rq i, ¬ s.Opens (.disconnect slot now) c rq i := by
      rintro c rq i ⟨⟨_, _, _, he, _⟩, _, _⟩
      cases he
    unfold step
    dsimp only
    split
    · exact .inl ⟨rfl, rfl, hno⟩
    split
    · exact .inr (.inr ⟨slot, rfl, rfl, hno⟩)
    · exact .inl ⟨rfl, rfl, hno⟩
  | request slot rq now lost =>
    unfold step
    dsimp only
    split
    · rename_i hc
      refine .inl ⟨rfl, rfl, ?_⟩
      rintro c rq i ⟨⟨_, _, _, he, hc'⟩, _, _⟩
      obtain ⟨rfl, -⟩ := Event.request.inj he
      cases hc.symm.trans hc'
    · rename_i c hc
      split
      · rename_i hserving
        unfold request
        split
        · refine .inl ⟨rfl, rfl, ?_⟩
          rintro c rq i ⟨⟨_, _, _, he, _⟩, _, _⟩
          obtain ⟨_, he, _⟩ := Event.request.inj he
          cases he
        · rename_i o
          unfold openSession
          cases hplace : s.place with
          | none =>
            refine .inl ⟨rfl, rfl, ?_⟩
            rintro c rq i ⟨_, _, hp⟩
            cases hplace.symm.trans hp
          | some i =>
            exact .inr (.inl ⟨c, o, i, ⟨⟨slot, now, lost, rfl, hc⟩, hserving, hplace⟩, rfl, rfl⟩)
        · rename_i q hq
          refine .inl ⟨(finish_clients _ _ _).1, (finish_clients _ _ _).2, ?_⟩
          rintro c rq i ⟨⟨_, _, _, he, _⟩, _, _⟩
          obtain ⟨_, he, _⟩ := Event.request.inj he
          exact hq _ (Option.some.inj he)
      · rename_i hserving
        refine .inl ⟨rfl, rfl, ?_⟩
        rintro c rq i ⟨_, hs, _⟩
        exact hserving hs

end State
end NexoOS.Net.Daemon
