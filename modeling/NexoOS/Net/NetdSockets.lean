import NexoOS.Net.NetdOwnership
import NexoOS.Net.NetdPermissions

/-!
# Sockets and sessions in every run

Runs of `netd` with a record of the session that made each socket. In every run
a session works on the sockets it made and on no others, its sockets are gone
when it has disconnected, and the session that gets its slot afterwards starts
with none.
-/

namespace NexoOS.Net.Daemon

open Function List Option State
open Firewall (Profile)

namespace Netd

theorem makes_same (st : Netd) (p : Reply) (x : Sock) : st.makes (st, .reply p) x = false := by
  cases x with
  | udp i => exact (SameSock.refl st (.udp i)).makes_udp
  | tcp i => rfl

end Netd

/-! ## Runs with makers -/

namespace State

variable {s : State}

def holder (s : State) (slot : Fin maxClients) : Option Nat := (s.clients slot).map Client.session

/-- The step makes the socket. -/
def makes (s : State) (e : Event) (x : Sock) : Bool :=
  match e with
  | .request slot (some q) now _ =>
    match s.clients slot with
    | some c =>
      if s.Serving then s.net.makes (s.net.serve slot c.profile now q) x else false
    | none => false
  | _ => false

theorem makes_openSession (s : State) (slot : Fin maxClients) (o : OpenRequest) (now : Nat)
    (lost : Bool) (x : Sock) :
    s.makes (.request slot (some (.openSession o)) now lost) x = false := by
  rw [makes]
  split
  · split
    · exact Netd.makes_same s.net (.error eInvalid) x
    · rfl
  · rfl

/-- The sockets before the service does anything for a session in the step:
those of a turn have gone through the pump. -/
def pumped (s : State) : Event → Netd
  | .turn t _ => if s.exited = none then s.net.pump t.now t.frames else s.net
  | _ => s.net

end State

/-- A state of the service, and the session that made each socket in use. -/
structure Traced where
  state : State
  maker : Sock → Option Nat

namespace Traced

def step (t : Traced) (e : Event) : Traced where
  state := (t.state.step e).1
  maker := Made.remake (t.state.step e).1.net.owner (t.state.makes e) (t.state.step e).2.session
    t.maker

def run (t : Traced) (es : List Event) : Traced := es.foldl step t

def start (mac gwMac : Mac) (lease : DhcpLease) : Traced where
  state := State.start mac gwMac lease
  maker := fun _ => none

/-- What a step does for its session. -/
structure Works (t : Traced) (e : Event) : Prop where
  /-- Sockets of other sessions stay as the pump left them; a connection that
  is closed may give its place to a new one. -/
  untouched : ∀ x k, t.maker x = some k → (t.state.step e).2.session ≠ some k →
    (t.state.pumped e).SameSock (t.step e).state.net x ∨
      ∃ i sock, x = .tcp i ∧ t.state.net.tcp i = some sock ∧ sock.state = .closed ∧
        t.state.makes e x = true
  /-- What a reply says of a socket, it says of one that its session made. -/
  reports : ∀ p, (t.state.step e).2.reply = some p → p.ofSocket = true →
    ∃ x k, p.Reports (t.state.pumped e) (t.step e).state.net x ∧
      (t.state.step e).2.session = some k ∧ (t.maker x = some k ∨ (t.step e).maker x = some k)
  /-- In a socket that is made nothing waits, and the step hands over nothing. -/
  fresh : ∀ x, t.state.makes e x = true →
    (t.step e).state.net.Empty x ∧ ∀ p, (t.state.step e).2.reply = some p → p.carries = false
  /-- Datagrams go out from a port that the session bound. -/
  datagrams : ∀ dst dp sp data, Tx.udp dst dp sp data ∈ (t.state.step e).2.frames →
    ∃ i k, ((t.step e).state.net.udp i).port = sp ∧ (t.state.step e).2.session = some k ∧
      (t.step e).maker (.udp i) = some k

/-- What a step does for its session, and to whom the sockets belong after it. -/
structure Confined (t : Traced) (e : Event) : Prop extends t.Works e where
  /-- A socket is the session's from before the step, or new and empty: whatever is
  delivered from it later came to a socket of the session. -/
  kept : ∀ x k, (t.step e).maker x = some k → t.maker x = some k ∨ t.state.makes e x = true
  /-- The sessions that have sockets are connected. -/
  present : ∀ x k, (t.step e).maker x = some k →
    ∃ slot c, (t.step e).state.clients slot = some c ∧ c.session = k
  /-- A session that disconnects leaves no socket. -/
  released : ∀ slot now c, e = .disconnect slot now → t.state.clients slot = some c →
    t.state.Serving → ∀ x, (t.step e).maker x ≠ some c.session
  /-- A session that takes a slot has a number no session had, and no sockets. -/
  later : ∀ slot c, (t.step e).state.clients slot = some c → t.state.clients slot ≠ some c →
    c.session = t.state.sessions.length ∧ ∀ x, (t.step e).maker x ≠ some c.session

/-! ## The invariant -/

/-- The makers agree with the recorded slots, the socket of a request that
waits is its client's or the resolver's, and sessions have their own numbers. -/
structure Inv (t : Traced) : Prop where
  made : Made t.state.net.owner t.state.holder t.maker
  waits : ∀ slot w, t.state.waiting = some (slot, w) → (t.state.clients slot).isSome ∧
    ∀ x, w.sock = some x → t.state.net.owner x = some slot ∨
      ∃ i, x = .udp i ∧ t.state.net.owner x = none
  distinct : ∀ i j c c', t.state.clients i = some c → t.state.clients j = some c' →
    c.session = c'.session → i = j
  number : ∀ i c, t.state.clients i = some c → c.session < t.state.sessions.length

theorem inv_start (mac gwMac : Mac) (lease : DhcpLease) : (start mac gwMac lease).Inv where
  made := by
    refine ⟨fun x s hs => ?_, fun _ _ => rfl⟩
    cases x with
    | udp i | tcp i => cases hs
  waits := nofun
  distinct := by
    intro i j c c' hi hj _
    simp only [start, State.start] at hi hj
    split at hi
    · split at hj
      · rename_i hi0 hj0
        rw [hi0, hj0]
      · cases hj
    · cases hi
  number := by
    intro i c hi
    simp only [start, State.start] at hi
    split at hi
    · cases hi
      exact Nat.zero_lt_one
    · cases hi

variable {t : Traced}

variable {x : Sock} {k now : Nat} {slot : Fin maxClients} {c : Client} {e : Event} {lost : Bool}

/-- A socket made by another session than that of the step is recorded for another slot. -/
theorem Inv.other_slot (h : t.Inv) (hx : t.maker x = some k) (hc : t.state.clients slot = some c)
    (hs : (t.state.step e).2.session = some c.session) (hk : (t.state.step e).2.session ≠ some k) :
    ∃ o, t.state.net.owner x = some o ∧ o ≠ slot := by
  obtain ⟨o, ho, hholder⟩ := h.made.owner_of_maker hx
  refine ⟨o, ho, ?_⟩
  rintro rfl
  rw [holder, hc] at hholder
  exact hk (hs.trans hholder)

theorem Inv.maker_of_owner (h : t.Inv) (hx : t.state.net.owner x = some slot)
    (hc : t.state.clients slot = some c) : t.maker x = some c.session := by
  refine h.made.maker_eq hx ?_
  rw [holder, hc]
  rfl

theorem Inv.present (h : t.Inv) (hx : t.maker x = some k) :
    ∃ slot c, t.state.clients slot = some c ∧ c.session = k := by
  obtain ⟨slot, -, hholder⟩ := h.made.owner_of_maker hx
  obtain ⟨c, hc, hk⟩ := map_eq_some_iff.mp hholder
  exact ⟨slot, c, hc, hk⟩

theorem Inv.maker_lt (h : t.Inv) (hx : t.maker x = some k) : k < t.state.sessions.length := by
  obtain ⟨slot, c, hc, rfl⟩ := h.present hx
  exact h.number slot c hc

theorem works_of_pumped (hnet : (t.step e).state.net = t.state.pumped e)
    (hmakes : ∀ x, t.state.makes e x = false)
    (hreply : ∀ p, (t.state.step e).2.reply = some p → p.ofSocket = false)
    (hframes : ∀ dst dp sp data, Tx.udp dst dp sp data ∉ (t.state.step e).2.frames) :
    t.Works e where
  untouched := by
    intro x k _ _
    rw [hnet]
    exact .inl (.refl _ x)
  reports := by
    intro p hp ho
    rw [hreply p hp] at ho
    cases ho
  fresh := by
    intro x hx
    rw [hmakes] at hx
    cases hx
  datagrams := fun dst dp sp data hf => absurd hf (hframes dst dp sp data)

theorem Inv.of_clients (h : t.Inv) (hc : (t.step e).state.clients = t.state.clients)
    (hs : (t.step e).state.sessions = t.state.sessions)
    (hmade : Made (t.step e).state.net.owner t.state.holder (t.step e).maker)
    (hwaits : ∀ slot w, (t.step e).state.waiting = some (slot, w) →
      (t.state.clients slot).isSome ∧ ∀ x, w.sock = some x →
        (t.step e).state.net.owner x = some slot ∨
          ∃ i, x = .udp i ∧ (t.step e).state.net.owner x = none) : (t.step e).Inv where
  made := by
    have hholder : (t.step e).state.holder = t.state.holder := by
      funext slot
      rw [holder, holder, hc]
    rwa [hholder]
  waits := by
    rw [hc]
    exact hwaits
  distinct := by
    rw [hc]
    exact h.distinct
  number := by
    rw [hc, hs]
    exact h.number

theorem Inv.of_finish (h : t.Inv) {r : Netd × Netd.Outcome} (hc : (t.state.clients slot).isSome)
    (hstep : (t.step e).state = (t.state.finish slot lost r).1)
    (hmade : Made r.1.owner t.state.holder (t.step e).maker)
    (hwaits : ∀ w, r.2 = .wait w → ∀ x, w.sock = some x →
      r.1.owner x = some slot ∨ ∃ i, x = .udp i ∧ r.1.owner x = none) : (t.step e).Inv := by
  have hfinish := finish_clients (s := t.state) slot lost r
  have hnet : (t.step e).state.net = r.1 := by
    rw [hstep, finish_net]
  refine h.of_clients (by rw [hstep, hfinish.1]) (by rw [hstep, hfinish.2]) (by rwa [hnet]) ?_
  intro slot' w hw
  rw [hstep] at hw
  obtain ⟨rfl, hout⟩ := finish_waiting hw
  rw [hnet]
  exact ⟨hc, hwaits w hout⟩

/-! ## The kinds of steps -/

theorem Inv.still (h : t.Inv) (hs : (t.state.step e).1 = t.state)
    (hmakes : ∀ x, t.state.makes e x = false) (hpumped : t.state.pumped e = t.state.net)
    (hframes : (t.state.step e).2.frames = [])
    (hreply : ∀ p, (t.state.step e).2.reply = some p → p.ofSocket = false) :
    (t.step e).Inv ∧ t.Works e := by
  have hstate : (t.step e).state = t.state := hs
  refine ⟨h.of_clients (by rw [hstate]) (by rw [hstate]) ?_ ?_, ?_⟩
  · show Made (t.state.step e).1.net.owner _ (Made.remake (t.state.step e).1.net.owner _ _ _)
    rw [hs]
    refine h.made.step (fun x hx => ?_) fun _ _ _ ho => ho
    rw [hmakes] at hx
    cases hx
  · rw [hstate]
    exact h.waits
  · refine works_of_pumped (by rw [hstate, hpumped]) hmakes hreply fun dst dp sp data => ?_
    rw [hframes]
    exact not_mem_nil

theorem Inv.idle (h : t.Inv) (hs : t.state.step e = t.state.idle)
    (hmakes : ∀ x, t.state.makes e x = false) (hpumped : t.state.pumped e = t.state.net) :
    (t.step e).Inv ∧ t.Works e := by
  refine h.still (by rw [hs]; rfl) hmakes hpumped (by rw [hs]; rfl) ?_
  rw [hs]
  exact nofun

theorem Inv.pump (h : t.Inv) {u : Netd.Turn} (hexit : t.state.exited = none)
    (hwait : t.state.waiting = none) : (t.step (.turn u lost)).Inv ∧ t.Works (.turn u lost) := by
  have hstep : t.state.step (.turn u lost) =
      ({ t.state with net := t.state.net.pump u.now u.frames },
        { session := none, request := none,
          frames := t.state.framesSince (t.state.net.pump u.now u.frames), reply := none }) := by
    rw [State.step, if_pos hexit]
    unfold turn
    split
    · rfl
    · rename_i hw
      cases hwait.symm.trans hw
  have hsame := Netd.sameOwners_pump t.state.net u.now u.frames
  have hstate : (t.step (.turn u lost)).state =
      { t.state with net := t.state.net.pump u.now u.frames } := congrArg Prod.fst hstep
  refine ⟨h.of_clients (by rw [hstate]) (by rw [hstate]) ?_ ?_, ?_⟩
  · show Made (t.state.step _).1.net.owner _ (Made.remake (t.state.step _).1.net.owner _ _ _)
    rw [hstep]
    refine h.made.step (fun x hx => nomatch hx) fun x _ s ho => ?_
    exact (hsame.owner_eq x).symm.trans ho
  · rw [hstate]
    exact fun slot w hw => nomatch hwait.symm.trans hw
  · refine works_of_pumped (by rw [pumped, if_pos hexit, hstate]) (fun _ => rfl) ?_
      fun dst dp sp data => ?_
    · rw [hstep]
      exact nofun
    · rw [hstep]
      exact hsame.sent.not_mem

theorem Inv.turn (h : t.Inv) {u : Netd.Turn} {w : Wait} (hexit : t.state.exited = none)
    (hwait : t.state.waiting = some (slot, w)) :
    (t.step (.turn u lost)).Inv ∧ t.Works (.turn u lost) := by
  have hstep : t.state.step (.turn u lost) = ((t.state.finish slot lost (t.state.net.turn u w)).1,
        { session := (t.state.clients slot).map Client.session, request := none,
          frames := t.state.framesSince (t.state.finish slot lost (t.state.net.turn u w)).1.net,
          reply := (t.state.finish slot lost (t.state.net.turn u w)).2 }) := by
    rw [State.step, if_pos hexit, State.turn, hwait]
  obtain ⟨hclient, hsock⟩ := h.waits slot w hwait
  obtain ⟨c, hc⟩ := isSome_iff_exists.mp hclient
  have hsame := Netd.sameOwners_pump t.state.net u.now u.frames
  have hturned := Netd.turned_turn t.state.net u w
  have hnet : (t.step (.turn u lost)).state.net = (t.state.net.turn u w).1 := by
    show (t.state.step _).1.net = _
    rw [hstep, finish_net]
  have hsession : (t.state.step (.turn u lost)).2.session = some c.session := by
    rw [hstep, hc]
    rfl
  have hold : ∀ x s, (t.state.net.turn u w).1.owner x = some s → t.state.net.owner x = some s := by
    intro x s ho
    rw [← hsame.owner_eq]
    exact hturned.only.old x s ho
  refine ⟨h.of_finish hclient (congrArg Prod.fst hstep) ?_ fun w' hout x hx => ?_, ?_⟩
  · show Made _ _ (Made.remake (t.step _).state.net.owner _ _ _)
    rw [hnet]
    exact h.made.step (fun x hx => nomatch hx) fun x _ s ho => hold x s ho
  · obtain ⟨hsock', howner⟩ := hturned.waits w' hout
    rw [howner, hsame.owner_eq]
    exact hsock x (hsock'.symm.trans hx)
  constructor
  case untouched =>
    intro x k hx hk
    obtain ⟨o, ho, hne⟩ := h.other_slot hx hc hsession hk
    left
    rw [pumped, if_pos hexit, hnet]
    refine hturned.only.others x fun hwx => ?_
    rcases hsock x hwx with ho' | ⟨-, -, ho'⟩
    · exact hne (some.inj (ho.symm.trans ho'))
    · cases ho.symm.trans ho'
  case reports =>
    intro p hp ho
    have hout : (t.state.net.turn u w).2 = .reply p := by
      rw [hstep] at hp
      exact finish_reply hp
    obtain ⟨i, hx, hr⟩ := hturned.reply p hout ho
    refine ⟨.tcp i, c.session, ?_, hsession, .inl ?_⟩
    · rw [pumped, if_pos hexit, hnet]
      exact hr
    · rcases hsock _ hx with ho' | ⟨j, hj, -⟩
      · exact h.maker_of_owner ho' hc
      · cases hj
  case fresh => exact fun x hx => nomatch hx
  case datagrams =>
    intro dst dp sp data hf
    rw [hstep, framesSince, finish_net] at hf
    exact absurd hf (hsame.sent.trans hturned.only.sent).not_mem

theorem clients_disconnect (hc : t.state.clients slot = some c) (hserving : t.state.Serving) :
    (t.step (.disconnect slot now)).state.clients = update t.state.clients slot none := by
  show (t.state.step _).1.clients = _
  rw [State.step, hc]
  dsimp only
  rw [if_pos hserving]
  rfl

section
variable (h : t.Inv) (hc : t.state.clients slot = some c) (hserving : t.state.Serving)
include h hc hserving

theorem Inv.serve {q : Request} (hq : ∀ o, q ≠ .openSession o) :
    (t.step (.request slot (some q) now lost)).Inv ∧ t.Works (.request slot (some q) now lost) := by
  have hstep : t.state.step (.request slot (some q) now lost) =
      ((t.state.finish slot lost (t.state.net.serve slot c.profile now q)).1,
        { session := some c.session, request := some q, frames := t.state.framesSince
            (t.state.finish slot lost (t.state.net.serve slot c.profile now q)).1.net,
          reply := (t.state.finish slot lost (t.state.net.serve slot c.profile now q)).2 }) := by
    rw [State.step, hc]
    dsimp only
    rw [if_pos hserving]
    unfold request
    split
    · rename_i hnone
      cases hnone
    · rename_i o ho
      exact absurd (some.inj ho) (hq o)
    rename_i q' _ hq'
    cases hq'
    rfl
  have hmakes : t.state.makes (.request slot (some q) now lost) =
      t.state.net.makes (t.state.net.serve slot c.profile now q) := by
    funext x
    rw [makes]
    rw [hc]
    exact if_pos hserving
  have hserved := Netd.served_serve t.state.net slot c.profile now q
  generalize hr : t.state.net.serve slot c.profile now q = r at hstep hmakes hserved
  have hnet : (t.step (.request slot (some q) now lost)).state.net = r.1 := by
    show (t.state.step _).1.net = _
    rw [hstep, finish_net]
  have hsession : (t.state.step (.request slot (some q) now lost)).2.session = some c.session := by
    rw [hstep]
  have hholder : t.state.holder slot = some c.session := by
    rw [holder, hc]
    rfl
  have hmade : Made r.1.owner t.state.holder
      (t.step (.request slot (some q) now lost)).maker := by
    show Made _ _ (Made.remake (t.step _).state.net.owner _ _ _)
    rw [hnet, hmakes, hsession]
    refine h.made.step (fun x hx s ho => ⟨c.session, rfl, ?_⟩) fun x hx s ho => ?_
    · rw [hserved.made x hx s ho]
      exact hholder
    · exact hserved.old x hx s ho
  refine ⟨h.of_finish (by rw [hc]; rfl) (congrArg Prod.fst hstep) hmade hserved.waits, ?_⟩
  · constructor
    case untouched =>
      intro x k hx hk
      obtain ⟨o, ho, hne⟩ := h.other_slot hx hc hsession hk
      rw [hmakes, hnet]
      rcases hm : t.state.net.makes r x with _ | _
      · exact .inl (hserved.others x o ho hne hm)
      -- only the place of a closed connection is given away
      cases x with
      | udp i =>
        rw [Netd.makes, ho] at hm
        cases hm
      | tcp i =>
        obtain ⟨sock, hsock⟩ := ne_none_iff_exists'.mp (Netd.owner_tcp.mp ho).1
        exact .inr ⟨i, sock, rfl, hsock, hserved.replaced i hm sock hsock, rfl⟩
    case reports =>
      intro p hp ho
      have hout : r.2 = .reply p := by
        rw [hstep] at hp
        exact finish_reply hp
      obtain ⟨x, hx, howner⟩ := hserved.reply p hout ho
      refine ⟨x, c.session, ?_, hsession, .inr ?_⟩
      · rw [hnet]
        exact hx
      · exact hmade.maker_eq howner hholder
    case fresh =>
      rw [hmakes, hnet]
      refine fun x hx => (hserved.fresh x hx).imp_right fun hcarries p hp => hcarries p ?_
      rw [hstep] at hp
      exact finish_reply hp
    case datagrams =>
      intro dst dp sp data hf
      obtain ⟨fs, hfs, hudp⟩ := hserved.sent
      rw [hstep] at hf
      change _ ∈ (t.state.finish slot lost r).1.net.sent.drop _ at hf
      rw [finish_net, hfs, drop_left] at hf
      obtain ⟨i, hport, howner⟩ := hudp dst dp sp data hf
      refine ⟨i, c.session, by rw [hnet]; exact hport, hsession, ?_⟩
      exact hmade.maker_eq howner hholder

theorem Inv.opened {i : Fin maxClients} {o : OpenRequest} (hplace : t.state.place = some i) :
    (t.step (.request slot (some (.openSession o)) now lost)).Inv ∧
      t.Works (.request slot (some (.openSession o)) now lost) := by
  have hstep : t.state.step (.request slot (some (.openSession o)) now lost) = ({ t.state with
          clients := update t.state.clients i
            (some { session := t.state.sessions.length, profile := childProfile o })
          sessions := t.state.sessions ++
            [{ parent := some c.session, profile := childProfile o }] },
        { session := some c.session, request := some (.openSession o), frames := [],
          reply := some .opened }) := by
    rw [State.step, hc]
    dsimp only
    rw [if_pos hserving, request, openSession, hplace]
  have hmakes := t.state.makes_openSession slot o now lost
  have hfree := place_isNone hplace
  have hstate := congrArg Prod.fst hstep
  refine ⟨?_, ?_⟩
  · constructor
    case made =>
      have hholder : (t.step (.request slot (some (.openSession o)) now lost)).state.holder =
          update t.state.holder i (some t.state.sessions.length) := by
        funext j
        show ((t.state.step _).1.clients j).map Client.session = _
        rw [hstate]
        by_cases hj : j = i
        · subst hj
          simp
        · simp [hj, holder]
      rw [hholder]
      show Made (t.state.step _).1.net.owner _ (Made.remake (t.state.step _).1.net.owner _ _ _)
      rw [hstate]
      refine Made.enter (h.made.step (fun x hx => ?_) fun _ _ _ ho => ho) ?_ _
      · rw [hmakes] at hx
        cases hx
      · rw [holder, hfree]
        rfl
    case waits =>
      intro slot' w hw
      change (t.state.step _).1.waiting = _ at hw
      rw [hstate] at hw
      have hnone := isNone_iff_eq_none.mp hserving.2
      cases hnone.symm.trans hw
    case distinct =>
      intro j j' c₁ c₂ hj hj' hsess
      change (t.state.step _).1.clients _ = _ at hj hj'
      rw [hstate] at hj hj'
      -- the new session has a number that no other has
      rcases of_update_some hj with ⟨rfl, rfl⟩ | ⟨-, hold⟩ <;>
        rcases of_update_some hj' with ⟨rfl, rfl⟩ | ⟨-, hold'⟩
      · rfl
      · exact absurd hsess (h.number j' c₂ hold').ne'
      · exact absurd hsess (h.number j c₁ hold).ne
      · exact h.distinct j j' c₁ c₂ hold hold' hsess
    case number =>
      intro j c₁ hj
      change (t.state.step _).1.clients _ = _ at hj
      show _ < (t.state.step _).1.sessions.length
      rw [hstate] at hj ⊢
      rw [length_append, length_singleton]
      rcases of_update_some hj with ⟨-, rfl⟩ | ⟨-, hj⟩
      · exact Nat.lt_succ_self _
      · exact Nat.lt_succ_of_lt (h.number j c₁ hj)
  · refine works_of_pumped ?_ hmakes ?_ ?_
    · show (t.state.step _).1.net = _
      rw [hstate]
      rfl
    · rw [hstep]
      intro p hp
      cases hp
      rfl
    · rw [hstep]
      exact fun _ _ _ _ => not_mem_nil

theorem Inv.disconnect : (t.step (.disconnect slot now)).Inv ∧ t.Works (.disconnect slot now) := by
  have hstep : t.state.step (.disconnect slot now) = t.state.disconnect slot c now := by
    rw [State.step, hc]
    exact if_pos hserving
  have hspares := Netd.spares_libertaSessao t.state.net slot now
  have hnet : (t.step (.disconnect slot now)).state.net = t.state.net.libertaSessao slot now := by
    show (t.state.step _).1.net = _
    rw [hstep]
    rfl
  have hleft : ∀ j c', (t.step (.disconnect slot now)).state.clients j = some c' →
      t.state.clients j = some c' := by
    intro j c' hj
    rw [clients_disconnect hc hserving] at hj
    exact (of_update_none hj).2
  refine ⟨?_, ?_⟩
  · constructor
    case made =>
      have hholder : (t.step (.disconnect slot now)).state.holder =
          update t.state.holder slot none := by
        funext j
        rw [holder, clients_disconnect hc hserving]
        by_cases hj : j = slot
        · subst hj
          simp
        · simp [hj, holder]
      rw [hholder]
      show Made (t.step _).state.net.owner _ (Made.remake (t.step _).state.net.owner _ _ _)
      rw [hnet]
      refine Made.leave ?_ (Netd.libertaSessao_owner t.state.net slot now)
      exact h.made.step (fun x hx => nomatch hx) fun x _ => hspares.old x
    case waits =>
      intro slot' w hw
      change (t.state.step _).1.waiting = _ at hw
      rw [hstep] at hw
      have hnone := isNone_iff_eq_none.mp hserving.2
      cases hnone.symm.trans hw
    case distinct =>
      intro j j' c₁ c₂ hj hj'
      exact h.distinct j j' c₁ c₂ (hleft j c₁ hj) (hleft j' c₂ hj')
    case number =>
      intro j c₁ hj
      show _ < (t.state.step _).1.sessions.length
      rw [hstep]
      exact h.number j c₁ (hleft j c₁ hj)
  · constructor
    case untouched =>
      intro x k hx hk
      have hsession : (t.state.step (.disconnect slot now)).2.session = some c.session := by
        rw [hstep]
        rfl
      obtain ⟨o, ho, hne⟩ := h.other_slot hx hc hsession hk
      left
      rw [hnet]
      exact hspares.others x o ho hne
    case reports =>
      intro p hp
      rw [hstep] at hp
      cases hp
    case fresh => exact fun x hx => nomatch hx
    case datagrams =>
      intro dst dp sp data hf
      rw [hstep] at hf
      exact absurd hf hspares.sent.not_mem

end

/-! ## Runs -/

theorem Inv.step (h : t.Inv) (e : Event) : (t.step e).Inv ∧ t.Works e := by
  cases e with
  | turn u lost =>
    by_cases hexit : t.state.exited = none
    · cases hwait : t.state.waiting with
      | none => exact h.pump hexit hwait
      | some sw => exact h.turn hexit hwait
    exact h.idle (if_neg hexit) (fun _ => rfl) (if_neg hexit)
  | request slot rq now lost =>
    cases hc : t.state.clients slot with
    | none =>
      refine h.idle (by rw [State.step, hc]) (fun x => ?_) rfl
      cases rq with
      | none => rfl
      | some q => rw [makes, hc]
    | some c =>
      by_cases hserving : t.state.Serving
      · have hstep : t.state.step (.request slot rq now lost) =
            t.state.request slot c rq now lost := by
          rw [State.step, hc]
          exact if_pos hserving
        cases rq with
        | none =>
          refine h.still (by rw [hstep]; rfl) (fun _ => rfl) rfl (by rw [hstep]; rfl) ?_
          rw [hstep]
          intro p hp
          cases hp
          rfl
        | some q =>
          by_cases hq : ∃ o, q = .openSession o
          · obtain ⟨o, rfl⟩ := hq
            cases hplace : t.state.place with
            | some i => exact h.opened hc hserving hplace
            | none =>
              have hfull : t.state.openSession c o = (t.state, .error eNoRes) := by
                rw [openSession, hplace]
              refine h.still ?_ (t.state.makes_openSession slot o now lost) rfl ?_ ?_
              · rw [hstep, request, hfull]
              · rw [hstep, request]
              · rw [hstep, request, hfull]
                intro p hp
                cases hp
                rfl
          · exact h.serve hc hserving fun o ho => hq ⟨o, ho⟩
      · refine h.idle ?_ (fun x => ?_) rfl
        · rw [State.step, hc]
          exact if_neg hserving
        cases rq with
        | none => rfl
        | some q =>
          rw [makes, hc]
          exact if_neg hserving
  | disconnect slot now =>
    rcases hc : t.state.clients slot with _ | c
    · exact h.idle (by rw [State.step, hc]) (fun _ => rfl) rfl
    by_cases hserving : t.state.Serving
    · exact h.disconnect hc hserving
    refine h.idle ?_ (fun _ => rfl) rfl
    rw [State.step, hc]
    exact if_neg hserving

theorem Inv.confined (h : t.Inv) (e : Event) : t.Confined e := by
  obtain ⟨hnext, hworks⟩ := h.step e
  refine { hworks with kept := ?kept, present := ?present, released := ?released, later := ?later }
  case kept =>
    intro x k hx
    cases hm : t.state.makes e x with
    | true => exact .inr rfl
    | false => exact .inl (Made.maker_of_remake hm hx)
  case present => exact fun x k hx => hnext.present hx
  case released =>
    rintro slot now c rfl hc hserving x hx
    obtain ⟨slot', c', hc', hsess⟩ := hnext.present hx
    rw [clients_disconnect hc hserving] at hc'
    obtain ⟨hs, hc'⟩ := of_update_none hc'
    exact hs (h.distinct slot' slot c' c hc' hc hsess)
  case later =>
    intro slot c hc hne
    rcases t.state.step_clients e with ⟨hsame, -, -⟩ | ⟨c₀, rq, i, hopen, hupd, -⟩ | ⟨s, hupd, -, -⟩
    · refine absurd ?_ hne
      rw [← hsame]
      exact hc
    · change (t.state.step e).1.clients slot = some c at hc
      rw [hupd] at hc
      rcases of_update_some hc with ⟨-, rfl⟩ | ⟨-, hc⟩
      · refine ⟨rfl, fun x hx => ?_⟩
        -- `open` makes no socket, and no maker has this number
        obtain ⟨⟨slot₀, now, lost, rfl, -⟩, -, -⟩ := hopen
        have hmaker := Made.maker_of_remake (t.state.makes_openSession slot₀ rq now lost x) hx
        exact Nat.lt_irrefl _ (h.maker_lt hmaker)
      · exact absurd hc hne
    · change (t.state.step e).1.clients slot = some c at hc
      rw [hupd] at hc
      exact absurd (of_update_none hc).2 hne

theorem Inv.run (h : t.Inv) (es : List Event) : (t.run es).Inv := by
  induction es generalizing t with
  | nil => exact h
  | cons e es ih => exact ih (h.step e).1

end Traced

/-- Session `1` binds a port and disconnects; session `2` gets its slot, and
then the socket is one that it made itself. -/
example : ((Traced.start (.replicate 6 0) (.replicate 6 1) someLease).run
      [.request 0 (some (.openSession openNothing)) 0 false,
        .request 1 (some (.udpRecv 7000)) 1 false, .disconnect 1 2,
        .request 0 (some (.openSession openNothing)) 3 false,
        .request 1 (some (.udpRecv 7000)) 4 false]).maker (.udp 0) = some 2 := by
  decide +kernel

end NexoOS.Net.Daemon
