import NexoOS.Lib.Slots
import NexoOS.Net.NetdRun

/-!
# Sockets belong to sessions

`netd` records the owner of a UDP socket or a TCP connection as the index of a
client slot, and slots are used again. Here every socket in use is tied to the
session that made it, by the number of the session, which is never used again:
what the service does for a session leaves the sockets of the others alone, and
what it reports comes from the session's own.
-/

namespace NexoOS.Net.Daemon

open Function

open Firewall (Profile)
open Tcp (TcpSocket TxSeg)

inductive Sock where
  | udp (i : Fin udpSocks)
  | tcp (i : Fin tcpConns)
  deriving DecidableEq

/-- The socket that a waiting request is about. -/
def Wait.sock : Wait → Option Sock
  | .resolve _ _ ui _ => some (.udp ui)
  | .connect i _ | .listen i _ | .send i _ _ | .close i _ _ => some (.tcp i)
  | .ping _ _ => none

/-- The connection that a request has just made. -/
def Netd.Outcome.made : Netd.Outcome → Option (Fin tcpConns)
  | .wait (.connect i _) | .wait (.listen i _) => some i
  | _ => none

/-- The reply is about a socket of the session. -/
def Reply.ofSocket : Reply → Bool
  | .udpSend | .udpRecv (some _) | .udpAvail _ | .tcpConnect _ | .tcpSend _ | .tcpRecv _ _
  | .tcpListen _ _ _ | .tcpAvail _ _ | .tcpClose => true
  | _ => false

/-- What the reply says of the socket, in `st` before and `st'` after the
request was answered. -/
def Reply.Reports (st st' : Netd) : Reply → Sock → Prop
  | .udpSend, .udp i => (st'.udp i).used = true
  | .udpRecv (some d), .udp i => (st.udp i).queue.head? = some d
  | .udpAvail n, .udp i => n = (st'.udp i).queue.length
  | .tcpConnect conn, .tcp i => conn = i
  | .tcpSend _, .tcp i => st.tcp i ≠ none
  | .tcpRecv data _, .tcp i => ∃ sock, st.tcp i = some sock ∧ data = (sock.takeRx replyMax).2
  | .tcpListen conn _ _, .tcp i => conn = i
  | .tcpAvail n _, .tcp i => ∃ sock, st.tcp i = some sock ∧ n = sock.rx.length
  | .tcpClose, .tcp i => st'.tcp i = none
  | _, _ => False

/-- The reply hands over what came from the network. -/
def Reply.carries : Reply → Bool
  | .udpRecv (some _) | .tcpRecv _ _ => true
  | _ => false

def Tx.isUdp : Tx → Bool
  | .udp .. => true
  | _ => false

namespace Netd

variable {st st' st'' : Netd} {x : Sock} {slot : Fin maxClients}

/-- The slot recorded for a socket that is in use. -/
def owner (st : Netd) : Sock → Option (Fin maxClients)
  | .udp i => if (st.udp i).used then (st.udp i).owner else none
  | .tcp i => if (st.tcp i).isSome then some (st.tcpOwner i) else none

/-- The socket is the same, with all that it holds. -/
def SameSock (st st' : Netd) : Sock → Prop
  | .udp i => st'.udp i = st.udp i
  | .tcp i => st'.tcp i = st.tcp i ∧ st'.tcpOwner i = st.tcpOwner i

/-- Nothing from the network waits in the socket. -/
def Empty (st : Netd) : Sock → Prop
  | .udp i => (st.udp i).queue = []
  | .tcp i => ∀ sock, st.tcp i = some sock → sock.rx = []

/-- The request that led from `st` to `r` made the socket. -/
def makes (st : Netd) (r : Netd × Outcome) : Sock → Bool
  | .udp i => (st.owner (.udp i)).isNone && (r.1.owner (.udp i)).isSome
  | .tcp i => r.2.made = some i

theorem SameSock.refl (st : Netd) (x : Sock) : st.SameSock st x := by
  cases x with
  | udp i => rfl
  | tcp i => exact ⟨rfl, rfl⟩

theorem SameSock.trans (h : st.SameSock st' x) (h' : st'.SameSock st'' x) : st.SameSock st'' x := by
  cases x with
  | udp i => exact Eq.trans h' h
  | tcp i => exact ⟨h'.1.trans h.1, h'.2.trans h.2⟩

theorem sameSock_of_eq (hudp : st'.udp = st.udp) (htcp : st'.tcp = st.tcp)
    (hown : st'.tcpOwner = st.tcpOwner) (x : Sock) : st.SameSock st' x := by
  cases x with
  | udp i => exact congrFun hudp i
  | tcp i => exact ⟨congrFun htcp i, congrFun hown i⟩

theorem SameSock.owner_eq (h : st.SameSock st' x) : st'.owner x = st.owner x := by
  cases x with
  | udp i =>
    rw [owner, owner, show st'.udp i = st.udp i from h]
  | tcp i =>
    obtain ⟨ht, ho⟩ := h
    rw [owner, owner, ht, ho]

theorem SameSock.makes_udp {r : Netd × Outcome} {i : Fin udpSocks}
    (h : st.SameSock r.1 (.udp i)) : st.makes r (.udp i) = false := by
  rw [makes, h.owner_eq]
  cases st.owner (.udp i) <;> rfl

variable {i : Fin tcpConns} {y : Option Sock} {w : Wait} {p : Reply} {port : UInt16}

theorem owner_tcp : st.owner (.tcp i) = some slot ↔ st.tcp i ≠ none ∧ st.tcpOwner i = slot := by
  rw [owner, ← Option.isSome_iff_ne_none]
  split
  · simp [*]
  · simp [*]

theorem owner_udp {i : Fin udpSocks} :
    st.owner (.udp i) = some slot ↔ (st.udp i).used = true ∧ (st.udp i).owner = some slot := by
  rw [owner]
  split
  · simp [*]
  · simp [*]

/-! ## The pump -/

/-- No datagram went out. -/
def Mute (st st' : Netd) : Prop := ∃ fs, st'.sent = st.sent ++ fs ∧ ∀ f ∈ fs, f.isUdp = false

theorem mute_of_eq (h : st'.sent = st.sent) : st.Mute st' :=
  ⟨[], h.trans (List.append_nil _).symm, fun _ h => absurd h List.not_mem_nil⟩

theorem Mute.trans (h : st.Mute st') (h' : st'.Mute st'') : st.Mute st'' := by
  obtain ⟨fs, hfs, hudp⟩ := h
  obtain ⟨fs', hfs', hudp'⟩ := h'
  refine ⟨fs ++ fs', by rw [hfs', hfs, List.append_assoc], fun f hf => ?_⟩
  rcases List.mem_append.mp hf with hf | hf
  · exact hudp f hf
  · exact hudp' f hf

theorem Mute.not_mem (h : st.Mute st') {dst : Tcp.Ipv4Addr} {dp sp : UInt16} {data : List UInt8} :
    Tx.udp dst dp sp data ∉ st'.sent.drop st.sent.length := by
  obtain ⟨fs, hfs, hudp⟩ := h
  rw [hfs, List.drop_left]
  exact fun hf => nomatch hudp _ hf

theorem listener_tcp {src : Tcp.Ipv4Addr} {seg : Tcp.TcpSegment} {now : Nat}
    {r : TcpSocket × Option TxSeg} (h : st.listener src seg now = some (i, r)) :
    st.tcp i ≠ none := by
  unfold listener at h
  obtain ⟨j, -, hj⟩ := List.exists_of_findSome?_eq_some h
  split at hj
  · cases hj
  rename_i sock hsock
  dsimp only at hj
  split at hj
  · cases hj
  split at hj
  · obtain ⟨rfl, -⟩ := Prod.mk.inj (Option.some.inj hj)
    simp [hsock]
  · cases hj

theorem connection_tcp {src : Tcp.Ipv4Addr} {seg : Tcp.TcpSegment} {sock : TcpSocket}
    (h : st.connection src seg = some (i, sock)) : st.tcp i ≠ none := by
  unfold connection at h
  obtain ⟨j, -, hj⟩ := List.exists_of_findSome?_eq_some h
  split at hj
  · cases hj
  rename_i sock' hsock
  split at hj
  · obtain ⟨rfl, -⟩ := Prod.mk.inj (Option.some.inj hj)
    simp [hsock]
  · cases hj

/-- The sockets in use, their owners and their ports are the same, and no
datagram went out. -/
structure SameOwners (st st' : Netd) : Prop where
  used : ∀ i, (st'.udp i).used = (st.udp i).used
  udpOwner : ∀ i, (st'.udp i).owner = (st.udp i).owner
  port : ∀ i, (st'.udp i).port = (st.udp i).port
  tcp : ∀ i, (st'.tcp i).isSome = (st.tcp i).isSome
  tcpOwner : st'.tcpOwner = st.tcpOwner
  sent : st.Mute st'

theorem SameOwners.refl (st : Netd) : st.SameOwners st where
  used := fun _ => rfl
  udpOwner := fun _ => rfl
  port := fun _ => rfl
  tcp := fun _ => rfl
  tcpOwner := rfl
  sent := mute_of_eq rfl

theorem SameOwners.trans (h : st.SameOwners st') (h' : st'.SameOwners st'') :
    st.SameOwners st'' where
  used := fun i => (h'.used i).trans (h.used i)
  udpOwner := fun i => (h'.udpOwner i).trans (h.udpOwner i)
  port := fun i => (h'.port i).trans (h.port i)
  tcp := fun i => (h'.tcp i).trans (h.tcp i)
  tcpOwner := h'.tcpOwner.trans h.tcpOwner
  sent := h.sent.trans h'.sent

theorem SameOwners.owner_eq (h : st.SameOwners st') (x : Sock) : st'.owner x = st.owner x := by
  cases x with
  | udp i => rw [owner, owner, h.used, h.udpOwner]
  | tcp i => rw [owner, owner, h.tcp, h.tcpOwner]

theorem sameOwners_emit (st : Netd) {f : Tx} (hf : f.isUdp = false) : st.SameOwners (st.emit f) :=
  { SameOwners.refl st with sent := ⟨[f], rfl, by simpa using hf⟩ }

theorem sameOwners_foldl {α : Type} {f : Netd → α → Netd}
    (hf : ∀ (st : Netd) a, st.SameOwners (f st a)) (l : List α) (st : Netd) :
    st.SameOwners (l.foldl f st) := by
  induction l generalizing st with
  | nil => exact .refl st
  | cons a l ih => exact (hf st a).trans (ih (f st a))

theorem sameOwners_setTcp (h : st.tcp i ≠ none) (r : TcpSocket × Option TxSeg) :
    st.SameOwners (st.setTcp i r) := by
  have hset : st.SameOwners { st with tcp := update st.tcp i (some r.1) } := by
    refine { SameOwners.refl st with tcp := fun j => ?_ }
    by_cases hj : j = i
    · subst hj
      show (update st.tcp j (some r.1) j).isSome = _
      rw [update_self, Option.isSome_some, Option.isSome_iff_ne_none.mpr h]
    · show (update st.tcp i (some r.1) j).isSome = _
      rw [update_of_ne hj]
  unfold setTcp
  split
  · exact hset
  · exact hset.trans (sameOwners_emit _ rfl)

theorem sameOwners_of_eq (hudp : st'.udp = st.udp) (htcp : st'.tcp = st.tcp)
    (hown : st'.tcpOwner = st.tcpOwner) (hsent : st'.sent = st.sent) : st.SameOwners st' where
  used := fun i => by rw [hudp]
  udpOwner := fun i => by rw [hudp]
  port := fun i => by rw [hudp]
  tcp := fun i => by rw [htcp]
  tcpOwner := hown
  sent := mute_of_eq hsent

theorem sameOwners_setQueue (st : Netd) (i : Fin udpSocks) (queue : List Datagram) :
    st.SameOwners { st with udp := update st.udp i { st.udp i with queue } } := by
  refine { SameOwners.refl st with used := ?_, udpOwner := ?_, port := ?_ } <;> intro j <;>
    by_cases hj : j = i <;> simp [hj]

theorem sameOwners_queueUdp (st : Netd) (dport : UInt16) (d : Datagram) :
    st.SameOwners (st.queueUdp dport d) := by
  unfold queueUdp
  split
  · exact .refl st
  dsimp only
  split
  · exact sameOwners_setQueue st _ _
  · exact sameOwners_of_eq rfl rfl rfl rfl

theorem sameOwners_handleFrame (st : Netd) (now : Nat) (f : Rx) :
    st.SameOwners (st.handleFrame now f) := by
  cases f with
  | arpRequest mac ip target =>
    unfold handleFrame
    dsimp only
    split
    · exact sameOwners_emit st rfl
    · exact .refl st
  | arpReply ip mac =>
    unfold handleFrame
    dsimp only
    split
    · exact sameOwners_of_eq rfl rfl rfl rfl
    · exact .refl st
  | neighborSolicit => exact sameOwners_emit st rfl
  | udp src sport dport data => exact sameOwners_queueUdp st dport _
  | tcp src seg =>
    unfold handleFrame handleTcp
    dsimp only
    split
    · exact sameOwners_setTcp (listener_tcp ‹_›) _
    split
    · exact sameOwners_setTcp (connection_tcp ‹_›) _
    · exact .refl st
  | icmpReply src ident seq ttl =>
    unfold handleFrame
    dsimp only
    split
    · exact .refl st
    split
    · exact sameOwners_of_eq rfl rfl rfl rfl
    · exact .refl st
  | other => exact .refl st

theorem sameOwners_pump (st : Netd) (now : Nat) (frames : List (Nat × Rx)) :
    st.SameOwners (st.pump now frames) := by
  refine SameOwners.trans (sameOwners_foldl (fun st i => ?_) _ st)
    (sameOwners_foldl (fun st f => ?_) _ _)
  · unfold pollTcp
    split
    · exact .refl st
    · rename_i sock hsock
      exact sameOwners_setTcp (by simp [hsock]) _
  · unfold takeFrame
    refine SameOwners.trans ?_ (sameOwners_handleFrame _ f.1 f.2)
    exact sameOwners_of_eq rfl rfl rfl rfl

/-! ## Changes to one socket -/

/-- Nothing is made, no socket but `y` changes, and no datagram goes out. -/
structure Only (y : Option Sock) (st st' : Netd) : Prop where
  others : ∀ x, y ≠ some x → st.SameSock st' x
  old : ∀ x s, st'.owner x = some s → st.owner x = some s
  sent : st.Mute st'

theorem Only.refl (y : Option Sock) (st : Netd) : Only y st st where
  others := fun x _ => .refl st x
  old := fun _ _ h => h
  sent := mute_of_eq rfl

theorem Only.trans (h : Only y st st') (h' : Only y st' st'') : Only y st st'' where
  others := fun x hx => (h.others x hx).trans (h'.others x hx)
  old := fun x s hs => h.old x s (h'.old x s hs)
  sent := h.sent.trans h'.sent

theorem SameOwners.only (h : st.SameOwners st') (hothers : ∀ x, y ≠ some x → st.SameSock st' x) :
    Only y st st' where
  others := hothers
  old := fun x _ hs => (h.owner_eq x).symm.trans hs
  sent := h.sent

theorem only_of_eq (y : Option Sock) (hudp : st'.udp = st.udp) (htcp : st'.tcp = st.tcp)
    (hown : st'.tcpOwner = st.tcpOwner) (hsent : st'.sent = st.sent) : Only y st st' :=
  (sameOwners_of_eq hudp htcp hown hsent).only fun x _ => sameSock_of_eq hudp htcp hown x

theorem only_emitted (y : Option Sock) {f : Tx} (hudp : st'.udp = st.udp) (htcp : st'.tcp = st.tcp)
    (hown : st'.tcpOwner = st.tcpOwner) (hsent : st'.sent = st.sent ++ [f])
    (hf : f.isUdp = false) : Only y st st' where
  others := fun x _ => sameSock_of_eq hudp htcp hown x
  old := fun x _ hs => (sameSock_of_eq hudp htcp hown x).owner_eq.symm.trans hs
  sent := ⟨[f], hsent, by simpa using hf⟩

theorem sameSock_update_tcp {o : Option TcpSocket} (hx : x ≠ .tcp i) :
    st.SameSock { st with tcp := update st.tcp i o } x := by
  cases x with
  | udp j => rfl
  | tcp j =>
    have hj : j ≠ i := fun h => hx (congrArg Sock.tcp h)
    exact ⟨update_of_ne hj .., rfl⟩

theorem sameSock_update_udp {i : Fin udpSocks} {u : UdpSock} (hx : x ≠ .udp i) :
    st.SameSock { st with udp := update st.udp i u } x := by
  cases x with
  | udp j =>
    have hj : j ≠ i := fun h => hx (congrArg Sock.udp h)
    exact update_of_ne hj ..
  | tcp j => exact ⟨rfl, rfl⟩

theorem sameSock_setTcp (hx : x ≠ .tcp i) (r : TcpSocket × Option TxSeg) :
    st.SameSock (st.setTcp i r) x := by
  unfold setTcp
  split
  · exact sameSock_update_tcp hx
  · exact (sameSock_update_tcp hx).trans (sameSock_of_eq rfl rfl rfl x)

theorem only_setTcp (h : st.tcp i ≠ none) (r : TcpSocket × Option TxSeg) :
    Only (some (.tcp i)) st (st.setTcp i r) :=
  (sameOwners_setTcp h r).only fun _ hx => sameSock_setTcp (fun h => hx (congrArg some h.symm)) r

theorem only_dropTcp (st : Netd) (i : Fin tcpConns) : Only (some (.tcp i)) st (st.dropTcp i) where
  others := fun _ hx => sameSock_update_tcp fun h => hx (congrArg some h.symm)
  old := by
    intro x s hs
    by_cases hx : x = .tcp i
    · subst hx
      rw [owner_tcp] at hs
      obtain ⟨hne, -⟩ := hs
      exact absurd (update_self ..) hne
    · rw [← hs]
      exact (sameSock_update_tcp hx).owner_eq.symm
  sent := mute_of_eq rfl

theorem only_setQueue (st : Netd) (i : Fin udpSocks) (queue : List Datagram) :
    Only (some (.udp i)) st { st with udp := update st.udp i { st.udp i with queue } } := by
  exact (sameOwners_setQueue st i queue).only fun _ hx =>
    sameSock_update_udp fun h => hx (congrArg some h.symm)

/-- What `trySend` ends in: the data of a session goes out on its own connection. -/
theorem trySend_cases (st : Netd) (i : Fin tcpConns) (data : List UInt8) (now start : Nat) :
    (∃ e, st.trySend i data now start = (st, .reply (.error e))) ∨
    st.trySend i data now start = (st, .wait (.send i data start)) ∨
    ∃ r n, st.tcp i ≠ none ∧ st.trySend i data now start = (st.setTcp i r, .reply (.tcpSend n)) := by
  unfold trySend
  split
  · exact .inl ⟨_, rfl⟩
  rename_i sock hsock
  split
  · exact .inr (.inr ⟨_, _, by simp [hsock], rfl⟩)
  · exact .inr (.inl rfl)
  · exact .inl ⟨_, rfl⟩

/-! ## Turns of a waiting request -/

/-- A turn of the request that waits as `w`, seen from the state after its
pump. -/
structure Turned (w : Wait) (st : Netd) (r : Netd × Outcome) : Prop where
  only : Only w.sock st r.1
  waits : ∀ w', r.2 = .wait w' → w'.sock = w.sock ∧ ∀ x, r.1.owner x = st.owner x
  reply : ∀ p, r.2 = .reply p → p.ofSocket = true →
    ∃ i, w.sock = some (.tcp i) ∧ p.Reports st r.1 (.tcp i)

theorem turned_error (h : Only w.sock st st') (e : Nat) : Turned w st (st', .reply (.error e)) where
  only := h
  waits := nofun
  reply := fun p hp ho => by
    cases hp
    cases ho

theorem turned_wait {w' : Wait} (h : Only w.sock st st') (ho : st.SameOwners st')
    (hw : w'.sock = w.sock) : Turned w st (st', .wait w') where
  only := h
  waits := fun w'' hw'' => by
    cases hw''
    exact ⟨hw, ho.owner_eq⟩
  reply := nofun

theorem turned_reply (h : Only w.sock st st')
    (hp : p.ofSocket = true → ∃ i, w.sock = some (.tcp i) ∧ p.Reports st st' (.tcp i)) :
    Turned w st (st', .reply p) where
  only := h
  waits := nofun
  reply := fun p' hp' ho => by
    cases hp'
    exact hp ho

/-- `connect` and `listen` end in the same ways. -/
theorem turned_opening {w' : Wait} {p : TcpSocket → Reply} {late : Prop} [Decidable late]
    (hw : w.sock = some (.tcp i)) (hw' : w'.sock = some (.tcp i))
    (hp : ∀ sock, (p sock).Reports st st (.tcp i)) : Turned w st (match st.tcp i with
      | none => (st.dropTcp i, .reply (.error eReset))
      | some sock => match sock.state with
        | .established => (st, .reply (p sock))
        | .closed => (st.dropTcp i, .reply (.error eReset))
        | _ => if late then (st.dropTcp i, .reply (.error eTimeout)) else (st, .wait w')) := by
  have hdrop : Only w.sock st (st.dropTcp i) := by
    rw [hw]
    exact only_dropTcp st i
  split
  · exact turned_error hdrop _
  rename_i sock hsock
  split
  · exact turned_reply (.refl _ st) fun _ => ⟨i, hw, hp sock⟩
  · exact turned_error hdrop _
  split
  · exact turned_error hdrop _
  · exact turned_wait (.refl _ st) (.refl st) (hw'.trans hw.symm)

theorem turned_turn (st : Netd) (t : Turn) (w : Wait) :
    Turned w (st.pump t.now t.frames) (st.turn t w) := by
  cases w with
  | resolve name id ui start =>
    unfold turn
    generalize st.pump t.now t.frames = st
    have hqueue := only_setQueue st ui (drainDns st.lease.dns id (st.udp ui).queue).1
    dsimp only
    split
    · refine turned_reply (Only.trans hqueue ?_) nofun
      unfold cacheName
      split
      · exact only_of_eq _ rfl rfl rfl rfl
      · exact .refl _ _
    · refine turned_error ?_ _
      exact hqueue
    · split
      · refine turned_error ?_ _
        exact hqueue
      · refine turned_wait ?_ (sameOwners_setQueue st ui _) rfl
        exact hqueue
  | connect i start => exact turned_opening (p := fun _ => .tcpConnect i) rfl rfl fun _ => rfl
  | listen i start =>
    exact turned_opening (p := fun sock => .tcpListen i sock.remoteIp sock.remotePort) rfl rfl
      fun _ => rfl
  | send i data start =>
    unfold turn
    generalize st.pump t.now t.frames = st
    dsimp only
    split
    · exact turned_error (.refl _ _) _
    rcases trySend_cases st i data t.again start with ⟨e, he⟩ | he | ⟨r, n, hne, he⟩ <;> rw [he]
    · exact turned_error (.refl _ _) e
    · exact turned_wait (.refl _ _) (.refl _) rfl
    · exact turned_reply (only_setTcp hne r) fun _ => ⟨i, rfl, hne⟩
  | close i wasReset start =>
    unfold turn
    generalize st.pump t.now t.frames = st
    dsimp only
    have hdone : ∀ st', Only (some (.tcp i)) st st' → Turned (.close i wasReset start) st
          (st'.dropTcp i, .reply (if wasReset then .error eReset else .tcpClose)) := by
      intro st' honly
      refine turned_reply (honly.trans (only_dropTcp st' i)) fun ho => ⟨i, rfl, ?_⟩
      cases wasReset with
      | true => cases ho
      | false => exact update_self ..
    split
    · exact hdone st (.refl _ st)
    rename_i sock hsock
    have hne : st.tcp i ≠ none := by simp [hsock]
    have hset := only_setTcp hne (sock.close t.again)
    split
    · exact hdone _ hset
    split
    · exact hdone _ hset
    · exact turned_wait hset (sameOwners_setTcp hne _) rfl
  | ping t0 prazo =>
    unfold turn
    generalize st.pump t.now t.frames = st
    dsimp only
    split
    · exact turned_reply (only_of_eq _ rfl rfl rfl rfl) nofun
    split
    · refine turned_error ?_ _
      exact only_of_eq _ rfl rfl rfl rfl
    · exact turned_wait (.refl _ _) (.refl _) rfl

/-! ## A session that closes -/

/-- The sockets of other slots are left alone, and nothing is made. -/
structure Spares (slot : Fin maxClients) (st st' : Netd) : Prop where
  others : ∀ x o, st.owner x = some o → o ≠ slot → st.SameSock st' x
  old : ∀ x s, st'.owner x = some s → st.owner x = some s
  sent : st.Mute st'

theorem Spares.refl (slot : Fin maxClients) (st : Netd) : Spares slot st st where
  others := fun x _ _ _ => .refl st x
  old := fun _ _ h => h
  sent := mute_of_eq rfl

theorem Spares.trans (h : Spares slot st st') (h' : Spares slot st' st'') :
    Spares slot st st'' where
  others := by
    intro x o ho hne
    have hsame := h.others x o ho hne
    refine hsame.trans (h'.others x o ?_ hne)
    rw [hsame.owner_eq]
    exact ho
  old := fun x s hs => h.old x s (h'.old x s hs)
  sent := h.sent.trans h'.sent

theorem Only.spares {x : Sock} (h : Only (some x) st st')
    (hx : ∀ o, st.owner x = some o → o = slot) : Spares slot st st' where
  __ := h
  others := by
    intro y o ho hne
    refine h.others y fun hxy => hne (hx o ?_)
    rwa [Option.some.inj hxy]

theorem spares_releaseTcp (slot : Fin maxClients) (now : Nat) (st : Netd) (i : Fin tcpConns) :
    Spares slot st (releaseTcp slot now st i) := by
  unfold releaseTcp
  split
  · exact .refl slot st
  rename_i howner
  split
  · exact .refl slot st
  rename_i sock hsock
  have hne : st.tcp i ≠ none := by simp [hsock]
  have honly := (only_setTcp hne (sock.close now)).trans (only_dropTcp _ i)
  refine honly.spares fun o ho => ?_
  rw [← (owner_tcp.mp ho).2]
  exact not_not.mp howner

theorem spares_foldl (slot : Fin maxClients) (now : Nat) (l : List (Fin tcpConns)) (st : Netd) :
    Spares slot st (l.foldl (releaseTcp slot now) st) := by
  induction l generalizing st with
  | nil => exact .refl slot st
  | cons i l ih => exact (spares_releaseTcp slot now st i).trans (ih _)

/-- A socket still in use is the same, and not the slot's. -/
theorem releaseUdp_used {u : UdpSock} (h : (releaseUdp slot u).used = true) :
    releaseUdp slot u = u ∧ u.owner ≠ some slot := by
  unfold releaseUdp at h ⊢
  split
  · rename_i hu
    rw [if_pos hu] at h
    cases h
  rename_i hu
  rw [if_neg hu] at h
  exact ⟨rfl, fun ho => hu ⟨h, ho⟩⟩

variable (slot)

theorem spares_releaseUdp (st : Netd) :
    Spares slot st { st with udp := fun i => releaseUdp slot (st.udp i) } where
  others := by
    intro x o ho hne
    cases x with
    | udp i =>
      obtain ⟨-, howner⟩ := owner_udp.mp ho
      refine if_neg fun h => hne ?_
      exact Option.some.inj (howner.symm.trans h.2)
    | tcp i => exact ⟨rfl, rfl⟩
  old := by
    intro x s hs
    cases x with
    | udp i =>
      rw [owner_udp] at hs ⊢
      obtain ⟨hused, howner⟩ := hs
      obtain ⟨heq, -⟩ := releaseUdp_used hused
      change (releaseUdp slot (st.udp i)).owner = some s at howner
      change (releaseUdp slot (st.udp i)).used = true at hused
      rw [heq] at howner hused
      exact ⟨hused, howner⟩
    | tcp i => exact hs
  sent := mute_of_eq rfl

theorem spares_libertaSessao (st : Netd) (slot : Fin maxClients) (now : Nat) :
    Spares slot st (st.libertaSessao slot now) :=
  (spares_releaseUdp slot st).trans (spares_foldl slot now _ _)

theorem releaseTcp_owner (now : Nat) (st : Netd) (i : Fin tcpConns) :
    (releaseTcp slot now st i).owner (.tcp i) ≠ some slot := by
  intro ho
  obtain ⟨hsome, howner⟩ := owner_tcp.mp ho
  unfold releaseTcp at hsome howner
  split at hsome
  · rename_i hne
    rw [if_pos hne] at howner
    exact hne howner
  split at hsome
  · exact hsome ‹_›
  · exact hsome (update_self ..)

theorem foldl_releaseTcp_owner (now : Nat) {l : List (Fin tcpConns)}
    (st : Netd) (hi : i ∈ l) : (l.foldl (releaseTcp slot now) st).owner (.tcp i) ≠ some slot := by
  induction l generalizing st with
  | nil => cases hi
  | cons j l ih =>
    rcases List.mem_cons.1 hi with rfl | hi
    · -- the rest of the scan makes nothing
      exact fun ho => releaseTcp_owner slot now st i ((spares_foldl slot now l _).old _ _ ho)
    · exact ih _ hi

variable {slot}

theorem libertaSessao_owner (st : Netd) (slot : Fin maxClients) (now : Nat) (x : Sock) :
    (st.libertaSessao slot now).owner x ≠ some slot := by
  intro ho
  cases x with
  | udp i =>
    have ho' := (spares_foldl slot now (List.finRange tcpConns) _).old _ _ ho
    obtain ⟨hused, howner⟩ := owner_udp.mp ho'
    obtain ⟨heq, hne⟩ := releaseUdp_used hused
    change (releaseUdp slot (st.udp i)).owner = some slot at howner
    rw [heq] at howner
    exact hne howner
  | tcp i => exact foldl_releaseTcp_owner slot now _ (List.mem_finRange i) ho

/-! ## Requests -/

structure Served (slot : Fin maxClients) (st : Netd) (r : Netd × Outcome) : Prop where
  others : ∀ x o, st.owner x = some o → o ≠ slot → st.makes r x = false → st.SameSock r.1 x
  made : ∀ x, st.makes r x = true → ∀ s, r.1.owner x = some s → s = slot
  fresh : ∀ x, st.makes r x = true → r.1.Empty x ∧ ∀ p, r.2 = .reply p → p.carries = false
  replaced : ∀ i, st.makes r (.tcp i) = true → ∀ sock, st.tcp i = some sock → sock.state = .closed
  old : ∀ x, st.makes r x = false → ∀ s, r.1.owner x = some s → st.owner x = some s
  waits : ∀ w, r.2 = .wait w → ∀ x, w.sock = some x →
    r.1.owner x = some slot ∨ ∃ i, x = .udp i ∧ r.1.owner x = none
  reply : ∀ p, r.2 = .reply p → p.ofSocket = true →
    ∃ x, p.Reports st r.1 x ∧ r.1.owner x = some slot
  sent : ∃ fs, r.1.sent = st.sent ++ fs ∧ ∀ dst dp sp data, Tx.udp dst dp sp data ∈ fs →
    ∃ i, (r.1.udp i).port = sp ∧ r.1.owner (.udp i) = some slot

theorem served_only {o : Outcome} (h : Only y st st')
    (hy : ∀ x, y = some x → ∀ o, st.owner x = some o → o = slot) (hmade : o.made = none)
    (hwaits : ∀ w, o = .wait w → ∀ x, w.sock = some x →
      st'.owner x = some slot ∨ ∃ i, x = .udp i ∧ st'.owner x = none)
    (hreply : ∀ p, o = .reply p → p.ofSocket = true →
      ∃ x, p.Reports st st' x ∧ st'.owner x = some slot) : Served slot st (st', o) := by
  have hnone : ∀ x, st.makes (st', o) x = false := by
    intro x
    cases x with
    | udp i =>
      rw [makes]
      cases ho : st'.owner (.udp i) with
      | none => exact Bool.and_false _
      | some s => rw [h.old _ s ho, Option.isNone_some, Bool.false_and]
    | tcp i => simp [makes, hmade]
  constructor
  case others =>
    intro x o' ho hne _
    exact h.others x fun hyx => hne (hy x hyx o' ho)
  case made | fresh =>
    intro x hx
    rw [hnone x] at hx
    cases hx
  case replaced =>
    intro i hi
    rw [hnone] at hi
    cases hi
  case old => exact fun x _ => h.old x
  case waits => exact hwaits
  case reply => exact hreply
  case sent =>
    obtain ⟨fs, hfs, hudp⟩ := h.sent
    exact ⟨fs, hfs, fun _ _ _ _ hf => nomatch hudp _ hf⟩

theorem served_plain (h : Only none st st') (hp : p.ofSocket = false) :
    Served slot st (st', .reply p) :=
  served_only h nofun rfl nofun fun p' hp' ho => by
    cases hp'
    rw [hp] at ho
    cases ho

theorem served_same (st : Netd) (slot : Fin maxClients) (hp : p.ofSocket = false) :
    Served slot st (st, .reply p) := served_plain (.refl _ st) hp

theorem udpBind_ok {o : Owner} {i : Fin udpSocks} (h : st.udpBind port o = .ok (i, st')) :
    (st' = st ∧ (st.udp i).used = true ∧ (st.udp i).owner = o ∧ (st.udp i).port = port) ∨
      ((st.udp i).used = false ∧ st' = { st with udp := update st.udp i ⟨true, o, port, []⟩ }) := by
  unfold udpBind at h
  split at h
  · rename_i j hj
    split at h
    · cases h
      have hfound := List.find?_some hj
      rw [Bool.and_eq_true, decide_eq_true_iff] at hfound
      exact .inl ⟨rfl, hfound.1, ‹_›, hfound.2⟩
    · cases h
  · split at h
    · cases h
    rename_i j hj
    cases h
    have hfound := List.find?_some hj
    rw [Bool.not_eq_true'] at hfound
    exact .inr ⟨hfound, rfl⟩

/-- The request bound the UDP socket `i`, which was free or the client's. -/
theorem served_udp (fs : List Tx) {i : Fin udpSocks} (hsame : ∀ x, x ≠ .udp i → st.SameSock st' x)
    (hbefore : ∀ o, st.owner (.udp i) = some o → o = slot)
    (hafter : st'.owner (.udp i) = some slot)
    (hfresh : st.owner (.udp i) = none → (st'.udp i).queue = [] ∧ p.carries = false)
    (hp : p.ofSocket = true → p.Reports st st' (.udp i))
    (hsent : st'.sent = st.sent ++ fs)
    (hfs : ∀ dst dp sp data, Tx.udp dst dp sp data ∈ fs → (st'.udp i).port = sp) :
    Served slot st (st', .reply p) := by
  constructor
  case others =>
    intro x o ho hne _
    refine hsame x ?_
    rintro rfl
    exact hne (hbefore o ho)
  case made =>
    intro x hx s hs
    by_cases hxi : x = .udp i
    · subst hxi
      exact Option.some.inj (hs.symm.trans hafter)
    cases x with
    | udp j => cases (hsame _ hxi).makes_udp.symm.trans hx
    | tcp j => cases hx
  case fresh =>
    intro x hx
    cases x with
    | udp j =>
      by_cases hj : j = i
      · subst hj
        rw [makes, Bool.and_eq_true, Option.isNone_iff_eq_none] at hx
        obtain ⟨hempty, hp⟩ := hfresh hx.1
        exact ⟨hempty, fun p' hp' => Outcome.reply.inj hp' ▸ hp⟩
      · cases (hsame _ fun h => hj (Sock.udp.inj h)).makes_udp.symm.trans hx
    | tcp j => cases hx
  case replaced => exact fun i hi => nomatch hi
  case old =>
    intro x hx s hs
    by_cases hxi : x = .udp i
    · subst hxi
      cases ho : st.owner (.udp i) with
      | none => simp [makes, ho, hafter] at hx
      | some o =>
        rw [hbefore o ho, ← hafter, hs]
    · rwa [(hsame x hxi).owner_eq] at hs
  case waits => exact nofun
  case reply =>
    intro p' hp' ho
    cases hp'
    exact ⟨.udp i, hp ho, hafter⟩
  case sent => exact ⟨fs, hsent, fun dst dp sp data hf => ⟨i, hfs dst dp sp data hf, hafter⟩⟩

theorem served_putTcp (hsame : st.SameOwners st') (hcontents : ∀ x, st.SameSock st' x)
    (hfree : st.freeConn = some i) (sock : TcpSocket) (hrx : sock.rx = [])
    (hmade : Outcome.made (.wait w) = some i) (hw : w.sock = some (.tcp i)) : Served slot st (st'.putTcp i slot sock, .wait w) := by
  have hafter : (st'.putTcp i slot sock).owner (.tcp i) = some slot := by
    simp [owner, putTcp]
  have hother : ∀ x, x ≠ .tcp i → st.SameSock (st'.putTcp i slot sock) x := by
    intro x hx
    refine (hcontents x).trans ?_
    cases x with
    | udp j => rfl
    | tcp j =>
      have hj : j ≠ i := fun h => hx (congrArg Sock.tcp h)
      exact ⟨update_of_ne hj .., update_of_ne hj ..⟩
  have hne : ∀ x, st.makes (st'.putTcp i slot sock, .wait w) x = false → x ≠ .tcp i := by
    rintro x hx rfl
    rw [makes, hmade, decide_eq_true rfl] at hx
    cases hx
  constructor
  case others => exact fun x _ _ _ hx => hother x (hne x hx)
  case made =>
    intro x hx s hs
    by_cases hxi : x = .tcp i
    · subst hxi
      exact Option.some.inj (hs.symm.trans hafter)
    cases x with
    | udp j => cases (hother _ hxi).makes_udp.symm.trans hx
    | tcp j =>
      rw [makes, hmade, decide_eq_true_iff] at hx
      exact absurd (congrArg Sock.tcp (Option.some.inj hx).symm) hxi
  case fresh =>
    intro x hx
    refine ⟨?_, nofun⟩
    cases x with
    | udp j => cases (hother (.udp j) (by simp)).makes_udp.symm.trans hx
    | tcp j =>
      rw [makes, hmade, decide_eq_true_iff] at hx
      cases hx
      intro sock' hsock'
      obtain rfl : sock = sock' := by simpa [putTcp] using hsock'
      exact hrx
  case replaced =>
    intro j hj sock' hsock'
    rw [makes, hmade, decide_eq_true_iff] at hj
    cases hj
    have hfound := List.find?_some hfree
    rw [hsock'] at hfound
    exact decide_eq_true_iff.mp hfound
  case old =>
    intro x hx s hs
    rwa [(hother x (hne x hx)).owner_eq] at hs
  case waits =>
    intro w' hw' x hx
    cases hw'
    obtain rfl := Option.some.inj (hw.symm.trans hx)
    exact .inl hafter
  case reply => exact nofun
  case sent =>
    obtain ⟨fs, hfs, hudp⟩ := hsame.sent
    exact ⟨fs, hfs, fun _ _ _ _ hf => nomatch hudp _ hf⟩

/-- The socket that `udp_bind` returns to a client is its own afterwards, and
was its own or free. -/
structure Bound (slot : Fin maxClients) (port : UInt16) (i : Fin udpSocks) (st st' : Netd) :
    Prop where
  same : ∀ x, x ≠ .udp i → st.SameSock st' x
  before : ∀ o, st.owner (.udp i) = some o → o = slot
  after : st'.owner (.udp i) = some slot
  port_eq : (st'.udp i).port = port
  queue : ∀ d, (st'.udp i).queue.head? = some d → (st.udp i).queue.head? = some d
  fresh : st.owner (.udp i) = none → (st'.udp i).queue = []
  sent : st'.sent = st.sent

theorem udpBind_bound {i : Fin udpSocks} (h : st.udpBind port (some slot) = .ok (i, st')) :
    Bound slot port i st st' := by
  rcases udpBind_ok h with ⟨rfl, hused, howner, hport⟩ | ⟨hfree, rfl⟩
  · have hown : st'.owner (.udp i) = some slot := owner_udp.mpr ⟨hused, howner⟩
    constructor
    case same => exact fun x _ => .refl st' x
    case before => exact fun o ho => Option.some.inj (ho.symm.trans hown)
    case after => exact hown
    case port_eq => exact hport
    case queue => exact fun _ hd => hd
    case fresh =>
      intro hnone
      cases hnone.symm.trans hown
    case sent => rfl
  · constructor
    case same => exact fun _ hx => sameSock_update_udp hx
    case before =>
      intro o ho
      rw [owner_udp, hfree] at ho
      cases ho.1
    case after => simp [owner]
    case port_eq => simp
    case queue | fresh => simp
    case sent => rfl

/-- The resolver's socket is nobody's, before and after. -/
theorem only_udpBind_resolver {i : Fin udpSocks} (h : st.udpBind port none = .ok (i, st')) :
    Only (some (.udp i)) st st' ∧ st.owner (.udp i) = none ∧ st'.owner (.udp i) = none := by
  rcases udpBind_ok h with ⟨rfl, -, howner, -⟩ | ⟨hfree, rfl⟩
  · have hown : st'.owner (.udp i) = none := by
      rw [owner, howner, ite_self]
    exact ⟨.refl _ st', hown, hown⟩
  have hown : st.owner (.udp i) = none := by
    rw [owner, hfree]
    rfl
  refine ⟨⟨fun x hx => ?_, fun x s hs => ?_, mute_of_eq rfl⟩, hown, ?_⟩
  · exact sameSock_update_udp fun h => hx (congrArg some h.symm)
  · by_cases hx : x = .udp i
    · subst hx
      simp [owner] at hs
    · exact (sameSock_update_udp hx).owner_eq.symm.trans hs
  · simp [owner]

theorem tcpOwn_owner {conn : Nat} {sock : TcpSocket} (h : st.tcpOwn conn slot = .ok (i, sock)) :
    st.tcp i = some sock ∧ st.owner (.tcp i) = some slot := by
  unfold tcpOwn at h
  split at h
  · split at h
    · cases h
    rename_i hsock
    split at h
    · cases h
    rename_i ho
    cases h
    exact ⟨hsock, owner_tcp.mpr ⟨by simp [hsock], not_not.1 ho⟩⟩
  · cases h

section Own

variable (howner : st.owner (.tcp i) = some slot)

include howner

theorem own_tcp (x : Sock) (hx : some (.tcp i) = some x) (o : Fin maxClients)
    (ho : st.owner x = some o) : o = slot := by
  cases hx
  exact Option.some.inj (ho.symm.trans howner)

theorem served_tcp (h : Only (some (.tcp i)) st st') (hkept : st'.owner (.tcp i) = some slot)
    (hp : p.Reports st st' (.tcp i)) : Served slot st (st', .reply p) :=
  served_only h (own_tcp howner) rfl nofun fun _ hp' _ =>
    ⟨.tcp i, Outcome.reply.inj hp' ▸ hp, hkept⟩

theorem served_tcpSet (r : TcpSocket × Option TxSeg)
    (hp : p.Reports st (st.setTcp i r) (.tcp i)) : Served slot st (st.setTcp i r, .reply p) := by
  have hne := (owner_tcp.mp howner).1
  refine served_tcp howner (only_setTcp hne r) ?_ hp
  rw [(sameOwners_setTcp hne r).owner_eq]
  exact howner

theorem served_tcpWait (hw : w.sock = some (.tcp i)) (hmade : Outcome.made (.wait w) = none) :
    Served slot st (st, .wait w) := by
  refine served_only (.refl (some (.tcp i)) st) (own_tcp howner) hmade (fun w' hw' x hx => ?_) nofun
  cases hw'
  obtain rfl := Option.some.inj (hw.symm.trans hx)
  exact .inl howner

end Own

theorem served_resolve (st : Netd) (slot : Fin maxClients) (name : List UInt8) (now : Nat) :
    Served slot st (st.resolve name now) := by
  unfold resolve
  split
  · exact served_same st slot rfl
  split
  · exact served_same st slot rfl
  rename_i i st' hbind
  obtain ⟨honly, hbefore, hafter⟩ := only_udpBind_resolver hbind
  have hy : ∀ x, some (.udp i) = some x → ∀ o, st.owner x = some o → o = slot := by
    rintro x hx o ho
    cases hx
    rw [hbefore] at ho
    cases ho
  split
  · refine served_only honly hy rfl nofun fun p hp ho => ?_
    cases hp
    cases ho
  refine served_only (honly.trans (only_emitted _ rfl rfl rfl rfl rfl)) hy rfl
    (fun w hw x hx => ?_) nofun
  cases hw
  cases hx
  exact .inr ⟨i, rfl, hafter⟩

theorem served_serve (st : Netd) (slot : Fin maxClients) (profile : Profile) (now : Nat)
    (q : Request) : Served slot st (st.serve slot profile now q) := by
  have herror : ∀ e, Served slot st (st, .reply (.error e)) := fun e => served_same st slot rfl
  unfold serve
  cases q with
  | openSession rq => exact herror _
  | info | stats => exact served_same st slot rfl
  | resolve name =>
    dsimp only
    split
    · exact herror _
    · exact served_resolve st slot name now
  | udpSend dstIp dstPort srcPort data =>
    dsimp only
    split
    · exact herror _
    rename_i dst _
    split
    · exact herror _
    split
    · exact herror _
    split
    · exact herror _
    rename_i i st' hbind
    have hb := udpBind_bound hbind
    refine served_udp [.udp dst dstPort srcPort data] (i := i) ?_ hb.before ?_ ?_ ?_ ?_ ?_
    · exact fun x hx => (hb.same x hx).trans (sameSock_of_eq rfl rfl rfl x)
    · exact hb.after
    · exact fun hnone => ⟨hb.fresh hnone, rfl⟩
    · exact fun _ => (owner_udp.mp hb.after).1
    · rw [← hb.sent]
      rfl
    · intro dst dp sp data hf
      obtain ⟨-, -, rfl, -⟩ := Tx.udp.inj (List.mem_singleton.mp hf)
      exact hb.port_eq
  | udpRecv port =>
    dsimp only
    split
    · exact herror _
    rename_i i st' hbind
    have hb := udpBind_bound hbind
    split
    · refine served_udp [] hb.same hb.before hb.after (fun hnone => ⟨hb.fresh hnone, rfl⟩) nofun
        ?_ nofun
      rw [hb.sent, List.append_nil]
    rename_i d queue hqueue
    have hset := only_setQueue st' i queue
    refine served_udp [] (i := i) ?_ hb.before ?_ (fun hnone => ?_) ?_ ?_ nofun
    · exact fun x hx => (hb.same x hx).trans
        (hset.others x fun h => hx (Option.some.inj h).symm)
    · rw [(sameOwners_setQueue st' i queue).owner_eq]
      exact hb.after
    · -- there is a datagram, so the socket is not new
      cases (hb.fresh hnone).symm.trans hqueue
    · intro _
      refine hb.queue d ?_
      rw [hqueue]
      rfl
    · exact hb.sent.trans (List.append_nil _).symm
  | tcpConnect dstIp dstPort =>
    dsimp only
    split
    · exact herror _
    split
    · exact herror _
    split
    · exact herror _
    rename_i i hfree
    refine served_putTcp (sameOwners_emit st rfl) ?_ hfree _ rfl rfl rfl
    exact sameSock_of_eq rfl rfl rfl
  | tcpSend conn data =>
    dsimp only
    split
    · exact herror _
    rename_i i sock hown
    obtain ⟨-, howner⟩ := tcpOwn_owner hown
    rcases trySend_cases st i data now now with ⟨e, he⟩ | he | ⟨r, n, hne, he⟩ <;> rw [he]
    · exact herror e
    · exact served_tcpWait howner rfl rfl
    · exact served_tcpSet howner r hne
  | tcpRecv conn =>
    dsimp only
    split
    · exact herror _
    rename_i i sock hown
    obtain ⟨hsock, howner⟩ := tcpOwn_owner hown
    exact served_tcpSet howner _ ⟨sock, hsock, rfl⟩
  | tcpClose conn =>
    dsimp only
    split
    · exact herror _
    rename_i i sock hown
    obtain ⟨-, howner⟩ := tcpOwn_owner hown
    exact served_tcpWait howner rfl rfl
  | tcpListen port =>
    dsimp only
    split
    · exact herror _
    split
    · exact herror _
    · rename_i i hfree
      exact served_putTcp (.refl st) (.refl st) hfree _ rfl rfl rfl
  | tcpAvail conn =>
    dsimp only
    split
    · exact herror _
    rename_i i sock hown
    obtain ⟨hsock, howner⟩ := tcpOwn_owner hown
    exact served_tcp howner (.refl _ st) howner ⟨sock, hsock, rfl⟩
  | udpAvail port =>
    dsimp only
    split
    · exact herror _
    rename_i i st' hbind
    have hb := udpBind_bound hbind
    refine served_udp [] hb.same hb.before hb.after (fun hnone => ⟨hb.fresh hnone, rfl⟩)
      (fun _ => rfl) ?_ nofun
    rw [hb.sent, List.append_nil]
  | ping dstIp seq timeoutMs =>
    dsimp only
    split
    · exact herror _
    split
    · exact herror _
    split
    · exact herror _
    split
    · exact herror _
    refine served_only (only_emitted none rfl rfl rfl rfl rfl) nofun rfl ?_ nofun
    intro w hw x hx
    cases hw
    cases hx

end Netd
end NexoOS.Net.Daemon
