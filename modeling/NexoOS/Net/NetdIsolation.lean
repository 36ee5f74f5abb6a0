import NexoOS.Net.NetdOwnership
import NexoOS.Net.NetdPermissions

/-!
# A session without permissions

A session whose profile is `denyAll` causes no frame and owns no connection.
What the service received from the network reaches it through two requests that
do not look at the profile: `udp_recv`, which binds any free port, and `info`.
-/

namespace NexoOS.Net.Daemon

open List Option State

open Firewall (Profile Deny)
open Tcp (TcpSocket TxSeg)

/-- The bytes of a reply that came from the network: payloads, addresses of
peers, answers, and the lease. -/
def Reply.network : Reply → List UInt8
  | .info lease _ =>
    lease.ip.toList ++ lease.mask.toList ++ lease.router.toList ++ lease.dns.toList
  | .resolve addr _ => addr.toList
  | .udpRecv (some d) =>
    d.ip.toList ++ [UInt8.ofNat (d.port.toNat / 256), UInt8.ofNat d.port.toNat] ++ d.data
  | .tcpRecv data _ => data
  | .tcpListen _ ip port =>
    ip.toList ++ [UInt8.ofNat (port.toNat / 256), UInt8.ofNat port.toNat]
  | .ping _ ttl => [ttl]
  | _ => []

namespace Netd

variable {st : Netd} {slot : Fin maxClients}

def Owns (st : Netd) (slot : Fin maxClients) : Prop := ∃ i, st.owner (.tcp i) = some slot

/-- Without connections nothing goes out when the session closes. -/
theorem sent_libertaSessao (now : Nat) (h : ¬ st.Owns slot) :
    (st.libertaSessao slot now).sent = st.sent := by
  have hid : ∀ i, releaseTcp slot now { st with udp := fun i => releaseUdp slot (st.udp i) } i =
      { st with udp := fun i => releaseUdp slot (st.udp i) } := by
    intro i
    unfold releaseTcp
    dsimp only
    split
    · rfl
    rename_i ho
    split
    · rfl
    · rename_i sock hsock
      exact absurd ⟨i, owner_tcp.mpr ⟨by simp [hsock], not_not.1 ho⟩⟩ h
  rw [libertaSessao, foldl_fixed' hid]

/-! ## Requests -/

theorem sent_udpBind {st' : Netd} {port : UInt16} {o : Owner} {u : Fin udpSocks}
    (h : st.udpBind port o = .ok (u, st')) : st'.sent = st.sent := by
  rcases udpBind_ok h with ⟨rfl, -⟩ | ⟨-, rfl⟩
  · rfl
  · rfl

theorem tcpOwn_error (h : ¬ st.Owns slot) (conn : Nat) : ∃ e, st.tcpOwn conn slot = .error e := by
  cases ho : st.tcpOwn conn slot with
  | error e => exact ⟨e, rfl⟩
  | ok p => exact absurd ⟨p.1, (tcpOwn_owner ho).2⟩ h

theorem denyAll_allows (ip : Tcp.Ipv4Addr) (port : UInt16) (proto : UInt8) :
    Profile.denyAll.allows ip port proto = .error .noRule := rfl

theorem denyAll_allowsIcmp (ip : Tcp.Ipv4Addr) :
    Profile.denyAll.allowsIcmp ip = .error .noRule := rfl

theorem denyAll_allowsDns : Profile.denyAll.allowsDns = .error .dns := rfl

theorem denyAll_allowsListen : Profile.denyAll.allowsListen = .error .listen := rfl

/-- A request is answered at once; no frame goes out, and unless it is `info` or
`udp_recv` the reply has no bytes of the network. -/
def AnswersQuietly (st : Netd) (q : Request) (o : Netd × Outcome) : Prop :=
  ∃ r, o.2 = .reply r ∧ o.1.sent = st.sent ∧
    (q ≠ .info → (∀ port, q ≠ .udpRecv port) → r.network = [])

theorem answersQuietly_error (st : Netd) (q : Request) (e : Nat) :
    st.AnswersQuietly q (st, .reply (.error e)) :=
  ⟨_, rfl, rfl, fun _ _ => rfl⟩

theorem serve_denyAll (h : ¬ st.Owns slot) (now : Nat) (q : Request) :
    st.AnswersQuietly q (st.serve slot .denyAll now q) := by
  cases q with
  | openSession rq => exact answersQuietly_error st _ _
  | info => exact ⟨_, rfl, rfl, fun hne => absurd rfl hne⟩
  | resolve name =>
    rw [serve, denyAll_allowsDns]
    exact answersQuietly_error st _ _
  | udpSend dstIp dstPort srcPort data =>
    unfold serve
    dsimp only
    split
    · exact answersQuietly_error st _ _
    split
    · exact answersQuietly_error st _ _
    · rw [denyAll_allows]
      exact answersQuietly_error st _ _
  | udpRecv port =>
    unfold serve
    dsimp only
    split
    · exact answersQuietly_error st _ _
    have hsent := sent_udpBind ‹_›
    split
    · exact ⟨_, rfl, hsent, fun _ _ => rfl⟩
    · exact ⟨_, rfl, hsent, fun _ hne => absurd rfl (hne port)⟩
  | tcpConnect dstIp dstPort =>
    unfold serve
    dsimp only
    split
    · exact answersQuietly_error st _ _
    · rw [denyAll_allows]
      exact answersQuietly_error st _ _
  | tcpSend conn | tcpRecv conn | tcpClose conn | tcpAvail conn =>
    obtain ⟨e, he⟩ := tcpOwn_error h conn
    rw [serve, he]
    exact answersQuietly_error st _ e
  | tcpListen port =>
    rw [serve, denyAll_allowsListen]
    exact answersQuietly_error st _ _
  | udpAvail port =>
    unfold serve
    dsimp only
    split
    · exact answersQuietly_error st _ _
    · have hsent := sent_udpBind ‹_›
      exact ⟨_, rfl, hsent, fun _ _ => rfl⟩
  | ping dstIp seq timeoutMs =>
    unfold serve
    dsimp only
    split
    · exact answersQuietly_error st _ _
    split
    · exact answersQuietly_error st _ _
    · rw [denyAll_allowsIcmp]
      exact answersQuietly_error st _ _
  | stats => exact ⟨_, rfl, rfl, fun _ _ => rfl⟩

end Netd

/-! ## Runs -/

namespace State

variable {s : State}

/-- Connections and waiting requests belong to clients that have some
permission. -/
structure Guarded (s : State) : Prop where
  owner : ∀ i slot, s.net.owner (.tcp i) = some slot →
    ∃ c, s.clients slot = some c ∧ c.profile ≠ .denyAll
  waiting : ∀ slot w, s.waiting = some (slot, w) →
    ∃ c, s.clients slot = some c ∧ c.profile ≠ .denyAll

theorem guarded_start (mac gwMac : Mac) (lease : DhcpLease) : (start mac gwMac lease).Guarded where
  owner := nofun
  waiting := nofun

variable {slot : Fin maxClients} {c : Client} {k : Nat} {r : Session}

section
variable (h : s.Guarded) (hc : s.clients slot = some c)
include h hc

theorem Guarded.not_owns (hp : c.profile = .denyAll) : ¬ s.net.Owns slot := by
  rintro ⟨i, hi⟩
  obtain ⟨c', hc', hp'⟩ := h.owner i slot hi
  obtain rfl := some.inj (hc.symm.trans hc')
  exact hp' hp

/-- The end of a turn keeps the guards if new connections and a wait are the
client's, and it has some permission then. -/
theorem Guarded.finish (lost : Bool)
    {r : Netd × Netd.Outcome} (hold : ∀ i o, r.1.owner (.tcp i) = some o →
      s.net.owner (.tcp i) = some o ∨ o = slot ∧ c.profile ≠ .denyAll)
    (hwait : ∀ w, r.2 = .wait w → c.profile ≠ .denyAll) : (s.finish slot lost r).1.Guarded where
  owner := by
    intro i o hi
    rw [finish_net] at hi
    rw [(finish_clients slot lost r).1]
    rcases hold i o hi with hi | ⟨rfl, hp⟩
    · exact h.owner i o hi
    · exact ⟨c, hc, hp⟩
  waiting := by
    intro slot' w hw
    obtain ⟨rfl, hr⟩ := finish_waiting hw
    rw [(finish_clients _ lost r).1]
    exact ⟨c, hc, hwait w hr⟩

theorem Guarded.serve (now : Nat) (q : Request)
    (lost : Bool) : (s.finish slot lost (s.net.serve slot c.profile now q)).1.Guarded := by
  have hserved := Netd.served_serve s.net slot c.profile now q
  by_cases hp : c.profile = .denyAll
  · obtain ⟨p, hr, -, -⟩ := Netd.serve_denyAll (h.not_owns hc hp) now q
    rw [hp] at hserved ⊢
    refine h.finish hc lost (fun i o ho => .inl (hserved.old _ ?_ o ho)) fun w hw => ?_
    · rw [Netd.makes, hr]
      rfl
    · cases hr.symm.trans hw
  · refine h.finish hc lost (fun i o ho => ?_) fun _ _ => hp
    cases hm : s.net.makes (s.net.serve slot c.profile now q) (.tcp i) with
    | false => exact .inl (hserved.old _ hm o ho)
    | true => exact .inr ⟨hserved.made _ hm o ho, hp⟩

theorem Guarded.request (rq : Option Request)
    (now : Nat) (lost : Bool) : (s.request slot c rq now lost).1.Guarded := by
  unfold State.request
  split
  · exact h
  · rename_i o
    unfold openSession
    rcases hplace : s.place with _ | i
    · exact h
    -- the new client takes a place that no owner has
    have hkept : ∀ slot, (∃ c, s.clients slot = some c ∧ c.profile ≠ .denyAll) →
        ∃ c, Function.update s.clients i (some ⟨s.sessions.length, childProfile o⟩) slot =
          some c ∧ c.profile ≠ .denyAll := by
      rintro slot ⟨c', hc', hp⟩
      have hne : slot ≠ i := by
        rintro rfl
        cases (place_isNone hplace).symm.trans hc'
      exact ⟨c', (Function.update_of_ne hne ..).trans hc', hp⟩
    exact ⟨fun j slot hj => hkept slot (h.owner j slot hj),
      fun slot w hw => hkept slot (h.waiting slot w hw)⟩
  · exact h.serve hc now _ lost

end

theorem Guarded.step (h : s.Guarded) (e : Event) : (s.step e).1.Guarded := by
  cases e with
  | turn t lost =>
    have hpump := Netd.sameOwners_pump s.net t.now t.frames
    unfold State.step turn
    dsimp only
    split
    · split
      · rename_i hw
        refine ⟨fun i slot hi => ?_, fun slot w hw' => nomatch hw.symm.trans hw'⟩
        exact h.owner i slot ((hpump.owner_eq _).symm.trans hi)
      rename_i slot w hw
      obtain ⟨c, hc, hp⟩ := h.waiting slot w hw
      refine h.finish hc lost (fun i o ho => .inl ?_) fun _ _ => hp
      rw [← hpump.owner_eq]
      exact (Netd.turned_turn s.net t w).only.old _ o ho
    · exact h
  | request slot rq now lost =>
    unfold State.step
    dsimp only
    split
    · exact h
    rename_i c hc
    split
    · exact h.request hc rq now lost
    · exact h
  | disconnect slot now =>
    unfold State.step
    dsimp only
    split
    · exact h
    rename_i c hc
    split
    · rename_i hserving
      refine ⟨fun i o hi => ?_, fun slot' w hw => ?_⟩
      · have hne : o ≠ slot := by
          rintro rfl
          exact Netd.libertaSessao_owner s.net o now _ hi
        obtain ⟨c', hc', hp⟩ :=
          h.owner i o ((Netd.spares_libertaSessao s.net slot now).old _ o hi)
        exact ⟨c', (Function.update_of_ne hne ..).trans hc', hp⟩
      · have hnone := isNone_iff_eq_none.1 hserving.2
        cases hnone.symm.trans hw
    · exact h

/-- What a step does for a session without permissions. -/
def Quiet (o : Output) : Prop :=
  o.frames = [] ∧ (o.request ≠ some .info → (∀ port, o.request ≠ some (.udpRecv port)) →
    ∀ r, o.reply = some r → r.network = [])

theorem Guarded.request_quiet (h : s.Guarded) (hc : s.clients slot = some c)
    (hp : c.profile = .denyAll) (rq : Option Request) (now : Nat) (lost : Bool) :
    Quiet (s.request slot c rq now lost).2 := by
  unfold State.request
  split
  · exact ⟨rfl, fun _ _ r hr => some.inj hr ▸ rfl⟩
  · rename_i o
    refine ⟨rfl, fun _ _ r hr => ?_⟩
    cases hr
    unfold openSession
    split <;> rfl
  · rename_i q _
    obtain ⟨r, hr, hsent, hnet⟩ := Netd.serve_denyAll (h.not_owns hc hp) now q
    dsimp only
    rw [hp, finish_net]
    generalize s.net.serve slot .denyAll now q = out at hr hsent
    obtain ⟨net, outcome⟩ := out
    obtain rfl := hr
    refine ⟨?_, fun hinfo hrecv r' hr' => ?_⟩
    · unfold framesSince
      rw [hsent, drop_length]
    · cases hr'
      exact hnet (fun hq => hinfo (congrArg some hq)) fun port hq => hrecv port (congrArg some hq)

/-- A step for session `k` is a step for a client; without permissions it is
quiet. -/
theorem Guarded.step_quiet (h : s.Guarded) (e : Event) (hk : (s.step e).2.session = some k) :
    ∃ slot c, s.clients slot = some c ∧ c.session = k ∧
      (c.profile = .denyAll → Quiet (s.step e).2) := by
  cases e with
  | turn t lost =>
    unfold State.step turn at hk ⊢
    dsimp only at hk ⊢
    split at hk
    · split at hk
      · cases hk
      · rename_i slot w hw
        obtain ⟨c, hc, hp⟩ := h.waiting slot w hw
        rw [hc] at hk
        exact ⟨slot, c, hc, some.inj hk, fun hd => absurd hd hp⟩
    · cases hk
  | request slot rq now lost =>
    unfold State.step at hk ⊢
    dsimp only at hk ⊢
    split at hk
    · cases hk
    rename_i c hc
    split at hk
    · refine ⟨slot, c, hc, ?_, fun hp => ?_⟩
      · unfold State.request at hk
        split at hk <;> exact some.inj hk
      · rw [if_pos ‹_›]
        exact h.request_quiet hc hp rq now lost
    · cases hk
  | disconnect slot now =>
    unfold State.step at hk ⊢
    dsimp only at hk ⊢
    split at hk
    · cases hk
    rename_i c hc
    split at hk
    · refine ⟨slot, c, hc, some.inj hk, fun hp => ?_⟩
      rw [if_pos ‹_›]
      refine ⟨?_, fun _ _ r hr => nomatch hr⟩
      unfold disconnect framesSince
      dsimp only
      rw [Netd.sent_libertaSessao now (h.not_owns hc hp), drop_length]
    · cases hk

theorem step_keeps_session (s : State) (e : Event) (h : s.sessions[k]? = some r) :
    (s.step e).1.sessions[k]? = some r := by
  rcases s.step_clients e with ⟨-, hs, -⟩ | ⟨c, rq, i, -, -, hs⟩ | ⟨slot, -, hs, -⟩
  · rw [hs, h]
  · rw [hs, List.getElem?_append_left (List.getElem?_eq_some_iff.1 h).1, h]
  · rw [hs, h]

theorem run_sessions_prefix (s : State) (es : List Event) (h : s.sessions[k]? = some r) :
    (s.run es).sessions[k]? = some r := by
  induction es generalizing s with
  | nil => exact h
  | cons e es ih => exact ih _ (step_keeps_session s e h)

theorem Guarded.run_quiet (h : s.Guarded) (hr : s.Recorded) (es : List Event) {o : Output}
    (ho : o ∈ s.outputs es) (hk : o.session = some k) (hs : (s.run es).sessions[k]? = some r)
    (hp : r.profile = .denyAll) : Quiet o := by
  induction es generalizing s with
  | nil => cases ho
  | cons e es ih =>
    rcases mem_cons.1 ho with rfl | ho
    · obtain ⟨slot, c, hc, rfl, hquiet⟩ := h.step_quiet e hk
      obtain ⟨r', hr', hprofile⟩ := hr.client slot c hc
      have hlast := run_sessions_prefix s (e :: es) hr'
      obtain rfl := some.inj (hlast.symm.trans hs)
      exact hquiet (hprofile ▸ hp)
    · exact ih (h.step e) (hr.step e) ho hs

end State

/-- In every run, whatever the other sessions and the network do: what the
service does for a session without permissions emits no frame, and its replies
have bytes of the network only where the session asked with `info` or
`udp_recv`. -/
theorem denyAll_isolated (mac gwMac : Mac) (lease : DhcpLease) (es : List Event) (k : Nat)
    (r : Session) (hs : ((start mac gwMac lease).run es).sessions[k]? = some r)
    (hp : r.profile = .denyAll) :
    (∀ o ∈ (start mac gwMac lease).outputs es, o.session = some k → o.frames = []) ∧
      ((∀ o ∈ (start mac gwMac lease).outputs es, o.session = some k →
          o.request ≠ some .info ∧ ∀ port, o.request ≠ some (.udpRecv port)) →
        ∀ o ∈ (start mac gwMac lease).outputs es, o.session = some k →
          ∀ reply, o.reply = some reply → reply.network = []) := by
  have hquiet : ∀ o ∈ (start mac gwMac lease).outputs es, o.session = some k →
      State.Quiet o := fun o ho hk =>
    (guarded_start mac gwMac lease).run_quiet (recorded_start mac gwMac lease) es ho hk
      hs hp
  refine ⟨fun o ho hk => (hquiet o ho hk).1, fun hcond o ho hk => ?_⟩
  obtain ⟨hinfo, hrecv⟩ := hcond o ho hk
  exact (hquiet o ho hk).2 hinfo hrecv

/-- A session opened for nothing, that sends and pings in vain. -/
def deniedRun : List Event :=
  [.request 0 (some (.openSession openNothing)) 0 false,
    .request 1 (some (.udpSend [10, 0, 2, 2] 53 4000 [1])) 1 false,
    .request 1 (some (.ping [10, 0, 2, 2] 1 1000)) 2 false,
    .disconnect 1 3]

theorem deniedRun_isolated :
    (∀ o ∈ (start (.replicate 6 0) (.replicate 6 1) someLease).outputs deniedRun,
        o.session = some 1 → o.frames = []) ∧
      ∀ o ∈ (start (.replicate 6 0) (.replicate 6 1) someLease).outputs deniedRun,
        o.session = some 1 → ∀ reply, o.reply = some reply → reply.network = [] := by
  have h := denyAll_isolated (.replicate 6 0) (.replicate 6 1) someLease deniedRun 1
    { parent := some 0, profile := .denyAll } rfl rfl
  refine ⟨h.1, h.2 ?_⟩
  have hreq : ∀ o ∈ (start (.replicate 6 0) (.replicate 6 1) someLease).outputs deniedRun,
      o.request ∈ [some (.openSession openNothing), some (.udpSend [10, 0, 2, 2] 53 4000 [1]),
        some (.ping [10, 0, 2, 2] 1 1000), none] := by
    decide +kernel
  intro o ho _
  have hmem := hreq o ho
  refine ⟨fun hinfo => ?_, fun port hport => ?_⟩
  · simp [hinfo] at hmem
  · simp [hport] at hmem

/-- A session opened for nothing asks for a port, and a datagram that a host on
the network sent to that port is handed to it. -/
theorem denied_session_receives_datagram :
    ∃ es r o, es = [.request 0 (some (.openSession openNothing)) 0 false,
        .request 1 (some (.udpRecv 7000)) 1 false,
        .turn ⟨2, [(2, .udp #v[10, 0, 2, 2] 9 7000 [0x41])], 2, 2⟩ false,
        .request 1 (some (.udpRecv 7000)) 3 false] ∧
      ((start (.replicate 6 0) (.replicate 6 1) someLease).run es).sessions[1]? = some r ∧
      r.profile = .denyAll ∧
      o ∈ (start (.replicate 6 0) (.replicate 6 1) someLease).outputs es ∧
      o.session = some 1 ∧ o.reply = some (.udpRecv (some ⟨#v[10, 0, 2, 2], 9, [0x41]⟩)) := by
  refine ⟨_, _, ⟨some 1, some (.udpRecv 7000), [], some (.udpRecv (some ⟨_, 9, [0x41]⟩))⟩, rfl, rfl,
    rfl, ?_, rfl, rfl⟩
  decide +kernel

end NexoOS.Net.Daemon
