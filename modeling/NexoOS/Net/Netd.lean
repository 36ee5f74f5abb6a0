import NexoOS.Net.Dns
import NexoOS.Net.Firewall

/-!
# The network service

`netd`: sessions with a network profile, UDP sockets by port, TCP connections,
the resolver and the ping, the pump that takes frames from the driver, and the
requests of `nexo.sock`. Frames are taken as already decoded (`Rx`) and emitted
as records (`Tx`).

A request that waits for the network turns `serve` into a loop over `pump`. Here
it leaves a `Wait`, and every further turn of its loop is a step of its own
(`Netd.turn`), so that what the network does meanwhile is part of the run.
-/

namespace NexoOS.Net.Daemon

open Function

open Tcp (Ipv4Addr TcpSocket TcpSegment TxSeg)
open Firewall (Profile)

/-! ## Data -/

abbrev maxClients : Nat := 8
abbrev udpSocks : Nat := 4
abbrev tcpConns : Nat := 4
def udpQueue : Nat := 4
def udpMax : Nat := 1400
/-- The most bytes that a reply carries. -/
def replyMax : Nat := 1400
def dnsCache : Nat := 8
/-- The resolver's own UDP port. -/
def dnsPort : UInt16 := 40000
def serverPort : UInt16 := 53

def eInvalid : Nat := 1
def eNoRes : Nat := 2
def eTimeout : Nat := 3
def eReset : Nat := 4
def eNotFound : Nat := 5
def eNotConn : Nat := 6
def eDenied : Nat := 7

abbrev Mac := Vector UInt8 6

structure DhcpLease where
  ip : Ipv4Addr
  mask : Ipv4Addr
  router : Ipv4Addr
  dns : Ipv4Addr
  deriving DecidableEq

structure Datagram where
  ip : Ipv4Addr
  port : UInt16
  data : List UInt8
  deriving DecidableEq

/-- The session that owns a UDP socket; `none` is the resolver (`DNS_SLOT`). -/
abbrev Owner := Option (Fin maxClients)

structure UdpSock where
  used : Bool
  owner : Owner
  port : UInt16
  queue : List Datagram

structure Contadores where
  rxFrames : UInt32
  txFrames : UInt32
  udpDropped : UInt32
  pingsSent : UInt32
  pingsReplied : UInt32
  deriving DecidableEq

/-- The echo request under way. -/
structure Ping where
  ident : UInt16
  seq : UInt16
  dst : Ipv4Addr
  t0 : Nat

/-- A frame from the driver, as the parsers of the network library see it. -/
inductive Rx where
  | arpRequest (mac : Mac) (ip target : Ipv4Addr)
  | arpReply (ip : Ipv4Addr) (mac : Mac)
  | neighborSolicit
  | udp (src : Ipv4Addr) (sport dport : UInt16) (data : List UInt8)
  | tcp (src : Ipv4Addr) (seg : TcpSegment)
  | icmpReply (src : Ipv4Addr) (ident seq : UInt16) (ttl : UInt8)
  | other

/-- A frame handed to the driver. -/
inductive Tx where
  | arpReply (mac : Mac) (ip : Ipv4Addr)
  | neighborAdvert
  | udp (dst : Ipv4Addr) (dstPort srcPort : UInt16) (data : List UInt8)
  | dnsQuery (id : UInt16) (labels : List (List UInt8))
  | tcp (localPort : UInt16) (remoteIp : Ipv4Addr) (remotePort : UInt16) (seq ack : UInt32)
      (flags : UInt8) (window : Nat) (payload : List UInt8)
  | icmpEcho (dst : Ipv4Addr) (ident seq : UInt16)
  deriving DecidableEq

/-- The state of the service; `sent` is every frame handed to the driver. -/
structure Netd where
  mac : Mac
  gwMac : Mac
  lease : DhcpLease
  udp : Fin udpSocks → UdpSock
  tcp : Fin tcpConns → Option TcpSocket
  tcpOwner : Fin tcpConns → Fin maxClients
  dns : List (List UInt8 × Ipv4Addr)
  stats : Contadores
  ping : Option Ping
  pingReply : Option (UInt32 × UInt8)
  sent : List Tx

structure OpenRequest where
  allowDns : UInt8
  allowListen : UInt8
  ruleIp : List UInt8
  rulePrefixLen : UInt8
  rulePortLo : UInt16
  rulePortHi : UInt16
  ruleProtos : UInt8
  deriving DecidableEq

inductive Request where
  | info
  | resolve (name : List UInt8)
  | udpSend (dstIp : List UInt8) (dstPort srcPort : UInt16) (data : List UInt8)
  | udpRecv (port : UInt16)
  | tcpConnect (dstIp : List UInt8) (dstPort : UInt16)
  | tcpSend (conn : Nat) (data : List UInt8)
  | tcpRecv (conn : Nat)
  | tcpClose (conn : Nat)
  | tcpListen (port : UInt16)
  | tcpAvail (conn : Nat)
  | openSession (rq : OpenRequest)
  | udpAvail (port : UInt16)
  | ping (dstIp : List UInt8) (seq : UInt16) (timeoutMs : Nat)
  | stats
  deriving DecidableEq

structure StatsResponse where
  counters : Contadores
  udpSocks : Nat
  tcpConns : Nat
  dnsEntries : Nat
  deriving DecidableEq

inductive Reply where
  | error (code : Nat)
  | info (lease : DhcpLease) (mac : Mac)
  | resolve (addr : Ipv4Addr) (cached : Bool)
  | udpSend
  | udpRecv (datagram : Option Datagram)
  | tcpConnect (conn : Nat)
  | tcpSend (sent : Nat)
  | tcpRecv (data : List UInt8) (closed : Bool)
  | tcpClose
  | tcpListen (conn : Nat) (peerIp : Ipv4Addr) (peerPort : UInt16)
  | tcpAvail (avail : Nat) (closed : Bool)
  | opened
  | udpAvail (queued : Nat)
  | ping (rttUs : UInt32) (ttl : UInt8)
  | stats (s : StatsResponse)
  deriving DecidableEq

/-- What a request waits for; `start` is the time its loop began. -/
inductive Wait where
  | resolve (name : List UInt8) (id : UInt16) (ui : Fin udpSocks) (start : Nat)
  | connect (i : Fin tcpConns) (start : Nat)
  | listen (i : Fin tcpConns) (start : Nat)
  | send (i : Fin tcpConns) (data : List UInt8) (start : Nat)
  | close (i : Fin tcpConns) (wasReset : Bool) (start : Nat)
  | ping (t0 prazo : Nat)

/-- Four bytes are an address. -/
def toAddr : List UInt8 → Option Ipv4Addr
  | [a, b, c, d] => some (Tcp.ipv4 a b c d)
  | _ => none

/-! ## Frames -/

namespace Netd

variable (st : Netd)

/-- `net_send`. -/
def emit (f : Tx) : Netd :=
  { st with
    sent := st.sent ++ [f], stats := { st.stats with txFrames := st.stats.txFrames + 1 } }

def emitSeg (sock : TcpSocket) (seg : TxSeg) : Netd :=
  st.emit (.tcp sock.localPort sock.remoteIp sock.remotePort seg.seq seg.ack seg.flags sock.window
    (sock.slotPayload seg.slot (min seg.payloadLen Tcp.mss)))

/-- `sock` is the new state of connection `i`; its answer goes out. -/
def setTcp (i : Fin tcpConns) (r : TcpSocket × Option TxSeg) : Netd :=
  let st := { st with tcp := update st.tcp i (some r.1) }
  match r.2 with
  | none => st
  | some seg => st.emitSeg r.1 seg

def dropTcp (i : Fin tcpConns) : Netd :=
  { st with tcp := update st.tcp i none }

/-- The listening socket that takes the segment as its SYN. -/
def listener (src : Ipv4Addr) (seg : TcpSegment) (now : Nat) :
    Option (Fin tcpConns × (TcpSocket × Option TxSeg)) :=
  (List.finRange tcpConns).findSome? fun i =>
    match st.tcp i with
    | none => none
    | some sock =>
      if sock.state ≠ .listen ∨ seg.dstPort ≠ sock.localPort then none
      else
        let r := sock.onSyn src seg now
        if r.2.isSome then some (i, r) else none

def connection (src : Ipv4Addr) (seg : TcpSegment) : Option (Fin tcpConns × TcpSocket) :=
  (List.finRange tcpConns).findSome? fun i =>
    match st.tcp i with
    | none => none
    | some sock =>
      if src = sock.remoteIp ∧ seg.dstPort = sock.localPort ∧ seg.srcPort = sock.remotePort then
        some (i, sock)
      else none

def handleTcp (src : Ipv4Addr) (seg : TcpSegment) (now : Nat) : Netd :=
  match st.listener src seg now with
  | some (i, r) => st.setTcp i r
  | none =>
    match st.connection src seg with
    | some (i, sock) => st.setTcp i (sock.onSegment seg now)
    | none => st

variable (now : Nat)

/-- The retransmissions of one connection that are due. -/
def pollTcp (st : Netd) (i : Fin tcpConns) : Netd :=
  match st.tcp i with
  | none => st
  | some sock => st.setTcp i (sock.poll now)

def tcpTimers : Netd := (List.finRange tcpConns).foldl (pollTcp now) st

/-- The socket bound to a port. -/
def udpPort (port : UInt16) : Option (Fin udpSocks) :=
  (List.finRange udpSocks).find? fun i => (st.udp i).used && (st.udp i).port = port

/-- A datagram goes to the queue of its port, if there is room. -/
def queueUdp (dport : UInt16) (d : Datagram) : Netd :=
  match st.udpPort dport with
  | none => st
  | some i =>
    let u := st.udp i
    if u.queue.length < udpQueue ∧ d.data.length ≤ udpMax then
      { st with udp := update st.udp i { u with queue := u.queue ++ [d] } }
    else { st with stats := { st.stats with udpDropped := st.stats.udpDropped + 1 } }

/-- The round trip in microseconds. -/
def rtt (now t0 : Nat) : UInt32 := UInt32.ofNat ((now - t0) / 1000)

/-- One frame of the pump, read at `now`. -/
def handleFrame : Rx → Netd
  | .arpRequest mac ip target =>
    if target = st.lease.ip then st.emit (.arpReply mac ip) else st
  | .arpReply ip mac => if ip = st.lease.router then { st with gwMac := mac } else st
  | .neighborSolicit => st.emit .neighborAdvert
  | .udp src sport dport data => st.queueUdp dport { ip := src, port := sport, data }
  | .tcp src seg => st.handleTcp src seg now
  | .icmpReply src ident seq ttl =>
    match st.ping with
    | none => st
    | some p =>
      if src = p.dst ∧ ident = p.ident ∧ seq = p.seq then
        { st with pingReply := some (rtt now p.t0, ttl), ping := none }
      else st
  | .other => st

/-- A frame that arrived is counted and handled. -/
def takeFrame (f : Nat × Rx) : Netd :=
  { st with stats := { st.stats with rxFrames := st.stats.rxFrames + 1 } }.handleFrame f.1 f.2

/-- `pump`: the timers, then the frames that wait at the driver. -/
def pump (frames : List (Nat × Rx)) : Netd :=
  frames.foldl takeFrame (st.tcpTimers now)

/-! ## Sockets and sessions -/

/-- `udp_bind`: the session's socket of the port, a new one if the port is
free. -/
def udpBind (port : UInt16) (slot : Owner) : Except Nat (Fin udpSocks × Netd) :=
  match st.udpPort port with
  | some i => if (st.udp i).owner = slot then .ok (i, st) else .error eDenied
  | none =>
    match (List.finRange udpSocks).find? fun i => !(st.udp i).used with
    | none => .error eNoRes
    | some i =>
      let u : UdpSock := { used := true, owner := slot, port, queue := [] }
      .ok (i, { st with udp := update st.udp i u })

/-- `tcp_own`: the connection, if the session owns it. -/
def tcpOwn (conn : Nat) (slot : Fin maxClients) : Except Nat (Fin tcpConns × TcpSocket) :=
  if h : conn < tcpConns then
    match st.tcp ⟨conn, h⟩ with
    | none => .error eInvalid
    | some sock => if st.tcpOwner ⟨conn, h⟩ ≠ slot then .error eDenied else .ok (⟨conn, h⟩, sock)
  else .error eInvalid

/-- A connection slot that is free or closed. -/
def freeConn : Option (Fin tcpConns) :=
  (List.finRange tcpConns).find? fun i =>
    match st.tcp i with
    | none => true
    | some sock => sock.state = .closed

variable (slot : Fin maxClients)

def releaseUdp (u : UdpSock) : UdpSock :=
  if u.used ∧ u.owner = some slot then { u with used := false, queue := [] } else u

variable (now : Nat)

/-- The connections of a session that closed end, with a FIN where one goes
out. -/
def releaseTcp (st : Netd) (i : Fin tcpConns) : Netd :=
  if st.tcpOwner i ≠ slot then st
  else
    match st.tcp i with
    | none => st
    | some sock => (st.setTcp i (sock.close now)).dropTcp i

def libertaSessao : Netd :=
  (List.finRange tcpConns).foldl (releaseTcp slot now)
    { st with udp := fun i => releaseUdp slot (st.udp i) }

/-! ## Requests -/

/-- The end of a request, or what it waits for. -/
inductive Outcome where
  | reply (r : Reply)
  | wait (w : Wait)

/-- A fresh connection `i` of the session. -/
def putTcp (i : Fin tcpConns) (slot : Fin maxClients) (sock : TcpSocket) : Netd :=
  { st with
    tcp := update st.tcp i (some sock), tcpOwner := update st.tcpOwner i slot }

/-- The initial sequence number. -/
def iss : UInt32 := UInt32.ofNat now ||| 1

def queryId : UInt16 := UInt16.ofNat now ||| 1

def closedFlag (sock : TcpSocket) : Bool := sock.peerClosed || sock.reset || sock.state = .closed

/-- The first turn of `resolve`: the cache, or a query. -/
def resolve (name : List UInt8) (now : Nat) : Netd × Outcome :=
  match st.dns.find? fun e => e.1 = name with
  | some (_, addr) => (st, .reply (.resolve addr true))
  | none =>
    match st.udpBind dnsPort none with
    | .error e => (st, .reply (.error e))
    | .ok (ui, st) =>
      match dnsLabels name with
      | none => (st, .reply (.error eInvalid))
      | some labels =>
        (st.emit (.dnsQuery (queryId now) labels), .wait (.resolve name (queryId now) ui now))

/-- One try to send; a full window waits. -/
def trySend (i : Fin tcpConns) (data : List UInt8) (now start : Nat) : Netd × Outcome :=
  match st.tcp i with
  | none => (st, .reply (.error eNotConn))
  | some sock =>
    match sock.send data now with
    | (sock', .ok seg) => (st.setTcp i (sock', some seg), .reply (.tcpSend data.length))
    | (_, .error true) => (st, .wait (.send i data start))
    | (_, .error false) => (st, .reply (.error (if sock.reset then eReset else eNotConn)))

def pingIdent : UInt16 := 0x4e00 ||| (UInt16.ofNat st.stats.pingsSent.toNat &&& 0xff)

def statsResponse : StatsResponse where
  counters := st.stats
  udpSocks := (List.finRange udpSocks).countP fun i => (st.udp i).used
  tcpConns := (List.finRange tcpConns).countP fun i =>
    match st.tcp i with
    | none => false
    | some sock => sock.state ≠ .closed
  dnsEntries := st.dns.length

/-- `serve`, up to the first turn of a loop over `pump`. -/
def serve (profile : Profile) (now : Nat) :
    Request → Netd × Outcome
  | .openSession _ => (st, .reply (.error eInvalid))
  | .info => (st, .reply (.info st.lease st.mac))
  | .resolve name =>
    match profile.allowsDns with
    | .error _ => (st, .reply (.error eDenied))
    | .ok () => st.resolve name now
  | .udpSend dstIp dstPort srcPort data =>
    match toAddr dstIp with
    | none => (st, .reply (.error eInvalid))
    | some dst =>
      if data = [] then (st, .reply (.error eInvalid))
      else
        -- the firewall comes before the socket
        match profile.allows dst dstPort Firewall.protoUdp with
        | .error _ => (st, .reply (.error eDenied))
        | .ok () =>
          match st.udpBind srcPort (some slot) with
          | .error e => (st, .reply (.error e))
          | .ok (_, st) => (st.emit (.udp dst dstPort srcPort data), .reply .udpSend)
  | .udpRecv port =>
    match st.udpBind port (some slot) with
    | .error e => (st, .reply (.error e))
    | .ok (i, st) =>
      match (st.udp i).queue with
      | [] => (st, .reply (.udpRecv none))
      | d :: queue =>
        ({ st with udp := update st.udp i { st.udp i with queue } },
          .reply (.udpRecv (some d)))
  | .tcpConnect dstIp dstPort =>
    match toAddr dstIp with
    | none => (st, .reply (.error eInvalid))
    | some dst =>
      match profile.allows dst dstPort Firewall.protoTcp with
      | .error _ => (st, .reply (.error eDenied))
      | .ok () =>
        match st.freeConn with
        | none => (st, .reply (.error eNoRes))
        | some i =>
          let c := Tcp.connect (41000 + UInt16.ofNat i) dst dstPort (iss now) now
          ((st.emitSeg c.1 c.2).putTcp i slot c.1, .wait (.connect i now))
  | .tcpSend conn data =>
    match st.tcpOwn conn slot with
    | .error e => (st, .reply (.error e))
    | .ok (i, _) => st.trySend i data now now
  | .tcpRecv conn =>
    match st.tcpOwn conn slot with
    | .error e => (st, .reply (.error e))
    | .ok (i, sock) =>
      let r := sock.takeRx replyMax
      (st.setTcp i r.1.windowUpdate, .reply (.tcpRecv r.2 (closedFlag sock)))
  | .udpAvail port =>
    match st.udpBind port (some slot) with
    | .error e => (st, .reply (.error e))
    | .ok (i, st) => (st, .reply (.udpAvail (st.udp i).queue.length))
  | .tcpAvail conn =>
    match st.tcpOwn conn slot with
    | .error e => (st, .reply (.error e))
    | .ok (_, sock) => (st, .reply (.tcpAvail sock.rx.length (closedFlag sock)))
  | .tcpListen port =>
    match profile.allowsListen with
    | .error _ => (st, .reply (.error eDenied))
    | .ok () =>
      match st.freeConn with
      | none => (st, .reply (.error eNoRes))
      | some i => (st.putTcp i slot (Tcp.listen port (iss now)), .wait (.listen i now))
  | .ping dstIp seq timeoutMs =>
    match toAddr dstIp with
    | none => (st, .reply (.error eInvalid))
    | some dst =>
      if timeoutMs = 0 ∨ 60000 < timeoutMs then (st, .reply (.error eInvalid))
      else
        match profile.allowsIcmp dst with
        | .error _ => (st, .reply (.error eDenied))
        | .ok () =>
          if st.ping.isSome then (st, .reply (.error eNoRes))
          else
            let ident := st.pingIdent
            let st := { st with pingReply := none, ping := some { ident, seq, dst, t0 := now } }
            let st := st.emit (.icmpEcho dst ident seq)
            ({ st with stats := { st.stats with pingsSent := st.stats.pingsSent + 1 } },
              .wait (.ping now (timeoutMs * 1000000)))
  | .stats => (st, .reply (.stats st.statsResponse))
  | .tcpClose conn =>
    match st.tcpOwn conn slot with
    | .error e => (st, .reply (.error e))
    | .ok (i, sock) => (st, .wait (.close i sock.reset now))

/-! ## The loops over the pump -/

/-- The times that one turn of a loop reads, and the frames it takes. -/
structure Turn where
  now : Nat
  frames : List (Nat × Rx)
  check : Nat
  again : Nat

/-- The resolver takes datagrams from its queue until one answers; what is left
of the queue, and the answer. -/
def drainDns (server : Ipv4Addr) (id : UInt16) : List Datagram → List Datagram × Option DnsAnswer
  | [] => ([], none)
  | d :: queue =>
    if d.ip = server ∧ d.port = serverPort then
      match dnsParsePayload d.data id with
      | some ans => (queue, some ans)
      | none => drainDns server id queue
    else drainDns server id queue

/-- A name that was resolved enters the cache; a full cache loses its first
entry. -/
def cacheName (name : List UInt8) (addr : Ipv4Addr) : Netd :=
  if name.length ≤ 64 then
    { st with dns :=
        if st.dns.length < dnsCache then st.dns ++ [(name, addr)] else st.dns.set 0 (name, addr) }
  else st

/-- A turn of the loop of a waiting request: the pump, then its own check. -/
def turn (t : Turn) : Wait → Netd × Outcome
  | .resolve name id ui start =>
    let st := st.pump t.now t.frames
    let (queue, ans) := drainDns st.lease.dns id (st.udp ui).queue
    let st := { st with udp := update st.udp ui { st.udp ui with queue } }
    match ans with
    | some { a := some addr, .. } => (st.cacheName name addr, .reply (.resolve addr false))
    | some { a := none, .. } => (st, .reply (.error eNotFound))
    | none =>
      if 10000000000 < t.check - start then (st, .reply (.error eTimeout))
      else (st, .wait (.resolve name id ui start))
  | .connect i start =>
    let st := st.pump t.now t.frames
    match st.tcp i with
    | none => (st.dropTcp i, .reply (.error eReset))
    | some sock =>
      match sock.state with
      | .established => (st, .reply (.tcpConnect i))
      | .closed => (st.dropTcp i, .reply (.error eReset))
      | _ =>
        if 10000000000 < t.check - start then (st.dropTcp i, .reply (.error eTimeout))
        else (st, .wait (.connect i start))
  | .listen i start =>
    let st := st.pump t.now t.frames
    match st.tcp i with
    | none => (st.dropTcp i, .reply (.error eReset))
    | some sock =>
      match sock.state with
      | .established => (st, .reply (.tcpListen i sock.remoteIp sock.remotePort))
      | .closed => (st.dropTcp i, .reply (.error eReset))
      | _ =>
        if 30000000000 < t.check - start then (st.dropTcp i, .reply (.error eTimeout))
        else (st, .wait (.listen i start))
  | .send i data start =>
    let st := st.pump t.now t.frames
    if 5000000000 < t.check - start then (st, .reply (.error eTimeout))
    else st.trySend i data t.again start
  | .close i wasReset start =>
    let st := st.pump t.now t.frames
    let done := fun st : Netd =>
      (st.dropTcp i, Outcome.reply (if wasReset then .error eReset else .tcpClose))
    match st.tcp i with
    | none => done st
    | some sock =>
      let r := sock.close t.again
      let st := st.setTcp i r
      if r.2.isNone ∧ sock.state = .closed then done st
      else if 3000000000 < t.check - start then done st
      else (st, .wait (.close i wasReset start))
  | .ping t0 prazo =>
    let st := st.pump t.now t.frames
    match st.pingReply with
    | some (rttUs, ttl) =>
      ({ st with
          pingReply := none
          stats := { st.stats with pingsReplied := st.stats.pingsReplied + 1 } },
        .reply (.ping rttUs ttl))
    | none =>
      if prazo < t.check - t0 then ({ st with ping := none }, .reply (.error eTimeout))
      else (st, .wait (.ping t0 prazo))

end Netd
end NexoOS.Net.Daemon
