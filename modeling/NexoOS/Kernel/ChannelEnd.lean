import NexoOS.Kernel.Ipc
import NexoOS.Lib.Logged

/-!
# One channel under concurrent calls

`ChannelEnd` of `kernel/src/ipc.rs` with any number of threads in `send`,
`recv`, `try_recv` and `close` on its two ends. What a call does under the
channel's lock is one step; between its steps every other thread may run. The
variants `recv_guarded` and `try_recv_guarded` differ only in the window they
open for the collector, which has a model of its own. A send on an end puts
the message into the queue of the other one.
-/

namespace NexoOS.Kernel

open Function

deriving instance DecidableEq for Message

namespace ChannelEnd

abbrev Tid := Nat

/-- Where a thread is in a call; `side` is the end the call is made on. -/
inductive Pc where
  | idle
  | sendLock (side : Bool) (m : Message)
  | closeLock (side : Bool)
  | tryLock (side : Bool)
  | recvTop (side : Bool)
  | recvLock (side : Bool)
  | parked (side : Bool)
  | unparking (waiters : List Tid)
  deriving DecidableEq

/-- `ChannelInner`, the `closed_by_me` of the two ends, and the threads with
the answer `killed_current` gives in each. -/
structure Shared extends Channel where
  waiters : Bool → List Tid
  closedByMe : Bool → Bool
  threads : Tid → Pc
  killed : Tid → Bool

/-- What the calls did, at the step that settles it. Nothing after the push
can make a send fail: it still wakes the waiters and returns `Ok`. -/
inductive Event where
  | sent (t : Tid) (side : Bool) (m : Message)
  | sendFailed (t : Tid) (side : Bool) (e : Status)
  | received (t : Tid) (side : Bool) (m : Message)
  | peerClosed (t : Tid) (side : Bool)
  | wouldBlock (t : Tid) (side : Bool)
  | closed (side : Bool)
  | killed (t : Tid)
  deriving DecidableEq

inductive Op where
  | send (side : Bool) (m : Message)
  | recv (side : Bool)
  | tryRecv (side : Bool)
  | close (side : Bool)

/-- A thread starts a call, goes on with it, is killed with its process, is
woken for another reason, or registers itself with `register_waiter`. -/
inductive Act where
  | start (t : Tid) (op : Op)
  | go (t : Tid)
  | kill (t : Tid)
  | wake (t : Tid)
  | registerWaiter (t : Tid) (side : Bool)

namespace Shared

variable (s : Shared) (t : Tid)

def setPc (pc : Pc) : Shared :=
  { s with threads := update s.threads t pc }

/-- `sched::unpark`: a thread parked in `recv` is back at the top of its
loop. -/
def unpark : Shared :=
  match s.threads t with
  | .parked side => s.setPc t (.recvTop side)
  | _ => s

variable (side : Bool)

/-- `send` under the lock. -/
def send (m : Message) : Shared × List Event :=
  if s.closed (!side) then (s.setPc t .idle, [.sendFailed t side .peerClosed])
  else if (s.queue (!side)).length ≥ channelQueueMax then
    (s.setPc t .idle, [.sendFailed t side .queueFull])
  else
    (setPc
      { s with
        queue := update s.queue (!side) (s.queue (!side) ++ [m])
        waiters := update s.waiters (!side) [] }
      t (.unparking (s.waiters (!side))),
      [.sent t side m])

/-- `close` before the lock: the swap of `closed_by_me`. -/
def closeSwap : Shared :=
  if s.closedByMe side then s
  else setPc { s with closedByMe := update s.closedByMe side true } t (.closeLock side)

/-- `close` under the lock. -/
def close : Shared × List Event :=
  (setPc
    { s with
      queue := update s.queue side []
      closed := update s.closed side true
      waiters := update s.waiters (!side) [] }
    t (.unparking (s.waiters (!side))),
    [.closed side])

/-- The part `recv` and `try_recv` share: a message, or the other end is
closed, or `otherwise`. -/
def pop (otherwise : Shared × List Event) : Shared × List Event :=
  match s.queue side with
  | m :: q =>
    (setPc { s with queue := update s.queue side q } t .idle, [.received t side m])
  | [] => if s.closed (!side) then (s.setPc t .idle, [.peerClosed t side]) else otherwise

def tryRecv : Shared × List Event :=
  s.pop t side (s.setPc t .idle, [.wouldBlock t side])

/-- `recv` before the lock: `killed_current`. -/
def recvTop : Shared × List Event :=
  if s.killed t then (s.setPc t .idle, [.peerClosed t side]) else (s.setPc t (.recvLock side), [])

/-- `recv` under the lock; `park_with` releases it with the thread already
blocked. -/
def recv : Shared × List Event :=
  s.pop t side
    (setPc { s with waiters := update s.waiters side (s.waiters side ++ [t]) } t
      (.parked side), [])

def start : Op → Shared
  | .send side m => s.setPc t (.sendLock side m)
  | .recv side => s.setPc t (.recvTop side)
  | .tryRecv side => s.setPc t (.tryLock side)
  | .close side => s.closeSwap t side

/-- The next step of the call thread `t` is in. -/
def go : Shared × List Event :=
  match s.threads t with
  | .idle => (s, [])
  | .parked _ => (s, [])
  | .sendLock side m => s.send t side m
  | .closeLock side => s.close t side
  | .tryLock side => s.tryRecv t side
  | .recvTop side => s.recvTop t side
  | .recvLock side => s.recv t side
  | .unparking [] => (s.setPc t .idle, [])
  | .unparking (w :: ws) => ((s.setPc t (.unparking ws)).unpark w, [])

def step : Act → Shared × List Event
  | .start t op => if s.threads t = .idle then (s.start t op, []) else (s, [])
  | .go t => s.go t
  | .kill t => (unpark { s with killed := update s.killed t true } t, [.killed t])
  | .wake t => (s.unpark t, [])
  | .registerWaiter t side =>
    ({ s with waiters := update s.waiters side (s.waiters side ++ [t]) }, [])

def run (acts : List Act) : Shared × List Event := runLogged step s acts

/-- `create_pair`; some threads may belong to killed processes already. -/
def createPair (killed : Tid → Bool) : Shared :=
  { queue := fun _ => [], closed := fun _ => false, waiters := fun _ => [],
    closedByMe := fun _ => false, threads := fun _ => .idle, killed := killed }

end Shared

/-! ## What the log says -/

/-- The messages whose send on the end `side` returned `Ok`, in order. -/
def sentOn (side : Bool) (log : List Event) : List Message :=
  log.filterMap fun
    | .sent _ d m => if d = side then some m else none
    | _ => none

/-- The messages received at the end `side`, in order. -/
def receivedAt (side : Bool) (log : List Event) : List Message :=
  log.filterMap fun
    | .received _ d m => if d = side then some m else none
    | _ => none

/-- The other end was closed, and what had been sent on it until then has
been received. -/
def DrainedAt (side : Bool) (log : List Event) : Prop :=
  ∃ before after, log = before ++ .closed (!side) :: after ∧
    sentOn (!side) before <+: receivedAt side log

end ChannelEnd
end NexoOS.Kernel
