import NexoOS.Lib.Reach

/-!
# The collector of channel ends, step by step

`collect_unreachable` of `kernel/src/ipc.rs` against the other processors:
every atomic load or store and every section under a lock is one step. Only
channel ends matter here, so tables and messages are lists of ends. The
collector runs on any number of processors at once, each with its own
program counter.
-/

namespace NexoOS.Kernel.Collector

open Function

/-- A channel and one of its two sides. -/
abbrev End := Nat × Bool

def peer (e : End) : End := (e.1, !e.2)

def channelQueueMax : Nat := 64

/-! ## State -/

/-- `InFlight`: `half` is between the two increments of `InFlight::new`. -/
inductive Window where
  | none
  | half
  | opened
  deriving DecidableEq

/-- A thread inside a system call. `carried` are the handles in the kernel's
hands; `user` is the end whose handle the call looked up. -/
structure Thread where
  window : Window
  carried : List End
  user : Option End

/-- A process is live while it is in the process table. -/
structure Proc where
  live : Bool
  handles : List End

/-- What one attempt of a collector has seen so far. -/
structure Round where
  tries : Nat
  gen0 : Nat
  ends : List End
  marked : List End
  work : List End

/-- Program counter of a collector. -/
inductive Pc where
  | idle
  /-- before a load of `IPC_INFLIGHT` -/
  | waiting (tries spins : Nat)
  /-- the load gave zero; before the load of `IPC_GEN` -/
  | sawZero (tries : Nat)
  /-- before the section that copies the registry -/
  | snapshot (tries gen0 : Nat)
  /-- before the load of `pinned` of the first remaining end, or, with none
  left, before the copy of the process table -/
  | pins (r : Round) (rest : List End)
  /-- before the section over the table of the first remaining process -/
  | tables (r : Round) (pids : List Nat)
  /-- before the section over the queue of the last end of the work list, or,
  with none left, before the second load of `IPC_INFLIGHT` -/
  | trace (r : Round)
  /-- before the second load of `IPC_GEN` -/
  | checkGen (r : Round)
  /-- before the exchange on `closed_by_me` of the first remaining end -/
  | closing (r : Round) (rest : List End)
  /-- before the section that closes `e` -/
  | closingEnd (r : Round) (e : End) (rest : List End)

/-- `gen` counts every window ever opened; the counter of the source is this
number modulo 2^64. Channels `0 … made - 1` were created and registered. -/
structure State where
  procs : List Proc
  pinned : End → Bool
  queue : End → List (List End)
  closed : End → Bool
  closedByMe : End → Bool
  made : Nat
  gen : Nat
  inflight : Nat
  threads : List Thread
  cols : List Pc

/-- Live processes with empty tables, threads outside any call and idle
collectors. -/
def start (procs threads cols : Nat) : State :=
  { procs := List.replicate procs { live := true, handles := [] }
    pinned := fun _ => false
    queue := fun _ => []
    closed := fun _ => false
    closedByMe := fun _ => false
    made := 0
    gen := 0
    inflight := 0
    threads := List.replicate threads { window := .none, carried := [], user := none }
    cols := List.replicate cols .idle }

/-- The ends a collector holds strong references to. -/
def Pc.held : Pc → List End
  | .pins r _ | .tables r _ | .trace r | .checkGen r | .closing r _ | .closingEnd r _ _ =>
    r.ends ++ r.work
  | _ => []

/-- `root` of `collect_marked`. -/
def Round.root (r : Round) (e : End) : Round :=
  if e ∈ r.marked then r else { r with marked := r.marked ++ [e], work := r.work ++ [e] }

def Round.rootAll (r : Round) (es : List End) : Round := es.foldl Round.root r

/-- The next of the eight attempts. -/
def retry (tries : Nat) : Pc := if tries + 1 < 8 then .waiting (tries + 1) 0 else .idle

namespace State

variable (s : State)

def registered : List End :=
  (List.range s.made).flatMap fun c => [(c, false), (c, true)]

/-- `strong_count > 0`. -/
abbrev Referenced (e : End) : Prop :=
  (∃ pr ∈ s.procs, e ∈ pr.handles) ∨ s.pinned e = true ∨
  (∃ th ∈ s.threads, e ∈ th.carried ∨ th.user = some e) ∨
  (∃ x ∈ s.registered, ∃ m ∈ s.queue x, e ∈ m) ∨ ∃ pc ∈ s.cols, e ∈ pc.held

/-! ## What the collector must not close -/

/-- Process `p` is live and its table holds `e`. -/
def InTable (p : Nat) (e : End) : Prop :=
  ∃ pr, s.procs[p]? = some pr ∧ pr.live = true ∧ e ∈ pr.handles

/-- Held in the table of a live process, pinned, or carried by an open
window. -/
inductive Root (s : State) (e : End) : Prop where
  | table {p : Nat} (he : s.InTable p e)
  | pinned (he : s.pinned e = true)
  | carried {th : Thread} (ht : th ∈ s.threads) (hw : th.window = .opened) (he : e ∈ th.carried)

/-- `y` is carried by a message in the queue of `x`. -/
def Queued (x y : End) : Prop := ∃ m ∈ s.queue x, y ∈ m

def Reachable : End → Prop := Reach s.Root s.Queued

/-! ## Steps of the other processors -/

/-- A step of thread `t`, of process `p`, or the next one of collector `i`. -/
inductive Action where
  | create
  | insertNew (p : Nat) (e : End)
  | insertFail (e : End)
  | duplicate (p : Nat) (e : End)
  | closeHandle (p : Nat) (e : End)
  | exitTake (p : Nat)
  | exitLeave (p : Nat)
  | get (t p : Nat) (e : End)
  | release (t : Nat)
  | openGen (t : Nat)
  | openCount (t : Nat)
  | take (t p : Nat) (es : List End)
  | push (t : Nat)
  | pop (t : Nat)
  | insert (t p n : Nat)
  | spawn (t : Nat)
  | closeWindow (t : Nat)
  | drop (e : End)
  | collect (i : Nat)

def setProc (p : Nat) (pr : Proc) : State := { s with procs := s.procs.set p pr }

variable (t : Nat)

def setThread (th : Thread) : State :=
  { s with threads := s.threads.set t th }

/-- `create_pair`: both ends start pinned, and the pair is registered. -/
def create : State :=
  { s with
    pinned := fun e => if e.1 = s.made then true else s.pinned e
    queue := fun e => if e.1 = s.made then [] else s.queue e
    closed := fun e => if e.1 = s.made then false else s.closed e
    closedByMe := fun e => if e.1 = s.made then false else s.closedByMe e
    made := s.made + 1 }

/-- Changes the table or the liveness of process `p`. -/
def onProc (p : Nat) (f : Proc → Proc) : State :=
  match s.procs[p]? with
  | some pr => s.setProc p (f pr)
  | none => s

/-- `HandleTable::insert` of an end only the kernel held so far. -/
def insertNew (p : Nat) (e : End) : State :=
  match s.procs[p]? with
  | some pr =>
    if s.pinned e then
      { s with procs := s.procs.set p { pr with handles := pr.handles ++ [e] }
               pinned := update s.pinned e false }
    else s
  | none => s

/-- The same on a full table: the pin is cleared before the error. -/
def insertFail (e : End) : State :=
  { s with pinned := update s.pinned e false }

/-- The section of `ChannelEnd::close`. -/
def close (e : End) : State :=
  { s with queue := update s.queue e []
           closed := update s.closed e true }

/-- Drop of an end nobody refers to any more. -/
def drop (e : End) : State :=
  if s.Referenced e ∨ s.closedByMe e then s
  else { s with closedByMe := update s.closedByMe e true }.close e

/-- `table.get` at the start of a call. -/
def get (t p : Nat) (e : End) : State :=
  match s.threads[t]?, s.procs[p]? with
  | some th, some pr =>
    if th.window = .none ∧ e ∈ pr.handles then s.setThread t { th with user := some e } else s
  | _, _ => s

/-- Return from a call that opened no window. -/
def release : State :=
  match s.threads[t]? with
  | some th => if th.window = .none then s.setThread t { th with user := none } else s
  | none => s

/-- First increment of `InFlight::new`. -/
def openGen : State :=
  match s.threads[t]? with
  | some th =>
    if th.window = .none then { s.setThread t { th with window := .half } with gen := s.gen + 1 }
    else s
  | none => s

/-- Second increment of `InFlight::new`. -/
def openCount : State :=
  match s.threads[t]? with
  | some th =>
    if th.window = .half then
      { s.setThread t { window := .opened, carried := [], user := th.user } with
        inflight := s.inflight + 1 }
    else s
  | none => s

/-- `InFlight::drop`, after whatever is still carried was dropped. -/
def closeWindow : State :=
  match s.threads[t]? with
  | some th =>
    if th.window = .opened then
      { s.setThread t { window := .none, carried := [], user := none } with
        inflight := s.inflight - 1 }
    else s
  | none => s

/-- The section of `sys_channel_send` and `take_spawn_handles` over the
table. An end of the channel it is sent on is refused. -/
def take (t p : Nat) (es : List End) : State :=
  match s.threads[t]?, s.procs[p]? with
  | some th, some pr =>
    if th.window = .opened ∧ (∀ e ∈ es, es.count e ≤ pr.handles.count e) ∧
        ∀ e ∈ es, th.user.map Prod.fst ≠ some e.1 then
      (s.setProc p { pr with handles := pr.handles.diff es }).setThread t
        { th with carried := th.carried ++ es }
    else s
  | _, _ => s

/-- The section of `ChannelEnd::send`; a message that is refused is
dropped. -/
def push : State :=
  match s.threads[t]? with
  | some th =>
    match th.user with
    | some e =>
      if th.window = .opened then
        let s' := s.setThread t { th with carried := [] }
        if s.closed (peer e) ∨ channelQueueMax ≤ (s.queue (peer e)).length then s'
        else
          { s' with
            queue := update s.queue (peer e) (s.queue (peer e) ++ [th.carried]) }
      else s
    | none => s
  | none => s

/-- The section of `try_recv_guarded` and `recv_guarded` that takes a
message: the window opens under the lock of the channel. -/
def pop : State :=
  match s.threads[t]? with
  | some th =>
    match th.user with
    | some e =>
      match s.queue e with
      | m :: rest =>
        if th.window = .none then
          { s.setThread t { window := .opened, carried := m, user := th.user } with
            queue := update s.queue e rest
            gen := s.gen + 1
            inflight := s.inflight + 1 }
        else s
      | [] => s
    | none => s
  | none => s

/-- The section of `sys_channel_recv` over the table, which had room for `n`
handles. -/
def insert (t p n : Nat) : State :=
  match s.threads[t]?, s.procs[p]? with
  | some th, some pr =>
    if th.window = .opened then
      let s' := (s.setProc p { pr with handles := pr.handles ++ th.carried.take n }).setThread t
        { th with carried := th.carried.drop n }
      { s' with pinned := fun e => s.pinned e && !(e ∈ th.carried.take n) }
    else s
  | _, _ => s

/-- A child with the carried handles enters the process table. -/
def spawn : State :=
  match s.threads[t]? with
  | some th =>
    if th.window = .opened then
      { s.setThread t { th with carried := [] } with
        procs := s.procs ++ [{ live := true, handles := th.carried }]
        pinned := fun e => s.pinned e && !(e ∈ th.carried) }
    else s
  | none => s

/-! ## Steps of the collector -/

/-- The next program counter where the collector only reads. -/
def next : Pc → Pc
  | .idle => .waiting 0 0
  | .waiting tries spins =>
    if s.inflight = 0 then .sawZero tries
    else if 100000 < spins + 1 then .idle
    else .waiting tries (spins + 1)
  | .sawZero tries => .snapshot tries s.gen
  | .snapshot tries gen0 =>
    match s.registered.filter fun e => s.Referenced e with
    | [] => .idle
    | e :: es =>
      .pins { tries, gen0, ends := e :: es, marked := [], work := [] } (e :: es)
  | .pins r (e :: rest) => .pins (if s.pinned e then r.root e else r) rest
  | .pins r [] =>
    .tables r ((List.range s.procs.length).filter fun p => (s.procs[p]?.any (·.live)))
  | .tables r (p :: pids) => .tables (r.rootAll ((s.procs[p]?.map (·.handles)).getD [])) pids
  | .tables r [] => .trace r
  | .trace r =>
    match r.work.getLast? with
    | some e => .trace ({ r with work := r.work.dropLast }.rootAll (s.queue e).flatten)
    | none => if s.inflight = 0 then .checkGen r else retry r.tries
  | .checkGen r =>
    if s.gen % 2 ^ 64 = r.gen0 % 2 ^ 64 then .closing r r.ends else retry r.tries
  | .closing r (e :: rest) =>
    if e ∈ r.marked ∨ s.closedByMe e then .closing r rest else .closingEnd r e rest
  | .closing _ [] => .idle
  | .closingEnd r _ rest => .closing r rest

/-- What the collector writes: the exchange on `closed_by_me`, then the
section of `close`. -/
def write : Pc → State
  | .closing r (e :: _) =>
    if e ∈ r.marked then s else { s with closedByMe := update s.closedByMe e true }
  | .closingEnd _ e _ => s.close e
  | _ => s

def collect (i : Nat) : State :=
  match s.cols[i]? with
  | some pc => { s.write pc with cols := s.cols.set i (s.next pc) }
  | none => s

def step : Action → State
  | .create => s.create
  | .insertNew p e => s.insertNew p e
  | .insertFail e => s.insertFail e
  | .duplicate p e =>
    s.onProc p fun pr => if e ∈ pr.handles then { pr with handles := pr.handles ++ [e] } else pr
  | .closeHandle p e => s.onProc p fun pr => { pr with handles := pr.handles.erase e }
  | .exitTake p => s.onProc p fun pr => { pr with handles := [] }
  | .exitLeave p => s.onProc p fun pr => { pr with live := false }
  | .get t p e => s.get t p e
  | .release t => s.release t
  | .openGen t => s.openGen t
  | .openCount t => s.openCount t
  | .take t p es => s.take t p es
  | .push t => s.push t
  | .pop t => s.pop t
  | .insert t p n => s.insert t p n
  | .spawn t => s.spawn t
  | .closeWindow t => s.closeWindow t
  | .drop e => s.drop e
  | .collect i => s.collect i

def run (as : List Action) : State := as.foldl step s

end State
end NexoOS.Kernel.Collector
