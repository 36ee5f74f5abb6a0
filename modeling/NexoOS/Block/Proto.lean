import NexoOS.Lib.Bytes

/-!
# The `nexo.block` protocol

What `abi/proto/src/lib.rs` and the code generated from `idl/block.idl` make
of the bytes of a request, and the replies that the block drivers send.
Replies are kept as values; the generated encoders turn each into its own
bytes, and every one of them fits into the driver's 4096-byte buffers.
-/

namespace NexoOS.Block

def magic : Nat := 0x4E584950
def headerLen : Nat := 24
def protocolId : Nat := 0xda8aae52
def versionMajor : Nat := 1

/-- The longest `data` field of the protocol, seven sectors. -/
def dataMax : Nat := 3584

def sectorSize : Nat := 512
def maxSectors : Nat := 7

inductive ProtoError where
  | short | tooBig | magic | protocol | version | method | flags | length
deriving DecidableEq, Repr

structure Header where
  protocolId : Nat
  versionMajor : Nat
  versionMinor : Nat
  methodId : Nat
  flags : Nat
  payloadLen : Nat
deriving DecidableEq, Repr

variable (msg : List UInt8)

/-- A message as a buffer; bytes past its end are never asked for. -/
def bufOf : Nat → UInt8 := fun i => msg.getD i 0

/-- `Header::decode`: magic, reserved flags and the exact payload length. -/
def Header.decode : Except ProtoError Header :=
  if msg.length < headerLen then .error .short
  else
    let b := bufOf msg
    if leAt b 0 4 ≠ magic then .error .magic
    else
      let h : Header :=
        { protocolId := leAt b 4 4, versionMajor := leAt b 8 2, versionMinor := leAt b 10 2,
          methodId := leAt b 12 4, flags := leAt b 16 4, payloadLen := leAt b 20 4 }
      -- `KNOWN_FLAGS` are the three low bits
      if h.flags / 8 ≠ 0 then .error .flags
      else if msg.length ≠ headerLen + h.payloadLen then .error .length
      else .ok h

inductive Request where
  | read (sector count : Nat)
  | write (sector count : Nat) (data : List UInt8)
  | capacity
  | identity
deriving DecidableEq, Repr

/-- `ReadRequest::decode_payload`; bytes past the fields are ignored. -/
def decodeRead (p : List UInt8) : Except ProtoError Request :=
  if p.length < 12 then .error .short
  else .ok (.read (leAt (bufOf p) 0 8) (leAt (bufOf p) 8 4))

def decodeWrite (p : List UInt8) : Except ProtoError Request :=
  if p.length < 16 then .error .short
  else
    let l := leAt (bufOf p) 12 4
    if l > dataMax then .error .tooBig
    else if 16 + l > p.length then .error .short
    else .ok (.write (leAt (bufOf p) 0 8) (leAt (bufOf p) 8 4) ((p.drop 16).take l))

def decodeRequest : Except ProtoError Request :=
  match Header.decode msg with
  | .error e => .error e
  | .ok h =>
    if h.protocolId ≠ protocolId then .error .protocol
    else if h.versionMajor ≠ versionMajor then .error .version
    else if h.flags ≠ 0 then .error .flags
    else
      let p := (msg.drop headerLen).take h.payloadLen
      match h.methodId with
      | 1 => decodeRead p
      | 2 => decodeWrite p
      | 3 => .ok .capacity
      | 4 => .ok .identity
      | _ => .error .method

inductive Reply where
  | read (data : List UInt8)
  | write
  | capacity (sectors : Nat)
  | identity (readOnly : Bool) (serial : List UInt8)
  | error (method code : Nat)
deriving DecidableEq, Repr

def readMethod : Nat := 1
def writeMethod : Nat := 2

def ioMethod (write : Bool) : Nat := if write then writeMethod else readMethod

/-- A message on the request channel. `handles` is how many handles ride on
it; the protocol itself uses none. -/
structure Message where
  data : List UInt8
  handles : Nat
deriving DecidableEq, Repr

/-! ## Disks and commands -/

abbrev Disk := Nat → UInt8

/-- A read or write for the device. -/
structure Command where
  write : Bool
  sector : Nat
  count : Nat
  /-- What a write transfers. -/
  data : List UInt8
deriving DecidableEq, Repr

def Command.bytes (c : Command) : Nat := c.count * sectorSize

/-- What a driver makes of a request: a reply at once, or a command. -/
inductive Plan where
  | reply (r : Reply)
  | io (c : Command)
deriving DecidableEq, Repr

/-- The reply once the device has put `status` and, for a read, filled `page`. -/
def ioReply (write : Bool) (len status : Nat) (page : Nat → UInt8) : Reply :=
  if status ≠ 0 then .error (ioMethod write) (0x10 ||| status % 16)
  else if write then .write
  else .read (bytes page 0 len)

/-- `r` is a right answer to a request with this plan, if `disk` is what the
disk holds when the device has carried out the command. A read returns the
bytes of its own sectors, a write leaves its own bytes there, and a command
that fails is answered with the device's status. -/
def Plan.Answers (disk : Disk) (r : Reply) : Plan → Prop
  | .reply r' => r = r'
  | .io c =>
    (∃ status, status ≠ 0 ∧ r = .error (ioMethod c.write) (0x10 ||| status % 16)) ∨
    (c.write = false ∧ r = .read (bytes disk (c.sector * sectorSize) c.bytes)) ∨
    (c.write = true ∧ r = .write ∧
      bytes disk (c.sector * sectorSize) c.bytes = c.data.take c.bytes)

theorem bytes_bufOf {data : List UInt8} {n : Nat} (h : n ≤ data.length) :
    bytes (bufOf data) 0 n = data.take n := by
  refine List.ext_getElem (by simp [h]) fun i hi _ => ?_
  rw [length_bytes] at hi
  simp [bytes, bufOf, List.getD_eq_getElem?_getD, Nat.lt_of_lt_of_le hi h]

theorem answers_ioReply {c : Command} {disk : Disk} {status : Nat} {page : Nat → UInt8}
    (hread : status = 0 → c.write = false →
      bytes page 0 c.bytes = bytes disk (c.sector * sectorSize) c.bytes)
    (hwrite : status = 0 → c.write = true →
      bytes disk (c.sector * sectorSize) c.bytes = c.data.take c.bytes) :
    (Plan.io c).Answers disk (ioReply c.write c.bytes status page) := by
  unfold ioReply
  by_cases hst : status = 0
  · rw [if_neg (by simp [hst])]
    cases hw : c.write with
    | false => exact .inr (.inl ⟨hw, by rw [hread hst hw]; rfl⟩)
    | true => exact .inr (.inr ⟨hw, rfl, hwrite hst hw⟩)
  · rw [if_pos hst]
    exact .inl ⟨status, hst, rfl⟩

/-! ## The request channel -/

/-- `CHANNEL_QUEUE_MAX`, `HANDLES_MAX`. -/
def channelQueueMax : Nat := 64
def handlesMax : Nat := 256

/-- The driver's end of the channel. The client takes the replies as they
come, so they are a log and not a queue that fills. -/
structure Chan where
  inbox : List Message
  closed : Bool
  /-- Handles in the driver's table, its device and this channel among them. -/
  handles : Nat
  /-- The messages that the driver has received, first to last. -/
  received : List Message
  replies : List Reply

inductive Recv where
  | ok (msg : Message)
  | wouldBlock
  | peerClosed
  | failed
deriving DecidableEq, Repr

namespace Chan

def start : Chan := { inbox := [], closed := false, handles := 2, received := [], replies := [] }

variable (c : Chan)

/-- The client sends. A full queue or a closed end refuses the message. -/
def send (m : Message) : Chan :=
  if c.closed ∨ c.inbox.length ≥ channelQueueMax then c else { c with inbox := c.inbox ++ [m] }

/-- The driver has received `m`. -/
def took (m : Message) (rest : List Message) : Chan :=
  { c with inbox := rest, handles := c.handles + m.handles, received := c.received ++ [m] }

/-- The kernel's `channel_try_recv` with a buffer of 4096 bytes and room for
one handle. A message with more handles, or with one that the table has no
room for, is lost and the call fails. -/
def tryRecv : Recv × Chan :=
  match c.inbox with
  | [] => (if c.closed then .peerClosed else .wouldBlock, c)
  | m :: rest =>
    if m.handles > 1 ∨ c.handles + m.handles > handlesMax then
      (.failed, { c with inbox := rest })
    else (.ok m, c.took m rest)

def reply (r : Reply) : Chan := { c with replies := c.replies ++ [r] }

theorem received_send (m : Message) :
    (c.send m).received = c.received ∧ (c.send m).replies = c.replies := by
  unfold send
  split <;> exact ⟨rfl, rfl⟩

theorem tryRecv_ok {c c' : Chan} {m : Message} (h : c.tryRecv = (.ok m, c')) :
    ∃ rest, c.inbox = m :: rest ∧ c' = c.took m rest := by
  unfold tryRecv at h
  cases hin : c.inbox with
  | nil =>
    rw [hin] at h
    dsimp only at h
    split at h <;> exact nomatch h
  | cons m' rest =>
    rw [hin] at h
    dsimp only at h
    split at h
    · cases h
    · cases h
      exact ⟨rest, rfl, rfl⟩

/-- What is in the channel comes from the client: its messages, that it is
closed, and every handle past the driver's own two. -/
structure From (sent : Message → Prop) (closing : Prop) (c : Chan) : Prop where
  inbox : ∀ m ∈ c.inbox, sent m
  closed : c.closed = true → closing
  handles : 2 < c.handles → ∃ m, sent m ∧ 0 < m.handles

namespace From

variable {sent sent' : Message → Prop} {closing closing' : Prop} {c : Chan}

theorem start (sent : Message → Prop) (closing : Prop) : Chan.start.From sent closing where
  inbox := by simp [Chan.start]
  closed := by simp [Chan.start]
  handles := fun h => absurd h (Nat.lt_irrefl 2)

section
variable (h : c.From sent closing)
include h

theorem mono (hsent : ∀ m, sent m → sent' m)
    (hclosing : closing → closing') : c.From sent' closing' where
  inbox := fun m hm => hsent m (h.inbox m hm)
  closed := fun hc => hclosing (h.closed hc)
  handles := fun hh => (h.handles hh).imp fun m hm => ⟨hsent m hm.1, hm.2⟩

theorem send {m : Message} (hm : sent m) : (c.send m).From sent closing := by
  unfold Chan.send
  split
  · exact h
  refine ⟨fun m' hm' => ?_, h.closed, h.handles⟩
  rcases List.mem_append.mp hm' with hm' | hm'
  · exact h.inbox m' hm'
  · exact List.mem_singleton.mp hm' ▸ hm

theorem close (hc : closing) : { c with closed := true }.From sent closing :=
  ⟨h.inbox, fun _ => hc, h.handles⟩

theorem reply (r : Reply) : (c.reply r).From sent closing :=
  ⟨h.inbox, h.closed, h.handles⟩

theorem tryRecv : c.tryRecv.2.From sent closing := by
  unfold Chan.tryRecv
  rcases hin : c.inbox with _ | ⟨m, rest⟩
  · exact h
  have hrest : ∀ m' ∈ rest, sent m' := fun m' hm' =>
    h.inbox m' (hin ▸ List.mem_cons_of_mem m hm')
  dsimp only
  split
  · exact ⟨hrest, h.closed, h.handles⟩
  refine ⟨hrest, h.closed, fun hh => ?_⟩
  by_cases hm : 0 < m.handles
  · exact ⟨m, h.inbox m (hin ▸ List.mem_cons_self), hm⟩
  refine h.handles ?_
  have : c.handles + m.handles > 2 := hh
  omega

theorem peerClosed (hrecv : c.tryRecv.1 = .peerClosed) : closing := by
  unfold Chan.tryRecv at hrecv
  split at hrecv
  · split at hrecv
    · rename_i hc
      exact h.closed hc
    · cases hrecv
  · split at hrecv <;> exact nomatch hrecv

/-- Only a message with a handle makes a receive fail. -/
theorem failed (hrecv : c.tryRecv.1 = .failed) : ∃ m, sent m ∧ 0 < m.handles := by
  unfold Chan.tryRecv at hrecv
  split at hrecv
  · split at hrecv <;> exact nomatch hrecv
  rename_i m rest hin
  split at hrecv
  · rename_i hfail
    by_cases hm : 0 < m.handles
    · exact ⟨m, h.inbox m (hin ▸ List.mem_cons_self), hm⟩
    refine h.handles ?_
    unfold handlesMax at hfail
    omega
  · cases hrecv

end

end From
end Chan
end NexoOS.Block
