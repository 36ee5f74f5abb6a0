import NexoOS.Fat.Rewrite
import NexoOS.Update.Slots

/-!
# Loader, update service and runs of a machine

`load_system` of the boot loader, the requests `confirma` and `aplica` of the
update service, and the runs of a machine on which boots, requests and power
cuts follow each other. A cut is possible after any sector write.
-/

namespace NexoOS.Update

open Fat Function Prog

/-! ## Files of the system partition -/

def ascii (s : String) : List UInt8 := s.toList.map fun c => UInt8.ofNat c.toNat

def slotsPath : List UInt8 := ascii "/nexo/slots.bin"

def kernelPath (i : Fin 2) : List UInt8 :=
  if i = 0 then ascii "/nexo/a/kernel.elf" else ascii "/nexo/b/kernel.elf"

def initrdPath (i : Fin 2) : List UInt8 :=
  if i = 0 then ascii "/nexo/a/initrd" else ascii "/nexo/b/initrd"

/-- `kernel.elf` and `initrd` of a slot. -/
structure Pair where
  kernel : List UInt8
  initrd : List UInt8
  deriving DecidableEq

variable (v : Volume) (img : Image)

def Holds (i : Fin 2) (p : Pair) : Prop :=
  v.readFile img (kernelPath i) = .ok p.kernel ∧ v.readFile img (initrdPath i) = .ok p.initrd

/-- The checks of `ElfFile::parse`. -/
def elfParses (data : List UInt8) : Bool :=
  let b := fun i => data.getD i 0
  let phentsize := leAt b 0x36 2
  let phnum := leAt b 0x38 2
  data.take 4 = [0x7f, 0x45, 0x4c, 0x46] ∧ b 4 = 2 ∧ b 5 = 1 ∧ 0x3a ≤ data.length ∧
    leAt b 0x10 2 = 2 ∧ leAt b 0x12 2 = 0x3e ∧ 56 ≤ phentsize ∧ phnum ≠ 0 ∧ phnum ≤ 64 ∧
    leAt b 0x20 8 + phentsize * phnum < 2 ^ 64 ∧ leAt b 0x20 8 + phentsize * phnum ≤ data.length

/-! ## The loader -/

inductive Booted where
  | slot (i : Fin 2) (p : Pair)
  | classic (p : Pair)
  | recovery (p : Pair)
  deriving DecidableEq

/-- The loader's programs; an error ends the boot. -/
abbrev LoaderM := Prog Unit String Sector

def readSlots : Option SlotState :=
  match v.readFile img slotsPath with
  | .error _ => none
  | .ok data => SlotState.decode data

/-- The file, or nothing. -/
def readOrEmpty (path : List UInt8) : List UInt8 :=
  match v.readFile img path with
  | .error _ => []
  | .ok data => data

/-- Boots without slots: the files of older images. -/
def loadClassic : LoaderM Booted :=
  reading fun img =>
    match v.readFile img (ascii "/nexo/kernel.elf") with
    | .error _ => .error "nao foi possivel ler \\nexo\\kernel.elf"
    | .ok kernel => .ok (.classic ⟨kernel, readOrEmpty v img (ascii "/nexo/initrd")⟩)

def loadRecovery : LoaderM Booted :=
  reading fun img =>
    match v.readFile img (ascii "/nexo/recovery/kernel.elf") with
    | .error _ => .error "RECUPERACAO indisponivel: \\nexo\\recovery\\kernel.elf ilegivel"
    | .ok kernel =>
      if elfParses kernel then
        .ok (.recovery ⟨kernel, readOrEmpty v img (ascii "/nexo/recovery/initrd")⟩)
      else .error "RECUPERACAO indisponivel: kernel de recuperacao invalido"

variable (st : SlotState)

/-- The kernel of a slot that can be booted. -/
def bootable (i : Fin 2) : Option (List UInt8) :=
  if st.eligible i then
    match v.readFile img (kernelPath i) with
    | .error _ => none
    | .ok kernel => if elfParses kernel then some kernel else none
  else none

/-- The chosen slot, or else the other one. -/
def firstBootable (chosen : Fin 2) : Option (Fin 2 × List UInt8) :=
  match bootable v img st chosen with
  | some kernel => some (chosen, kernel)
  | none => (bootable v img st (other chosen)).map fun kernel => (other chosen, kernel)

/-- The state after slot `i` was selected: a pending slot has one try less. -/
def SlotState.select (i : Fin 2) : SlotState :=
  let s := st.slot i
  let s := if s.successful = 0 then { s with triesRemaining := s.triesRemaining - 1 } else s
  { slot := update st.slot i s, lastSelected := UInt8.ofNat i }

/-- Where the block of state lies: the first sector of `slots.bin`. -/
def slotsLba : Except FatError Nat :=
  match v.lookup img slotsPath with
  | .error e => .error e
  | .ok e => v.clusterLba e.cluster

/-- Writes the state in place; a failure is only logged. -/
def writeSlots : LoaderM Unit := do
  let lba ← reading fun img => .ok (slotsLba v img)
  match lba with
  | .error _ => pure ()
  | .ok lba => write lba st.encode

/-- `load_system`: the state goes to disk before the slot is loaded. -/
def loadSystem : LoaderM Booted := do
  let state ← reading fun img => .ok (readSlots v img)
  match state with
  | none => loadClassic v
  | some st =>
    match st.choose with
    | none => loadRecovery v
    | some chosen => do
      let found ← reading fun img => .ok (firstBootable v img st chosen)
      match found with
      | none => loadRecovery v
      | some (i, kernel) => do
        writeSlots v (st.select i)
        reading fun img => .ok (.slot i ⟨kernel, readOrEmpty v img (initrdPath i)⟩)

/-! ## The update service -/

/-- The running service: the mounted partition and the sector of the state. -/
structure Upd where
  fs : Volume
  lba : Nat

/-- The service starts, or exits with a code. -/
def Upd.start (count base : Nat) : Except Nat Upd :=
  match mount img count base with
  | .error _ => .error 12
  | .ok fs =>
    match fs.lookup img slotsPath with
    | .error _ => .error 13
    | .ok e =>
      if e.size ≠ slotsBytes then .error 14
      else
        match fs.clusterLba e.cluster with
        | .error _ => .error 15
        | .ok lba => .ok { fs, lba }

inductive Reply where
  | erroEstado
  | ok (i : Fin 2)
  | aplicado (i : Fin 2)
  deriving DecidableEq

def triesReset : UInt8 := 3

/-- The largest file that is copied between slots. -/
def fileMax : Nat := 8 * 1024 * 1024

namespace SlotState

variable (st : SlotState)

/-- The slot the requests take for the running one. -/
def selected : Fin 2 := if st.lastSelected = 0 then 0 else 1

/-- The selected slot is healthy; the other one, if confirmed, steps back. -/
def confirm : SlotState :=
  let sel := st.selected
  let o := st.slot (other sel)
  { st with
    slot := update
      (update st.slot sel { priority := 2, triesRemaining := triesReset, successful := 1 })
      (other sel) (if o.successful = 1 then { o with priority := 1 } else o) }

def pend (dst : Fin 2) : SlotState :=
  { st with
    slot := update st.slot dst { priority := 3, triesRemaining := triesReset, successful := 0 } }

end SlotState

namespace Upd

variable (u : Upd)

def readState (img : Image) : Option SlotState :=
  SlotState.decode (bytes (img u.lba) 0 slotsBytes)

def confirma : FatM Reply := do
  let state ← reading fun img => .ok (u.readState img)
  match state with
  | none => pure .erroEstado
  | some st => do
    write u.lba st.confirm.encode
    pure (.ok st.selected)

/-- The whole file, if it fits the buffer. -/
def readAll (fs : Volume) (path : List UInt8) (img : Image) : Except FatError (List UInt8) :=
  match fs.lookup img path with
  | .error e => .error e
  | .ok e =>
    if fileMax < e.size then .error .io
    else
      match fs.read img e 0 e.size with
      | .error e => .error e
      | .ok data => if data.length ≠ e.size then .error .io else .ok data

def copyFile (fs : Volume) (src dst : List UInt8) : FatM Unit := do
  let data ← reading (readAll fs src)
  fs.rewriteFile dst data.length fun off n => some ((data.drop off).take n)

def copySlot (fs : Volume) (src dst : Fin 2) : FatM Unit := do
  copyFile fs (kernelPath src) (kernelPath dst)
  copyFile fs (initrdPath src) (initrdPath dst)

/-- `aplica`; an error is answered with `erro copia`. -/
def aplica : FatM Reply := do
  let state ← reading fun img => .ok (u.readState img)
  match state with
  | none => pure .erroEstado
  | some st => do
    let dst := other st.selected
    copySlot u.fs st.selected dst
    write u.lba (st.pend dst).encode
    pure (.aplicado dst)

end Upd

/-! ## Runs -/

/-- A booted system and its update service, unless that exited. -/
structure Session where
  booted : Booted
  upd : Option Upd

/-- The disk, the running system, and per slot the pair last booted and
confirmed in it. -/
structure Machine where
  img : Image
  session : Option Session
  confirmed : Fin 2 → Option Pair

/-- What happens to a machine. With `cut = some k` the power fails after the
first `k` sector writes. -/
inductive Event where
  | powerOff
  | boot (cut : Option Nat)
  | confirma (cut : Option Nat)
  | aplica (cut : Option Nat)

def reaching (cut : Option Nat) (ws : Writes Sector) : Writes Sector :=
  match cut with
  | none => ws
  | some k => ws.take k

namespace Machine

variable (count base : Nat)

/-- The system that runs after the loader, unless the power failed. -/
def afterBoot (img : Image) (cut : Option Nat) (r : Except String Booted) : Option Session :=
  match cut, r with
  | none, .ok booted => some { booted, upd := (Upd.start img count base).toOption }
  | _, _ => none

variable (m : Machine) (cut : Option Nat)

def boot : Machine :=
  match mount m.img count base with
  | .error _ => { m with session := none }
  | .ok v =>
    let r := loadSystem v () m.img
    let img := m.img.writeAll (reaching cut r.2.2)
    { m with img, session := afterBoot count base img cut r.1 }

def afterRequest (s : Option Session) : Option Session :=
  match cut with
  | none => s
  | some _ => none

def noteConfirmed (confirmed : Fin 2 → Option Pair) (booted : Booted) : Fin 2 → Option Pair :=
  match booted with
  | .slot i p => update confirmed i (some p)
  | _ => confirmed

/-- A request to the service of a running system. The slot is confirmed when
the write of `confirma` reaches the disk. -/
def confirma : Machine :=
  match m.session with
  | some { booted, upd := some u } =>
    let ws := reaching cut (u.confirma () m.img).2.2
    { img := m.img.writeAll ws
      session := afterRequest cut m.session
      confirmed := if ws.isEmpty then m.confirmed else noteConfirmed m.confirmed booted }
  | _ => m

def aplica : Machine :=
  match m.session with
  | some { upd := some u, .. } =>
    { m with
      img := m.img.writeAll (reaching cut (u.aplica () m.img).2.2)
      session := afterRequest cut m.session }
  | _ => m

def step : Event → Machine
  | .powerOff => { m with session := none }
  | .boot cut => m.boot count base cut
  | .confirma cut => m.confirma cut
  | .aplica cut => m.aplica cut

def run (es : List Event) : Machine := es.foldl (step count base) m

end Machine
end NexoOS.Update
