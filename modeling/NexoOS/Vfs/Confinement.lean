import NexoOS.Vfs.Server
import NexoOS.Lib.Confine

/-! # An operation of a session stays within the session's mounts

Three parts of the state belong to a mount each. Every operation is confined
to the parts of the mask it runs with: it asks a service, or uses a table, only
behind the test of that mount's bit. -/

namespace NexoOS.Vfs

open Confine Function

inductive Mount where
  | disk
  | boot
  | tmp
  deriving DecidableEq, Repr

def Mount.bit : Mount → UInt64
  | .disk => MOUNT_DISK
  | .boot => MOUNT_BOOT
  | .tmp => MOUNT_TMP

def mountsOf (mask : UInt64) : Set Mount := {m | mask &&& m.bit ≠ 0}

theorem mountsOf_and (a b : UInt64) : mountsOf (a &&& b) ⊆ mountsOf b := by
  intro m hm h
  apply hm
  rw [UInt64.and_assoc, h, UInt64.and_zero]

section Parts

variable {D E : Type}

/-- What a mount consists of; the inode numbers of `/boot` are part of it. -/
def Part (D E : Type) : Mount → Type
  | .disk => D
  | .boot => E × BootTable
  | .tmp => Ramfs

def World.view (w : World D E) : (m : Mount) → Part D E m
  | .disk => w.disk
  | .boot => (w.esp, w.bootTable)
  | .tmp => w.ram

variable {S : Set Mount}

/-! ## The steps on the state -/

variable {fs : D → FsRequest → D × Option Reply}
variable {esp : E → EspRequest → E × Option (Message EspResponse)}

theorem confined_callFs (hm : Mount.disk ∈ S) (rq : FsRequest) :
    Confined World.view S (callFs fs rq : VfsM D E _) := by
  refine .onPart hm (fun d : D => ((fs d rq).2, (fs d rq).1)) (fun _ => rfl) (fun _ => rfl)
    fun w m hne => ?_
  cases m with
  | disk => exact absurd rfl hne
  | boot | tmp => rfl

theorem confined_callEsp (hm : Mount.boot ∈ S) (rq : EspRequest) :
    Confined World.view S (callEsp esp rq : VfsM D E _) := by
  refine .onPart hm (fun p : E × BootTable => ((esp p.1 rq).2, (esp p.1 rq).1, p.2))
    (fun _ => rfl) (fun _ => rfl) fun w m hne => ?_
  cases m with
  | boot => exact absurd rfl hne
  | disk | tmp => rfl

theorem confined_bootTable (hm : Mount.boot ∈ S) : Confined World.view S (bootTable : VfsM D E _) :=
  .onPart hm (fun p : E × BootTable => (p.2, p)) (fun _ => rfl) (fun _ => rfl) fun _ _ _ => rfl

theorem confined_setBootTable (hm : Mount.boot ∈ S) (t : BootTable) :
    Confined World.view S (setBootTable t : VfsM D E _) := by
  refine .onPart hm (fun p : E × BootTable => ((), p.1, t)) (fun _ => rfl) (fun _ => rfl)
    fun w m hne => ?_
  cases m with
  | boot => exact absurd rfl hne
  | disk | tmp => rfl

theorem confined_ramfs (hm : Mount.tmp ∈ S) : Confined World.view S (ramfs : VfsM D E _) :=
  .onPart hm (fun r : Ramfs => (r, r)) (fun _ => rfl) (fun _ => rfl) fun _ _ _ => rfl

theorem confined_setRamfs (hm : Mount.tmp ∈ S) (r : Ramfs) :
    Confined World.view S (setRamfs r : VfsM D E _) := by
  refine .onPart hm (fun _ : Ramfs => ((), r)) (fun _ => rfl) (fun _ => rfl) fun w m hne => ?_
  cases m with
  | tmp => exact absurd rfl hne
  | disk | boot => rfl

theorem confined_bootRemember (hm : Mount.boot ∈ S) (path : List UInt8) :
    Confined World.view S (bootRemember path : VfsM D E _) := by
  refine .bind (confined_bootTable hm) fun t => ?_
  cases t.remember path with
  | none => exact .throw _
  | some r => exact .bind (confined_setBootTable hm _) fun _ => .pure _

end Parts

/-! ## The files of `/tmp` -/

namespace Ramfs

variable (r : Ramfs) (i : Fin RAM_FILES)

/-- The new file takes over the bytes that the last file in its place had. -/
def create (name : List UInt8) : Ramfs :=
  update r i { r i with used := true, name := name, size := 0 }

def unlink : Ramfs :=
  update r i { r i with used := false }

def rename (name : List UInt8) : Ramfs :=
  update r i { r i with name := name }

def write (offset : Nat) (data : List UInt8) (stop : Nat) : Ramfs :=
  update r i { r i with
    data := splice (r i).data offset data.length fun j => data.getD j 0
    size := max (r i).size (UInt32.ofNat stop) }

def truncate (size : UInt64) : Ramfs :=
  if size < (r i).size.toUInt64 then update r i { r i with size := size.toUInt32 } else r

/-- A change of the files by one request. -/
inductive Step (r : Ramfs) : Ramfs → Prop where
  | create {i : Fin RAM_FILES} {name : List UInt8} (hname : badName name = false)
      (hnew : r.find name = none) (hfree : r.free = some i) : Step r (r.create i name)
  | unlink {i : Fin RAM_FILES} {name : List UInt8} (hold : r.find name = some i) :
      Step r (r.unlink i)
  | rename {i : Fin RAM_FILES} {src dst : List UInt8} (hname : badName dst = false)
      (hnew : r.find dst = none) (hold : r.find src = some i) : Step r (r.rename i dst)
  | write {i : Fin RAM_FILES} {offset : Nat} {data : List UInt8} {stop : Nat}
      (hused : (r i).used = true) (hstop : stop = (offset + data.length) % 2 ^ 64)
      (hmax : stop ≤ RAM_FILE_MAX) (hwrap : offset ≤ stop) : Step r (r.write i offset data stop)
  | truncate {i : Fin RAM_FILES} (size : UInt64) (hused : (r i).used = true) :
      Step r (r.truncate i size)

end Ramfs

/-- The path lies on `/tmp`, and the mask has it. -/
def OnTmp (mounts : UInt64) (path : List UInt8) : Prop :=
  (splitMount path).1 = tmpName ∧ mounts &&& MOUNT_TMP ≠ 0

/-- The requests that may change the files of `/tmp`. -/
def ChangesTmp (mounts : UInt64) : FsRequest → Prop
  | .create path => OnTmp mounts (pathOf path)
  | .unlink path => OnTmp mounts (pathOf path)
  | .rename src _ => OnTmp mounts (pathOf src)
  | .write ino _ _ => tagOf ino = TAG_TMP ∧ mounts &&& MOUNT_TMP ≠ 0
  | .truncate ino _ => tagOf ino = TAG_TMP ∧ mounts &&& MOUNT_TMP ≠ 0
  | _ => False

theorem ramFile_used {r : Ramfs} {raw : UInt32} {i : Fin RAM_FILES} (h : ramFile r raw = some i) :
    (r i).used = true ∧ i.val = raw.toNat := by
  unfold ramFile at h
  split at h
  · split at h
    · rename_i hused
      cases h
      exact ⟨hused, rfl⟩
    · cases h
  · cases h

/-! ## How the operations are put together -/

section Uses

variable {D E : Type} {fs : D → FsRequest → D × Option Reply}
variable {esp : E → EspRequest → E × Option (Message EspResponse)}
variable {S : Set Mount} {boot tmp : Prop} {α β : Type}

/-- What follows a look at the files `r` of `/tmp`: a failure, or a step of them. -/
inductive Updates (tmp : Prop) (r : Ramfs) : VfsM D E α → Prop where
  | throw (e : Stop) : Updates tmp r (throw e)
  | set {r' : Ramfs} (htmp : tmp) (h : r.Step r') (a : α) : Updates tmp r (do
      setRamfs r'
      pure a)

/-- An operation that asks a service, or uses a table, only of the mounts `S`. It
remembers a path only if `boot`, and changes the files of `/tmp` only if `tmp`. -/
inductive Uses (fs : D → FsRequest → D × Option Reply)
    (esp : E → EspRequest → E × Option (Message EspResponse)) (S : Set Mount) (boot tmp : Prop) :
    {α : Type} → VfsM D E α → Prop where
  | pure {α : Type} (a : α) : Uses fs esp S boot tmp (pure a)
  | throw {α : Type} (e : Stop) : Uses fs esp S boot tmp (throw e : VfsM D E α)
  | bind {α β : Type} {x : VfsM D E α} {f : α → VfsM D E β} (hx : Uses fs esp S boot tmp x)
      (hf : ∀ a, Uses fs esp S boot tmp (f a)) : Uses fs esp S boot tmp (x >>= f)
  | callFs (hm : Mount.disk ∈ S) (rq : FsRequest) : Uses fs esp S boot tmp (callFs fs rq)
  | callEsp (hm : Mount.boot ∈ S) (rq : EspRequest) : Uses fs esp S boot tmp (callEsp esp rq)
  | bootTable (hm : Mount.boot ∈ S) : Uses fs esp S boot tmp bootTable
  | bootRemember (hm : Mount.boot ∈ S) (hboot : boot) (path : List UInt8) :
      Uses fs esp S boot tmp (bootRemember path)
  | ramfs (hm : Mount.tmp ∈ S) : Uses fs esp S boot tmp ramfs
  | update {α : Type} {f : Ramfs → VfsM D E α} (hm : Mount.tmp ∈ S)
      (hf : ∀ r, Updates tmp r (f r)) : Uses fs esp S boot tmp (ramfs >>= f)

theorem Uses.confined {x : VfsM D E α} (h : Uses fs esp S boot tmp x) :
    Confined World.view S x := by
  induction h with
  | pure a => exact .pure a
  | throw e => exact .throw e
  | bind _ _ hx hf => exact .bind hx hf
  | callFs hm rq => exact confined_callFs hm rq
  | callEsp hm rq => exact confined_callEsp hm rq
  | bootTable hm => exact confined_bootTable hm
  | bootRemember hm _ path => exact confined_bootRemember hm path
  | ramfs hm => exact confined_ramfs hm
  | @update α f hm hf =>
    refine .bind (confined_ramfs hm) fun r => ?_
    have hr := hf r
    generalize f r = y at hr ⊢
    cases hr with
    | throw e => exact .throw e
    | set _ _ a => exact .bind (confined_setRamfs hm _) fun _ => .pure a

theorem Uses.ite {p : Prop} [Decidable p] {x y : VfsM D E α} (hx : p → Uses fs esp S boot tmp x)
    (hy : ¬ p → Uses fs esp S boot tmp y) : Uses fs esp S boot tmp (if p then x else y) := by
  split
  · exact hx ‹_›
  · exact hy ‹_›

theorem Uses.fails (c : UInt8) : Uses fs esp S boot tmp (Vfs.fails c : VfsM D E α) := .throw _

theorem Uses.orFail (x : Except UInt8 α) : Uses fs esp S boot tmp (Vfs.orFail x : VfsM D E α) := by
  cases x with
  | ok a => exact .pure a
  | error c => exact .fails c

theorem Uses.roundtripFs (hm : Mount.disk ∈ S) (rq : FsRequest) :
    Uses fs esp S boot tmp (Vfs.roundtripFs fs rq) :=
  .bind (.callFs hm rq) fun _ => .pure _

theorem Uses.roundtripEsp (hm : Mount.boot ∈ S) (rq : EspRequest) :
    Uses fs esp S boot tmp (Vfs.roundtripEsp esp rq) :=
  .bind (.callEsp hm rq) fun _ => .pure _

/-- A request to `fs` whose answer is decoded and shaped: what every operation
does on `/disk`. -/
theorem Uses.onDisk (hm : Mount.disk ∈ S) (rq : FsRequest)
    (dec : Message FsResponse → Except UInt8 α) (f : α → β) : Uses fs esp S boot tmp (do
      let m ← Vfs.roundtripFs fs rq
      let r ← Vfs.orFail (dec m)
      Pure.pure (f r) : VfsM D E β) :=
  .bind (.roundtripFs hm rq) fun _ => .bind (.orFail _) fun _ => .pure _

end Uses

/-! ## The operations -/

/-- The tag of the inode numbers of a mount. -/
def Mount.tag : Mount → UInt32
  | .disk => TAG_DISK
  | .boot => TAG_BOOT
  | .tmp => TAG_TMP

section Operations

variable {D E : Type} {fs : D → FsRequest → D × Option Reply}
variable {esp : E → EspRequest → E × Option (Message EspResponse)} {mounts : UInt64}
variable {boot tmp : Prop}

theorem uses_stat (hboot : boot) (path : List UInt8) :
    Uses fs esp (mountsOf mounts) boot tmp (stat fs esp mounts path) := by
  refine .ite (fun _ => .pure _) fun _ => .ite (fun h => .onDisk h.2 _ _ _) fun _ =>
    .ite (fun h => ?boot) fun _ => .ite (fun h => ?tmp) fun _ => .fails _
  case boot =>
    refine .bind (.roundtripEsp h.2 _) fun m => ?_
    split
    · exact .bind (.bootRemember h.2 hboot _) fun _ => .pure _
    · exact .fails _
  case tmp =>
    refine .ite (fun _ => .pure _) fun _ => .bind (.ramfs h.2) fun r => ?_
    split
    · exact .fails _
    · exact .pure _

theorem uses_create {path : List UInt8} {dir : Bool}
    (htmp : OnTmp mounts path → dir = false → tmp) :
    Uses fs esp (mountsOf mounts) boot tmp (create fs mounts path dir) := by
  refine .ite (fun h => .ite (fun _ => .onDisk h.2 _ _ _) fun _ => .onDisk h.2 _ _ _) fun _ =>
    .ite (fun _ => .fails _) fun _ => .ite (fun h => ?tmp) fun _ => .fails _
  case tmp =>
    refine .ite (fun _ => .fails _) fun hdir => .ite (fun _ => .fails _) fun hname =>
      .update h.2 fun r => ?_
    split
    · exact .throw _
    rename_i hnew
    split
    · exact .throw _
    rename_i i hfree
    exact .set (htmp h (Bool.eq_false_iff.mpr hdir)) (.create (Bool.eq_false_iff.mpr hname)
      (Option.not_isSome_iff_eq_none.mp hnew) hfree) _

theorem uses_unlink {path : List UInt8} (htmp : OnTmp mounts path → tmp) :
    Uses fs esp (mountsOf mounts) boot tmp (unlink fs mounts path) := by
  refine .ite (fun h => .onDisk h.2 _ _ _) fun _ => .ite (fun _ => .fails _) fun _ =>
    .ite (fun h => .update h.2 fun r => ?_) fun _ => .fails _
  split
  · exact .throw _
  · rename_i i hold
    exact .set (htmp h) (.unlink hold) _

theorem uses_rename {src dst : List UInt8} (htmp : OnTmp mounts src → tmp) :
    Uses fs esp (mountsOf mounts) boot tmp (rename fs mounts src dst) := by
  refine .ite (fun _ => .fails _) fun _ => .ite (fun h => .onDisk h.2 _ _ _) fun _ =>
    .ite (fun _ => .fails _) fun _ => .ite (fun h => .ite (fun _ => .fails _) fun hname =>
      .update h.2 fun r => ?_) fun _ => .fails _
  split
  · exact .throw _
  rename_i hnew
  split
  · exact .throw _
  rename_i i hold
  exact .set (htmp h) (.rename (Bool.eq_false_iff.mpr hname)
    (Option.not_isSome_iff_eq_none.mp hnew) hold) _

/-- A read goes to a mount whose tag the number has. -/
theorem uses_read {S : Set Mount} {ino : UInt32}
    (hS : ∀ m : Mount, tagOf ino = m.tag → m ∈ mountsOf mounts → m ∈ S) (offset : UInt64)
    (len : UInt32) : Uses fs esp S boot tmp (read fs esp mounts ino offset len) := by
  refine .ite (fun h => .onDisk (hS .disk h.1 h.2) _ _ _) fun _ => .ite (fun h => ?tmp) fun _ =>
    .ite (fun h => ?boot) fun _ => .fails _
  case tmp =>
    refine .bind (.ramfs (hS .tmp h.1 h.2)) fun r => ?_
    split
    · exact .fails _
    split
    · exact .throw _
    · exact .pure _
  case boot =>
    refine .bind (.bootTable (hS .boot h.1 h.2)) fun t => ?_
    split
    · refine .ite (fun _ => .fails _) fun _ => .bind (.roundtripEsp (hS .boot h.1 h.2) _) fun _ => ?_
      exact .bind (.orFail _) fun _ => .pure _
    · exact .fails _

theorem uses_write {ino : UInt32} {offset : UInt64} {data : List UInt8}
    (htmp : tagOf ino = TAG_TMP ∧ mounts &&& MOUNT_TMP ≠ 0 → tmp) :
    Uses fs esp (mountsOf mounts) boot tmp (write fs mounts ino offset data) := by
  refine .ite (fun h => .onDisk h.2 _ _ _) fun _ => .ite (fun h => .update h.2 fun r => ?_) fun _ =>
    .ite (fun _ => .fails _) fun _ => .fails _
  split
  · exact .throw _
  rename_i i hi
  dsimp only
  split
  · exact .throw _
  rename_i hmax
  split
  · exact .throw _
  rename_i hwrap
  exact .set (htmp h) (.write (ramFile_used hi).1 rfl (Nat.not_lt.mp hmax) (Nat.not_lt.mp hwrap)) _

theorem uses_truncate {ino : UInt32} {size : UInt64}
    (htmp : tagOf ino = TAG_TMP ∧ mounts &&& MOUNT_TMP ≠ 0 → tmp) :
    Uses fs esp (mountsOf mounts) boot tmp (truncate fs mounts ino size) := by
  refine .ite (fun h => .onDisk h.2 _ _ _) fun _ => .ite (fun h => .update h.2 fun r => ?_) fun _ =>
    .ite (fun _ => .fails _) fun _ => .fails _
  split
  · exact .throw _
  · rename_i i hi
    exact .set (htmp h) (.truncate size (ramFile_used hi).1) _

theorem uses_list (path : List UInt8) :
    Uses fs esp (mountsOf mounts) boot tmp (list fs esp mounts path) := by
  refine .ite (fun _ => .pure _) fun _ => .ite (fun h => .onDisk h.2 _ _ _) fun _ =>
    .ite (fun h => ?boot) fun _ => .ite (fun h => ?tmp) fun _ => .fails _
  case boot =>
    refine .bind (.roundtripEsp h.2 _) fun m => ?_
    split
    · exact .fails _
    split
    · exact .throw _
    · exact .pure _
  case tmp => exact .ite (fun _ => .fails _) fun _ => .bind (.ramfs h.2) fun _ => .pure _

theorem uses_map (ino : UInt32) : Uses fs esp (mountsOf mounts) boot tmp (map fs mounts ino) := by
  refine .ite (fun _ => .fails _) fun h => ?_
  have hm : Mount.disk ∈ mountsOf mounts := fun h0 => h (.inr h0)
  refine .bind (.callFs hm _) fun r => ?_
  cases r with
  | none => exact .fails _
  | some r => exact .pure _

theorem Uses.answer {S : Set Mount} {x : VfsM D E FsResponse} (h : Uses fs esp S boot tmp x) :
    Uses fs esp S boot tmp (Vfs.answer x) := .bind h fun _ => .pure _

/-- Whatever a session asks for, by path or by inode number, uses its mounts; only
`stat` remembers a path. -/
theorem uses_serve (rq : FsRequest) :
    Uses fs esp (mountsOf mounts) (∃ path, rq = .stat path) (ChangesTmp mounts rq)
      (serve fs esp mounts rq) := by
  cases rq with
  | stat path => exact .answer (uses_stat ⟨path, rfl⟩ _)
  | create path => exact .answer (uses_create fun h _ => h)
  | mkdir path => exact .answer (uses_create fun _ h => by cases h)
  | unlink path => exact .answer (uses_unlink id)
  | read ino offset len => exact .answer (uses_read (fun _ _ h => h) offset len)
  | write ino offset data => exact .answer (uses_write id)
  | list path => exact .answer (uses_list _)
  | sync => exact .answer (.ite (fun h => .onDisk h _ _ _) fun _ => .pure _)
  | info => exact .answer (.ite (fun _ => .fails _) fun h =>
      .bind (.roundtripFs h _) fun _ => .orFail _)
  | truncate ino size => exact .answer (uses_truncate id)
  | rename src dst => exact .answer (uses_rename id)
  | map ino => exact uses_map ino
  | check => exact .ite (fun _ => .fails _) fun h => .bind (.roundtripFs h _) fun _ => .pure _
  | openSession chan mask => exact .fails _

theorem confined_serve (rq : FsRequest) :
    Confined World.view (mountsOf mounts) (serve fs esp mounts rq) :=
  (uses_serve rq).confined

end Operations

end NexoOS.Vfs
