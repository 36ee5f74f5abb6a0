import NexoOS.Vfs.Tmp

/-! # Requests on `/tmp`

What each request does on `/tmp`, as an operation on names and byte arrays, and
what follows for whole runs of `vfs` with all their sessions. -/

namespace NexoOS.Vfs

open Confine Except List Option UInt32

theorem tmp_ne_disk (c : Prop) : ¬ (tmpName = diskName ∧ c) := fun h => absurd h.1 (by decide)

theorem tmp_ne_boot (c : Prop) : ¬ (tmpName = bootName ∧ c) := fun h => absurd h.1 (by decide)

theorem tagTmp_ne_disk (c : Prop) : ¬ (TAG_TMP = TAG_DISK ∧ c) := fun h => absurd h.1 (by decide)

section Request

variable {D E : Type} {fs : D → FsRequest → D × Option Reply}
variable {esp : E → EspRequest → E × Option (Message EspResponse)} {mounts : UInt64}

/-! ## One request -/

theorem ramfs_bind {α : Type} (f : Ramfs → VfsM D E α) (w : World D E) :
    (ramfs >>= f) w = f w.ram w := rfl

variable {path : List UInt8} {w : World D E} {ino : UInt32} {i : Fin RAM_FILES}

variable (fs) in
theorem create_tmp (h : OnTmp mounts path) (w : World D E) :
    (∃ c, create fs mounts path false w = .error (.code c) w) ∨
      ∃ i, badName (splitMount path).2 = false ∧ w.ram.find (splitMount path).2 = none ∧
        w.ram.free = some i ∧ create fs mounts path false w =
          .ok (.create (tmpIno i)) { w with ram := w.ram.create i (splitMount path).2 } := by
  generalize hrest : (splitMount path).2 = rest
  simp only [create, h.1, hrest, if_neg (tmp_ne_disk _), if_neg (tmp_ne_boot _),
    if_pos (And.intro trivial h.2), Bool.false_eq_true, if_false]
  cases hname : badName rest with
  | true => exact .inl ⟨_, rfl⟩
  | false =>
    simp only [Bool.false_eq_true, if_false, ramfs_bind]
    cases hfind : w.ram.find rest with
    | some j => exact .inl ⟨_, rfl⟩
    | none =>
      cases hfree : w.ram.free with
      | none => exact .inl ⟨_, rfl⟩
      | some i => exact .inr ⟨i, trivial, rfl, rfl, rfl⟩

variable (fs) in
theorem unlink_tmp (h : OnTmp mounts path) (w : World D E) :
    (∃ c, unlink fs mounts path w = .error (.code c) w) ∨
      ∃ i, w.ram.find (splitMount path).2 = some i ∧
        unlink fs mounts path w = .ok .unlink { w with ram := w.ram.unlink i } := by
  generalize hrest : (splitMount path).2 = rest
  simp only [unlink, h.1, hrest, if_neg (tmp_ne_disk _), if_neg (tmp_ne_boot _),
    if_pos (And.intro trivial h.2), ramfs_bind]
  cases hfind : w.ram.find rest with
  | none => exact .inl ⟨_, rfl⟩
  | some i => exact .inr ⟨i, rfl, rfl⟩

variable (fs) in
theorem rename_tmp {src : List UInt8} (h : OnTmp mounts src) (dst : List UInt8) (w : World D E) :
    (∃ c, rename fs mounts src dst w = .error (.code c) w) ∨
      ∃ i, badName (splitMount dst).2 = false ∧ w.ram.find (splitMount dst).2 = none ∧
        w.ram.find (splitMount src).2 = some i ∧ rename fs mounts src dst w =
          .ok .rename { w with ram := w.ram.rename i (splitMount dst).2 } := by
  generalize hsrc : (splitMount src).2 = frest
  generalize hdst : (splitMount dst).2 = trest
  simp only [rename, h.1, hsrc, hdst, if_neg (tmp_ne_disk _), if_neg (tmp_ne_boot _),
    if_pos (And.intro trivial h.2)]
  split
  · exact .inl ⟨_, rfl⟩
  cases hname : badName trest with
  | true => exact .inl ⟨_, rfl⟩
  | false =>
    simp only [Bool.false_eq_true, if_false, ramfs_bind]
    cases hfind : w.ram.find trest with
    | some j => exact .inl ⟨_, rfl⟩
    | none =>
      cases hold : w.ram.find frest with
      | none => exact .inl ⟨_, rfl⟩
      | some i => exact .inr ⟨i, trivial, rfl, rfl, rfl⟩

/-- The number stands for a file of `/tmp`, and the mask has it. -/
def TmpFile (mounts : UInt64) (r : Ramfs) (ino : UInt32) (i : Fin RAM_FILES) : Prop :=
  (tagOf ino = TAG_TMP ∧ mounts &&& MOUNT_TMP ≠ 0) ∧ ramFile r (rawOf ino) = some i

variable (fs) in
/-- A write ends within the place, or does nothing: a sum that wraps leaves a
slice that ends before it starts. -/
theorem write_tmp (h : TmpFile mounts w.ram ino i) (offset : UInt64) (data : List UInt8)
    (hdata : data.length ≤ 3900) : (offset.toNat + data.length ≤ RAM_FILE_MAX →
      write fs mounts ino offset data w = .ok (.write (ofNat data.length))
        { w with ram := w.ram.write i offset.toNat data (offset.toNat + data.length) }) ∧
    (¬ offset.toNat + data.length ≤ RAM_FILE_MAX →
      ∃ stop, write fs mounts ino offset data w = .error stop w) := by
  obtain ⟨⟨htag, hbit⟩, hfile⟩ := h
  have hoff : offset.toNat < 2 ^ 64 := offset.toNat_lt
  simp only [write, htag, if_neg (tagTmp_ne_disk _), if_pos (And.intro trivial hbit), ramfs_bind,
    hfile]
  constructor
  · intro hmax
    unfold RAM_FILE_MAX at hmax
    have hsum : (offset.toNat + data.length) % 2 ^ 64 = offset.toNat + data.length := by omega
    rw [hsum, if_neg (by unfold RAM_FILE_MAX; omega), if_neg (by omega)]
    rfl
  · intro hmax
    unfold RAM_FILE_MAX at hmax
    by_cases hstop : RAM_FILE_MAX < (offset.toNat + data.length) % 2 ^ 64
    · rw [if_pos hstop]
      exact ⟨_, rfl⟩
    unfold RAM_FILE_MAX at hstop
    rw [if_neg (by unfold RAM_FILE_MAX; omega), if_pos (by omega)]
    exact ⟨_, rfl⟩

theorem truncate_tmp (h : TmpFile mounts w.ram ino i) (size : UInt64) :
    truncate fs mounts ino size w = .ok .truncate { w with ram := w.ram.truncate i size } := by
  obtain ⟨⟨htag, hbit⟩, hfile⟩ := h
  simp only [truncate, htag, if_neg (tagTmp_ne_disk _), if_pos (And.intro trivial hbit),
    ramfs_bind, hfile]
  rfl

/-- A number of `/tmp` that stands for no file. -/
theorem changes_noFile (h : tagOf ino = TAG_TMP ∧ mounts &&& MOUNT_TMP ≠ 0)
    (hfile : ramFile w.ram (rawOf ino) = none) (offset size : UInt64) (data : List UInt8) :
    write fs mounts ino offset data w = .error (.code E_INVALID) w ∧
      truncate fs mounts ino size w = .error (.code E_INVALID) w := by
  obtain ⟨htag, hbit⟩ := h
  simp only [write, truncate, htag, if_neg (tagTmp_ne_disk _), if_pos (And.intro trivial hbit),
    ramfs_bind, hfile]
  exact ⟨rfl, rfl⟩

theorem RamFile.slice_eq {f : RamFile} (hsize : f.size.toNat ≤ RAM_FILE_MAX) (offset : UInt64)
    (len : UInt32) :
    f.slice offset len = some ((f.content.drop offset.toNat).take (min len.toNat 4000)) := by
  unfold slice
  split
  · rename_i hlt
    rw [UInt64.lt_iff_toNat_lt, toNat_toUInt64] at hlt
    rw [if_pos (by omega)]
    congr 1
    refine ext_getElem? fun j => ?_
    rw [getElem?_bytes, getElem?_take, getElem?_drop, getElem?_content]
    by_cases hj : j < min len.toNat 4000
    · rw [if_pos hj]
      by_cases hin : offset.toNat + j < f.size.toNat
      · rw [if_pos hin, if_pos (by omega)]
      · rw [if_neg hin, if_neg (by omega)]
    · rw [if_neg hj, if_neg (by omega)]
  · rename_i hge
    rw [UInt64.lt_iff_toNat_lt, toNat_toUInt64] at hge
    rw [drop_of_length_le (by rw [length_content]; omega), take_nil]

variable (fs esp) in
theorem read_tmp (hok : w.ram.Ok) (h : TmpFile mounts w.ram ino i) (offset : UInt64)
    (len : UInt32) : read fs esp mounts ino offset len w =
      .ok (.read (((w.ram i).content.drop offset.toNat).take (min len.toNat 4000))) w := by
  obtain ⟨⟨htag, hbit⟩, hfile⟩ := h
  simp only [read, htag, if_neg (tagTmp_ne_disk _), if_pos (And.intro trivial hbit), ramfs_bind,
    hfile]
  rw [RamFile.slice_eq (hok.size i (ramFile_used hfile).1)]
  rfl

variable (fs esp) in
theorem stat_tmp (h : OnTmp mounts path) (hrest : (splitMount path).2 ≠ []) (w : World D E) :
    stat fs esp mounts path w = match w.ram.find (splitMount path).2 with
      | none => .error (.code E_NOT_FOUND) w
      | some i => .ok (.stat (tmpIno i) 1 (w.ram i).size.toUInt64) w := by
  simp only [stat, h.1, if_neg (tmp_ne_disk _), if_neg (tmp_ne_boot _),
    if_neg (show tmpName ≠ [] by decide), if_pos (And.intro trivial h.2), if_neg hrest, ramfs_bind]
  cases w.ram.find (splitMount path).2 with
  | none | some i => rfl

variable (fs esp) in
theorem list_tmp (h : OnTmp mounts path) (hrest : (splitMount path).2 = []) (w : World D E) :
    list fs esp mounts path w = .ok (.list (ofNat w.ram.listed.length)
      (w.ram.listed.flatMap fun i => entry (tmpIno i) 1 (w.ram i).name)) w := by
  simp only [list, h.1, hrest, if_neg (tmp_ne_disk _), if_neg (tmp_ne_boot _),
    if_neg (show tmpName ≠ [] by decide), if_pos (And.intro trivial h.2), ne_eq, not_true_eq_false,
    if_false]
  rfl

/-! ## Requests as operations -/

instance (path : List UInt8) : Decidable (OnTmp mounts path) := inferInstanceAs (Decidable (_ ∧ _))

/-- What a request asks of the files of `/tmp`. A number stands for the name
that its place has. -/
def tmpOp (mounts : UInt64) (r : Ramfs) : FsRequest → Option TmpOp
  | .create path =>
    if OnTmp mounts (pathOf path) then some (.create (splitMount (pathOf path)).2) else none
  | .unlink path =>
    if OnTmp mounts (pathOf path) then some (.unlink (splitMount (pathOf path)).2) else none
  | .rename src dst =>
    if OnTmp mounts (pathOf src) then
      some (.rename (splitMount (pathOf src)).2 (splitMount (pathOf dst)).2)
    else none
  | .write ino offset data =>
    if tagOf ino = TAG_TMP ∧ mounts &&& MOUNT_TMP ≠ 0 then
      (ramFile r (rawOf ino)).map fun i => .write (r i).name offset.toNat data
    else none
  | .truncate ino size =>
    if tagOf ino = TAG_TMP ∧ mounts &&& MOUNT_TMP ≠ 0 then
      (ramFile r (rawOf ino)).map fun i => .truncate (r i).name size.toNat
    else none
  | .read ino offset len =>
    if tagOf ino = TAG_TMP ∧ mounts &&& MOUNT_TMP ≠ 0 then
      (ramFile r (rawOf ino)).map fun i => .read (r i).name offset.toNat len.toNat
    else none
  | _ => none

/-- The files after a request: those that the operation makes of them if the
request was granted, the same ones if not. -/
def specFiles (op : Option TmpOp) (granted : Bool) (files : Files) : Files :=
  match op with
  | some op => if granted then op.apply files else files
  | none => files

/-- The data of a write fits into its field. -/
def FsRequest.Fits : FsRequest → Prop
  | .write _ _ data => data.length ≤ 3900
  | _ => True

/-- A write that is granted past the end of a file finds zeros between the end
and its offset. -/
def GapsZero (mounts : UInt64) (r : Ramfs) : FsRequest → Prop
  | .write ino offset data => ∀ i, TmpFile mounts r ino i →
    offset.toNat + data.length ≤ RAM_FILE_MAX → (r i).GapZero offset.toNat
  | _ => True

theorem ram_kept (rq : FsRequest) (h : ¬ ChangesTmp mounts rq) (w : World D E) :
    (final (serve fs esp mounts rq) w).ram = w.ram :=
  moves_serve (R := fun w w' => w'.ram = w.ram)
    { refl := fun _ => rfl
      trans := fun _ _ _ h h' => h'.trans h
      disk := fun _ _ => rfl
      esp := fun _ _ => rfl
      remember := fun _ _ _ _ _ _ => rfl
      ram := fun hc => absurd hc h } w

/-- An operation that fails, or does what it says. -/
theorem files_of_outcome {x : VfsM D E FsResponse} {op : TmpOp} (h : (∃ stop, x w = .error stop w) ∨
      ∃ resp w', x w = .ok resp w' ∧ w'.ram.files = op.apply w.ram.files) :
    (final (answer x) w).ram.files =
      specFiles (some op) (result (answer x) w).isOk w.ram.files := by
  rw [final_answer, result_answer]
  rcases h with ⟨stop, h⟩ | ⟨resp, w', h, hfiles⟩
  · simp only [final, result, h, Except.map, Except.isOk, Except.toBool, specFiles,
      Bool.false_eq_true, if_false]
  · simp only [final, result, h, Except.map, Except.isOk, Except.toBool, specFiles, if_true]
    exact hfiles

theorem files_of_failure {x : VfsM D E FsResponse} {stop : Stop} (h : x w = .error stop w) :
    (final (answer x) w).ram.files = w.ram.files := by
  rw [final_answer, final, h]

theorem serve_files (hok : w.ram.Ok) {rq : FsRequest} (hfit : rq.Fits)
    (hgap : GapsZero mounts w.ram rq) : (final (serve fs esp mounts rq) w).ram.files =
      specFiles (tmpOp mounts w.ram rq) (result (serve fs esp mounts rq) w).isOk w.ram.files := by
  cases rq with
  | create path =>
    by_cases h : OnTmp mounts (pathOf path)
    · rw [tmpOp, if_pos h]
      refine files_of_outcome ?_
      rcases create_tmp fs h w with ⟨c, hc⟩ | ⟨i, hname, hnew, hfree, hc⟩
      · exact .inl ⟨_, hc⟩
      · exact .inr ⟨_, _, hc, Ramfs.files_create hok hname hnew hfree⟩
    · rw [tmpOp, if_neg h, ram_kept (.create path) h]
      rfl
  | unlink path =>
    by_cases h : OnTmp mounts (pathOf path)
    · rw [tmpOp, if_pos h]
      refine files_of_outcome ?_
      rcases unlink_tmp fs h w with ⟨c, hc⟩ | ⟨i, hold, hc⟩
      · exact .inl ⟨_, hc⟩
      · exact .inr ⟨_, _, hc, Ramfs.files_unlink hok hold⟩
    · rw [tmpOp, if_neg h, ram_kept (.unlink path) h]
      rfl
  | rename src dst =>
    by_cases h : OnTmp mounts (pathOf src)
    · rw [tmpOp, if_pos h]
      refine files_of_outcome ?_
      rcases rename_tmp fs h (pathOf dst) w with
        ⟨c, hc⟩ | ⟨i, hname, hnew, hold, hc⟩
      · exact .inl ⟨_, hc⟩
      · exact .inr ⟨_, _, hc, Ramfs.files_rename hok hname hnew hold⟩
    · rw [tmpOp, if_neg h, ram_kept (.rename src dst) h]
      rfl
  | write ino offset data =>
    by_cases h : tagOf ino = TAG_TMP ∧ mounts &&& MOUNT_TMP ≠ 0
    · rw [tmpOp, if_pos h]
      rcases hfile : ramFile w.ram (rawOf ino) with _ | i
      · exact files_of_failure (changes_noFile h hfile offset 0 data).1
      refine files_of_outcome ?_
      obtain ⟨hgranted, hrefused⟩ := write_tmp fs ⟨h, hfile⟩ offset data hfit
      by_cases hmax : offset.toNat + data.length ≤ RAM_FILE_MAX
      · refine .inr ⟨_, _, hgranted hmax, ?_⟩
        have hzero := hgap i ⟨h, hfile⟩ hmax
        exact (Ramfs.files_write_iff hok (ramFile_used hfile).1 rfl hmax).mpr hzero
      · exact .inl (hrefused hmax)
    · rw [tmpOp, if_neg h, ram_kept (.write ino offset data) h]
      rfl
  | truncate ino size =>
    by_cases h : tagOf ino = TAG_TMP ∧ mounts &&& MOUNT_TMP ≠ 0
    · rw [tmpOp, if_pos h]
      cases hfile : ramFile w.ram (rawOf ino) with
      | none => exact files_of_failure (changes_noFile h hfile 0 size []).2
      | some i =>
        exact files_of_outcome (.inr ⟨_, _, truncate_tmp ⟨h, hfile⟩ size,
          Ramfs.files_truncate hok (ramFile_used hfile).1⟩)
    · rw [tmpOp, if_neg h, ram_kept (.truncate ino size) h]
      rfl
  | read ino offset len =>
    rw [ram_kept (.read ino offset len) id, tmpOp]
    split
    · cases ramFile w.ram (rawOf ino) with
      | none => rfl
      | some i =>
        unfold specFiles
        dsimp only [map_some]
        split <;> rfl
    · rfl
  | _ =>
    rw [ram_kept _ id]
    rfl

end Request

/-! ## Runs -/

section Runs

variable {D E : Type} (fs : D → FsRequest → D × Option Reply)
variable (esp : E → EspRequest → E × Option (Message EspResponse))

/-- The request that an event brings, with the mask of its session. -/
def State.asked (s : State D E) : Event D E → Option (UInt64 × FsRequest)
  | .request k rq => if s.running then (s.clients k).map fun c => (c.2, rq) else none
  | _ => none

def State.specStep (s : State D E) (files : Files) (e : Event D E) : Files :=
  match s.asked e with
  | some (mask, rq) =>
    specFiles (tmpOp mask s.world.ram rq) (result (Vfs.serve fs esp mask rq) s.world).isOk files
  | none => files

def State.specRun (s : State D E) (files : Files) : List (Event D E) → Files
  | [] => files
  | e :: es => State.specRun (s.step fs esp e).1 (s.specStep fs esp files e) es

/-- Every request of the events that reaches the process has data that fits,
and no write of it is granted over a gap that is not zero. -/
def State.Careful (s : State D E) : List (Event D E) → Prop
  | [] => True
  | e :: es => (∀ mask rq, s.asked e = some (mask, rq) → rq.Fits ∧ GapsZero mask s.world.ram rq) ∧
    State.Careful (s.step fs esp e).1 es

variable {fs esp}

theorem allows_ok : Allows True True fun w w' : World D E => w.ram.Ok → w'.ram.Ok where
  refl _ h := h
  trans _ _ _ h h' hr := h' (h hr)
  disk _ _ h := h
  esp _ _ h := h
  remember _ _ _ _ _ _ h := h
  ram _ _ _ hs h := h.step hs

theorem State.step_files {s : State D E} (hok : s.world.ram.Ok) {e : Event D E}
    (h : ∀ mask rq, s.asked e = some (mask, rq) → rq.Fits ∧ GapsZero mask s.world.ram rq) :
    (s.step fs esp e).1.world.ram.files = s.specStep fs esp s.world.ram.files e := by
  cases hr : s.running with
  | false =>
    have hnone : s.asked e = none := by
      cases e with
      | request k rq => simp only [asked, hr, Bool.false_eq_true, if_false]
      | _ => rfl
    rw [State.step_stopped hr, specStep, hnone]
  | true =>
    cases e with
    | request k rq =>
      rcases hk : s.clients k with _ | c
      · simp only [step, Event.slot, specStep, asked, hr, hk, if_true, map_none]
      obtain ⟨ch, mask⟩ := c
      have hasked : s.asked (.request k rq) = some (mask, rq) := by
        simp only [asked, hr, hk, if_true, map_some]
      obtain ⟨hfit, hgap⟩ := h mask rq hasked
      have hstep : (s.step fs esp (.request k rq)).1.world.ram.files =
          (final (Vfs.serve fs esp mask rq) s.world).ram.files := by
        rw [State.step_running hr hk (e := .request k rq) rfl]
        cases rq with
        | openSession chan mounts =>
          rw [State.message, State.request, State.openSession_world]
          rfl
        | _ => simp only [State.message, State.request, State.serve_world]
      rw [hstep, specStep, hasked]
      exact serve_files hok hfit hgap
    | closed k =>
      simp only [step, hr, Event.slot, specStep, asked, if_true]
      split
      · rfl
      · rw [State.message, State.close_world]
    | malformed k handle | failed k =>
      simp only [step, hr, Event.slot, specStep, asked, if_true]
      split <;> rfl
    | disk d | esp e => simp only [step, hr, Event.slot, specStep, asked, if_true, World.outside]

theorem State.run_files {s : State D E} (hok : s.world.ram.Ok) {es : List (Event D E)}
    (h : s.Careful fs esp es) :
    (s.run fs esp es).1.world.ram.files = s.specRun fs esp s.world.ram.files es := by
  induction es generalizing s with
  | nil => rfl
  | cons e es ih =>
    rw [State.specRun, ← State.step_files hok h.1]
    exact ih (State.step_moves fs esp allows_ok s e hok) h.2

theorem tmpFile_tmpIno {mask : UInt64} {r : Ramfs} {i : Fin RAM_FILES} (hused : (r i).used = true)
    (hbit : mask &&& MOUNT_TMP ≠ 0) : TmpFile mask r (tmpIno i) i := by
  have hraw : (rawOf (tmpIno i)).toNat = i ∧ tagOf (tmpIno i) = TAG_TMP := by
    clear hused
    revert i
    decide
  refine ⟨⟨hraw.2, hbit⟩, ?_⟩
  have hlt : (rawOf (tmpIno i)).toNat < RAM_FILES := by
    rw [hraw.1]
    exact i.isLt
  have hplace : (⟨(rawOf (tmpIno i)).toNat, hlt⟩ : Fin RAM_FILES) = i := Fin.ext hraw.1
  rw [ramFile, dif_pos hlt, hplace, if_pos hused]

/-- In every run whose writes are careful, the files of `/tmp` are those that
the granted operations make, from none. Each of them has a number, and a read
of a number gives the bytes of the file. The first write that is granted over
a gap that is not zero makes the files differ. -/
theorem tmp_refines_files (mounts : UInt64) (d : D) (e : E) (es : List (Event D E))
    (h : (State.start mounts d e).Careful fs esp es) :
    let s := ((State.start mounts d e).run fs esp es).1
    let files := (State.start mounts d e).specRun fs esp (fun _ => none) es
    s.world.ram.files = files ∧ (∀ name f, files name = some f → ∃ i, (s.world.ram i).name = name ∧
        ∀ mask, mask &&& MOUNT_TMP ≠ 0 → TmpFile mask s.world.ram (tmpIno i) i) ∧
    ∀ k ch mask ino i, s.running = true → s.clients k = some (ch, mask) →
      TmpFile mask s.world.ram ino i → ∃ f, files (s.world.ram i).name = some f ∧
        (∀ offset len, s.step fs esp (.request k (.read ino offset len)) =
          (s, [.send ch { msg := .response (.read
            ((f.drop offset.toNat).take (min len.toNat 4000))) }])) ∧
        ∀ offset data, data.length ≤ 3900 → offset.toNat + data.length ≤ RAM_FILE_MAX →
          ¬ (s.world.ram i).GapZero offset.toNat →
          (s.step fs esp (.request k (.write ino offset data))).1.world.ram.files ≠
            (TmpOp.write (s.world.ram i).name offset.toNat data).apply files := by
  intro s files
  have hok : s.world.ram.Ok := State.run_moves fs esp allows_ok (State.start mounts d e) es Ramfs.Ok.empty
  have hfiles : s.world.ram.files = files := State.run_files Ramfs.Ok.empty h
  refine ⟨hfiles, fun name f hf => ?_, fun k ch mask ino i hr hk hfile => ?_⟩
  · rw [← hfiles, Ramfs.files] at hf
    obtain ⟨i, hi, -⟩ := Option.map_eq_some_iff.mp hf
    obtain ⟨hused, hname⟩ := Ramfs.find_some hi
    exact ⟨i, hname, fun mask hbit => tmpFile_tmpIno hused hbit⟩
  · have hused := (ramFile_used hfile.2).1
    refine ⟨(s.world.ram i).content, ?_, fun offset len => ?_, fun offset data hdata hmax hgap => ?_⟩
    · rw [← hfiles, hok.files_name hused]
    · have hread := read_tmp fs esp hok hfile offset len
      have hstep : s.step fs esp (.request k (.read ino offset len)) =
          s.serve fs esp ch mask (.read ino offset len) := State.step_running hr hk rfl
      rw [hstep]
      simp only [State.serve, Vfs.serve, result_answer, final_answer, result_of_ok hread,
        final_of_ok hread, Except.map]
    · have hstep : s.step fs esp (.request k (.write ino offset data)) =
          s.serve fs esp ch mask (.write ino offset data) := State.step_running hr hk rfl
      rw [hstep, State.serve_world, Vfs.serve, final_answer, ← hfiles,
        final_of_ok ((write_tmp fs hfile offset data hdata).1 hmax)]
      exact fun heq => hgap ((Ramfs.files_write_iff hok hused rfl hmax).mp heq)

theorem State.asked_rq {s : State D E} {e : Event D E} {mask : UInt64} {rq : FsRequest}
    (h : s.asked e = some (mask, rq)) : ∃ k, e = .request k rq := by
  cases e with
  | request k rq' =>
    unfold asked at h
    dsimp only at h
    split at h
    · obtain ⟨c, -, heq⟩ := map_eq_some_iff.mp h
      cases heq
      exact ⟨k, rfl⟩
    · cases h
  | _ => cases h

/-- Writes at the start of a file leave no gap. -/
theorem State.careful_of_offset_zero (s : State D E) {es : List (Event D E)}
    (h : ∀ k ino offset data, .request k (.write ino offset data) ∈ es →
      offset = 0 ∧ data.length ≤ 3900) : s.Careful fs esp es := by
  induction es generalizing s with
  | nil => trivial
  | cons e es ih =>
    refine ⟨fun mask rq hasked => ?_, ih _ fun k ino offset data hmem =>
      h k ino offset data (mem_cons_of_mem _ hmem)⟩
    obtain ⟨k, rfl⟩ := State.asked_rq hasked
    cases rq with
    | write ino offset data =>
      obtain ⟨hoffset, hdata⟩ := h k ino offset data mem_cons_self
      refine ⟨hdata, fun i _ _ j _ hj => ?_⟩
      rw [hoffset] at hj
      exact absurd hj (Nat.not_lt_zero j)
    | _ => exact ⟨trivial, trivial⟩

end Runs

def tmpPath (name : List UInt8) : List UInt8 := tmpName ++ slash :: name

/-- A file is written, deleted and followed by another one, which is written
past its end. -/
def staleEvents : List (Event Nat Unit) :=
  [.request 0 (.create (tmpPath [0x61])), .request 0 (.write 0x20000000 0 [7]),
    .request 0 (.unlink (tmpPath [0x61])), .request 0 (.create (tmpPath [0x62])),
    .request 0 (.write 0x20000000 1 [0x42])]

/-- The second file begins with the byte of the first one, not with zero. -/
theorem tmp_returns_deleted_byte :
    let s := ((State.start 0 0 ()).run countingFs silentEsp staleEvents).1
    (s.step countingFs silentEsp (.request 0 (.read 0x20000000 0 8))).2 =
        [.send 2 { msg := .response (.read [7, 0x42]) }] ∧
      (State.start 0 0 ()).specRun countingFs silentEsp (fun _ => none) staleEvents [0x62] =
        some [0, 0x42] := by
  decide +kernel

/-- A file is written, cut and renamed, and still has its bytes. -/
theorem tmp_refines_files_renamed :
    let es := [.request 0 (.create (tmpPath [0x61])), .request 0 (.write 0x20000000 0 [7, 8, 9]),
      .request 0 (.truncate 0x20000000 2), .request 0 (.rename (tmpPath [0x61]) (tmpPath [0x62]))]
    let s := ((State.start 0 0 ()).run countingFs silentEsp es).1
    (State.start 0 0 ()).Careful countingFs silentEsp es ∧ s.world.ram.files [0x62] = some [7, 8] ∧
      ∃ f, (State.start 0 0 ()).specRun countingFs silentEsp (fun _ => none) es
          (s.world.ram 0).name = some f ∧
        s.step countingFs silentEsp (.request 0 (.read 0x20000000 1 8)) =
          (s, [.send 2 { msg := .response (.read ((f.drop 1).take 8)) }]) := by
  intro es s
  have hcareful : (State.start 0 0 ()).Careful countingFs silentEsp es := by
    refine State.careful_of_offset_zero _ fun k ino offset data hmem => ?_
    simp only [es, mem_cons, Event.request.injEq, FsRequest.write.injEq, reduceCtorEq,
      and_false, not_mem_nil, or_false, false_or] at hmem
    obtain ⟨-, -, hoffset, hdata⟩ := hmem
    rw [hdata]
    exact ⟨hoffset, by decide⟩
  obtain ⟨hfiles, -, hread⟩ := tmp_refines_files 0 0 () es hcareful
  refine ⟨hcareful, ?_, ?_⟩
  · show s.world.ram.files [0x62] = _
    decide +kernel
  · obtain ⟨f, hf, hr, -⟩ := hread 0 2 7 0x20000000 0 (by decide +kernel) (by decide +kernel)
      ⟨⟨by decide, by decide⟩, by decide +kernel⟩
    exact ⟨f, hf, hr 1 8⟩

end NexoOS.Vfs
