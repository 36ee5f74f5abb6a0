import NexoOS.Vfs.BootTable
import NexoOS.Vfs.TmpRequests

/-! # Inode numbers and their mounts

A number that `vfs` gives out for an entry of a mount carries the mount's tag,
by which a later read finds its way. The exceptions are the listings of `/disk`
and `/boot`, which hand on the numbers of `fs` as they are, and zeros. -/

namespace NexoOS.Vfs

open Confine List State

theorem Mount.tag_injective : Function.Injective Mount.tag := by
  intro m m' h
  cases m <;> cases m' <;> first | rfl | exact absurd h (by decide)

def Mount.dir : Mount → List UInt8
  | .disk => diskName
  | .boot => bootName
  | .tmp => tmpName

theorem Mount.dir_injective : Function.Injective Mount.dir := by
  intro m m' h
  cases m <;> cases m' <;> first | rfl | exact absurd h (by decide)

/-! ## Listings -/

/-- The entries of a listing, `[ino u32][kind u8][len u8][name]` each. An entry
has at least six bytes, so that the length of the listing is enough fuel. -/
def entriesOf : Nat → List UInt8 → List (UInt32 × UInt8 × List UInt8)
  | fuel + 1, a :: b :: c :: d :: kind :: nl :: rest =>
    (a.toUInt32 ||| (b.toUInt32 <<< 8) ||| (c.toUInt32 <<< 16) ||| (d.toUInt32 <<< 24), kind,
      rest.take nl.toNat) :: entriesOf fuel (rest.drop nl.toNat)
  | _, _ => []

def listing (entries : List UInt8) : List (UInt32 × UInt8 × List UInt8) :=
  entriesOf entries.length entries

theorem entriesOf_entry {name : List UInt8} (hname : name.length < 256) (fuel : Nat)
    (i : Fin RAM_FILES) (kind : UInt8) (rest : List UInt8) :
    entriesOf (fuel + 1) (entry (tmpIno i) kind name ++ rest) =
      (tmpIno i, kind, name) :: entriesOf fuel rest := by
  have hino : ((tmpIno i).toUInt8.toUInt32 ||| ((tmpIno i >>> 8).toUInt8.toUInt32 <<< 8) |||
      ((tmpIno i >>> 16).toUInt8.toUInt32 <<< 16) |||
      ((tmpIno i >>> 24).toUInt8.toUInt32 <<< 24)) = tmpIno i := by
    revert i
    decide
  have hlen : (UInt8.ofNat name.length).toNat = name.length := by
    rw [UInt8.toNat_ofNat']
    omega
  simp only [entry, cons_append, nil_append, entriesOf, hino, hlen, take_left,
    drop_left]

theorem entriesOf_files {r : Ramfs} {l : List (Fin RAM_FILES)}
    (hname : ∀ i ∈ l, (r i).name.length < 256) {fuel : Nat} (hfuel : l.length ≤ fuel) :
    entriesOf fuel (l.flatMap fun i => entry (tmpIno i) 1 (r i).name) =
      l.map fun i => (tmpIno i, 1, (r i).name) := by
  induction l generalizing fuel with
  | nil =>
    cases fuel <;> rfl
  | cons i l ih =>
    cases fuel with
    | zero => exact absurd hfuel (Nat.not_succ_le_zero _)
    | succ fuel =>
      rw [flatMap_cons, entriesOf_entry (hname i mem_cons_self), map_cons,
        ih (fun j hj => hname j (mem_cons_of_mem _ hj)) (Nat.le_of_succ_le_succ hfuel)]

theorem length_entry (ino : UInt32) (kind : UInt8) (name : List UInt8) :
    (entry ino kind name).length = 6 + name.length := by
  simp only [entry, length_append, length_cons, length_nil]

theorem length_le_flatMap_entry (r : Ramfs) (l : List (Fin RAM_FILES)) :
    l.length ≤ (l.flatMap fun i => entry (tmpIno i) 1 (r i).name).length := by
  induction l with
  | nil => exact Nat.le_refl 0
  | cons i l ih =>
    rw [flatMap_cons, length_append, length_cons, length_entry]
    omega

theorem Ramfs.Ok.name_short {r : Ramfs} (hr : r.Ok) {i : Fin RAM_FILES}
    (hi : (r i).used = true) : (r i).name ≠ [] ∧ (r i).name.length < 256 := by
  have hgood := hr.name i hi
  simp only [badName, Bool.or_eq_false_iff] at hgood
  obtain ⟨⟨hempty, hlong⟩, -⟩ := hgood
  constructor
  · intro hnil
    rw [hnil] at hempty
    cases hempty
  · have := of_decide_eq_false hlong
    unfold NAME_MAX at this
    omega

/-! ## Tags -/

theorem tagOf_tagged {tag raw : UInt32} (htag : tag.toNat < 16) (hraw : raw.toNat < 2 ^ 28) :
    tagOf (tagged tag raw) = tag := by
  unfold tagOf tagged TAG_SHIFT
  apply UInt32.toNat.inj
  simp only [UInt32.toNat_shiftRight, UInt32.toNat_or, UInt32.toNat_shiftLeft,
    Nat.shiftRight_or_distrib]
  have hshift : UInt32.toNat 28 % 32 = 28 := by decide
  have hlow : raw.toNat >>> 28 = 0 := by
    rw [Nat.shiftRight_eq_div_pow]
    omega
  have hhigh : (tag.toNat <<< 28 % 2 ^ 32) >>> 28 = tag.toNat := by
    rw [Nat.shiftRight_eq_div_pow, Nat.shiftLeft_eq]
    omega
  rw [hshift, hlow, hhigh, Nat.zero_or]

theorem tagOf_tmpIno (i : Fin RAM_FILES) : tagOf (tmpIno i) = TAG_TMP := by
  revert i
  decide

/-! ## What a response says of entries -/

/-- The mount that a path lies on. -/
def mountNamed (name : List UInt8) : Option Mount :=
  if name = diskName then some .disk
  else if name = bootName then some .boot
  else if name = tmpName then some .tmp
  else none

theorem mountNamed_dir {name : List UInt8} {m : Mount} (h : mountNamed name = some m) :
    name = m.dir := by
  unfold mountNamed at h
  split at h
  · cases h
    assumption
  split at h
  · cases h
    assumption
  split at h
  · cases h
    assumption
  · cases h

/-- The number of one entry below the root of a mount. -/
def numberOf (path : List UInt8) (ino : UInt32) : List (Mount × UInt32) :=
  match mountNamed (splitMount (pathOf path)).1 with
  | some m => if (splitMount (pathOf path)).2 = [] then [] else [(m, ino)]
  | none => []

/-- The numbers that a response gives for entries of the mounts. -/
def numbers : FsRequest → FsResponse → List (Mount × UInt32)
  | .stat path, .stat ino _ _ => numberOf path ino
  | .create path, .create ino => numberOf path ino
  | .mkdir path, .mkdir ino => numberOf path ino
  | .list path, .list _ entries =>
    match mountNamed (splitMount (pathOf path)).1 with
    | some m => (listing entries).map fun e => (m, e.1)
    | none => []
  | _, _ => []

variable {path : List UInt8}

theorem mem_numberOf {ino : UInt32} {p : Mount × UInt32} (h : p ∈ numberOf path ino) :
    (splitMount (pathOf path)).1 = p.1.dir ∧ (splitMount (pathOf path)).2 ≠ [] ∧ p.2 = ino := by
  unfold numberOf at h
  split at h
  · rename_i m hm
    split at h
    · exact absurd h not_mem_nil
    rename_i hrest
    cases mem_singleton.mp h
    exact ⟨mountNamed_dir hm, hrest, rfl⟩
  · exact absurd h not_mem_nil

def FsResponse.ino : FsResponse → Option UInt32
  | .stat ino _ _ => some ino
  | .create ino => some ino
  | .mkdir ino => some ino
  | _ => none

section Request

variable {D E : Type} {fs : D → FsRequest → D × Option Reply}
variable {esp : E → EspRequest → E × Option (Message EspResponse)} {mounts : UInt64}

/-- The numbers that `fs` gives in the state `d` leave room for a tag. -/
def SmallNumbers (fs : D → FsRequest → D × Option Reply) (d : D) : Prop :=
  ∀ rq reply resp ino, (fs d rq).2 = some reply → reply.msg = .response resp →
    resp.ino = some ino → ino.toNat < 2 ^ 28

variable {w : World D E} {m : Mount} {ino : UInt32}

theorem onDisk_ok {α β : Type} {rq : FsRequest} {method : UInt32} {pick : FsResponse → Option α}
    {f : α → β} {b : β} (h : result (do
      let m ← roundtripFs fs rq
      let r ← orFail (m.decode method pick)
      pure (f r) : VfsM D E β) w = .ok b) :
    ∃ reply resp a, (fs w.disk rq).2 = some reply ∧ reply.msg = .response resp ∧
      pick resp = some a ∧ b = f a := by
  obtain ⟨m, hm, hrest, -⟩ := Confined.ok_of_bind h
  obtain ⟨a, ha, hb, -⟩ := Confined.ok_of_bind hrest
  cases hb
  have hdecode : m.decode method pick = .ok a := by
    cases hd : m.decode method pick with
    | ok a' =>
      rw [hd] at ha
      cases ha
      rfl
    | error c =>
      rw [hd] at ha
      cases ha
  have hm' : ((fs w.disk rq).2.map Reply.msg).getD (.other []) = m := Except.ok.inj hm
  cases hreply : (fs w.disk rq).2 with
  | none =>
    rw [hreply] at hm'
    cases hm'
    cases hdecode
  | some reply =>
    rw [hreply] at hm'
    cases hmsg : reply.msg with
    | response resp =>
      rw [← hm', Option.map_some, Option.getD_some, hmsg, Message.decode] at hdecode
      cases hpick : pick resp with
      | none =>
        rw [hpick] at hdecode
        cases hdecode
      | some a' =>
        rw [hpick] at hdecode
        cases hdecode
        exact ⟨reply, resp, a, rfl, hmsg, hpick, rfl⟩
    | error method' code | other bytes =>
      rw [← hm', Option.map_some, Option.getD_some, hmsg] at hdecode
      cases hdecode

/-- The tests of the operations, for a mount that the mask lacks. -/
theorem absent (hbit : ¬ mounts &&& m.bit ≠ 0) : ¬ (m.dir = diskName ∧ mounts &&& MOUNT_DISK ≠ 0) ∧
      ¬ (m.dir = bootName ∧ mounts &&& MOUNT_BOOT ≠ 0) ∧
      ¬ (m.dir = tmpName ∧ mounts &&& MOUNT_TMP ≠ 0) ∧ m.dir ≠ [] := by
  cases m with
  | disk => exact ⟨fun h => hbit h.2, fun h => absurd h.1 (by decide),
      fun h => absurd h.1 (by decide), by decide⟩
  | boot => exact ⟨fun h => absurd h.1 (by decide), fun h => hbit h.2,
      fun h => absurd h.1 (by decide), by decide⟩
  | tmp => exact ⟨fun h => absurd h.1 (by decide), fun h => absurd h.1 (by decide),
      fun h => hbit h.2, by decide⟩

theorem stat_tagged (hm : (splitMount path).1 = m.dir) (hrest : (splitMount path).2 ≠ [])
    (hsmall : SmallNumbers fs w.disk) {kind : UInt8} {size : UInt64}
    (h : result (stat fs esp mounts path) w = .ok (.stat ino kind size)) :
    tagOf ino = m.tag := by
  by_cases hbit : mounts &&& m.bit ≠ 0
  · cases m with
    | boot =>
      have hsplit : splitMount path = (bootName, (splitMount path).2) := Prod.ext hm rfl
      obtain ⟨i, _, _, hresp, -⟩ := stat_boot hsplit h
      cases hresp
      exact tagOf_bootIno i
    | disk =>
      simp only [stat, hm, if_neg (show Mount.disk.dir ≠ [] by decide),
        if_pos (show Mount.disk.dir = diskName ∧ mounts &&& MOUNT_DISK ≠ 0 from ⟨rfl, hbit⟩)] at h
      obtain ⟨reply, resp, a, hreply, hmsg, hpick, hresp⟩ := onDisk_ok h
      cases resp with
      | stat raw k s =>
        cases hpick
        cases hresp
        exact tagOf_tagged (by decide) (hsmall _ _ _ _ hreply hmsg rfl)
      | _ => cases hpick
    | tmp =>
      have hrun := stat_tmp fs esp ⟨hm, hbit⟩ hrest w
      cases hfind : w.ram.find (splitMount path).2 with
      | none =>
        rw [hfind] at hrun
        rw [result, hrun] at h
        cases h
      | some i =>
        rw [hfind] at hrun
        rw [result_of_ok hrun] at h
        cases h
        exact tagOf_tmpIno i
  · obtain ⟨hdisk, hboot, htmp, hne⟩ := absent hbit
    simp only [stat, hm, if_neg hdisk, if_neg hboot, if_neg htmp, if_neg hne] at h
    cases h

theorem create_tagged (hm : (splitMount path).1 = m.dir) (hsmall : SmallNumbers fs w.disk)
    {dir : Bool} {resp : FsResponse} (hino : resp.ino = some ino)
    (h : result (create fs mounts path dir) w = .ok resp) :
    tagOf ino = m.tag := by
  by_cases hbit : mounts &&& m.bit ≠ 0
  · cases m with
    | boot =>
      simp only [create, hm, if_neg (show ¬ (Mount.boot.dir = diskName ∧ _) from
        fun hb => absurd hb.1 (by decide)),
        if_pos (show Mount.boot.dir = bootName ∧ mounts &&& MOUNT_BOOT ≠ 0 from ⟨rfl, hbit⟩)] at h
      cases h
    | disk =>
      simp only [create, hm,
        if_pos (show Mount.disk.dir = diskName ∧ mounts &&& MOUNT_DISK ≠ 0 from ⟨rfl, hbit⟩)] at h
      cases dir with
      | true =>
        obtain ⟨reply, resp', a, hreply, hmsg, hpick, rfl⟩ := onDisk_ok h
        cases resp' with
        | mkdir raw =>
          cases hpick
          cases hino
          exact tagOf_tagged (by decide) (hsmall _ _ _ _ hreply hmsg rfl)
        | _ => cases hpick
      | false =>
        obtain ⟨reply, resp', a, hreply, hmsg, hpick, rfl⟩ := onDisk_ok h
        cases resp' with
        | create raw =>
          cases hpick
          cases hino
          exact tagOf_tagged (by decide) (hsmall _ _ _ _ hreply hmsg rfl)
        | _ => cases hpick
    | tmp =>
      cases dir with
      | true =>
        simp only [create, hm, Mount.dir, if_neg (tmp_ne_disk _), if_neg (tmp_ne_boot _),
          if_pos (show True ∧ mounts &&& MOUNT_TMP ≠ 0 from ⟨trivial, hbit⟩)] at h
        cases h
      | false =>
        rcases create_tmp fs ⟨hm, hbit⟩ w with ⟨c, hc⟩ | ⟨i, -, -, -, hc⟩
        · rw [result, hc] at h
          cases h
        rw [result_of_ok hc] at h
        cases h
        cases hino
        exact tagOf_tmpIno i
  · obtain ⟨hdisk, hboot, htmp, -⟩ := absent hbit
    simp only [create, hm, if_neg hdisk, if_neg hboot, if_neg htmp] at h
    cases h

/-- A read goes to the mount whose tag the number has, and to no other. -/
theorem read_routed (h : tagOf ino = m.tag) (offset : UInt64) (len : UInt32) :
    Confined World.view {m} (read fs esp mounts ino offset len) :=
  (uses_read (fun _ h' _ => Mount.tag_injective (h'.symm.trans h)) offset len :
    Uses fs esp {m} True True _).confined

end Request

/-! ## Runs -/

section Runs

variable {D E : Type} {fs : D → FsRequest → D × Option Reply}
variable {esp : E → EspRequest → E × Option (Message EspResponse)}

/-- The request is not a listing of `/disk` or `/boot`, and the numbers of `fs`
leave room for a tag. -/
def Plain (fs : D → FsRequest → D × Option Reply) (d : D) : FsRequest → Prop
  | .list path => (splitMount (pathOf path)).1 ≠ diskName ∧ (splitMount (pathOf path)).1 ≠ bootName
  | _ => SmallNumbers fs d

theorem list_files {mounts : UInt64} {w : World D E} {count : UInt32} {entries : List UInt8}
    (hok : w.ram.Ok) (hne : (splitMount path).1 ≠ []) (hdisk : (splitMount path).1 ≠ diskName)
    (hboot : (splitMount path).1 ≠ bootName)
    (h : result (list fs esp mounts path) w = .ok (.list count entries)) :
    OnTmp mounts path ∧ final (list fs esp mounts path) w = w ∧
      listing entries = w.ram.listed.map fun i => (tmpIno i, 1, (w.ram i).name) := by
  by_cases htmp : OnTmp mounts path
  · by_cases hrest : (splitMount path).2 = []
    · have hrun := list_tmp fs esp htmp hrest w
      rw [result_of_ok hrun] at h
      cases h
      refine ⟨htmp, final_of_ok hrun, entriesOf_files (fun i hi => ?_)
        (length_le_flatMap_entry w.ram _)⟩
      have hused := (mem_filter.mp hi).2
      exact (hok.name_short hused).2
    · simp only [list, htmp.1, if_neg (tmp_ne_disk _), if_neg (tmp_ne_boot _),
        if_neg (show tmpName ≠ [] by decide), if_pos (And.intro trivial htmp.2), if_pos hrest] at h
      cases h
  · simp only [list, if_neg hne, if_neg (fun hc => hdisk (And.left hc)),
      if_neg (fun hc => hboot (And.left hc)),
      if_neg (show ¬ ((splitMount path).1 = tmpName ∧ mounts &&& MOUNT_TMP ≠ 0) from htmp)] at h
    cases h

/-- In every run, the numbers in the response to a plain request carry their
mount, a read of any of them goes to that mount, and the entries of a listing
have the numbers that `stat` gives for them. -/
theorem numbers_carry_mount (mounts : UInt64) (d : D) (e : E) (es : List (Event D E))
    (k : Fin MAX_CLIENTS) (rq : FsRequest) (ch : UInt32) (resp : FsResponse) :
    let s := ((State.start mounts d e).run fs esp es).1
    .send ch { msg := .response resp } ∈ (s.step fs esp (.request k rq)).2 →
    Plain fs s.world.disk rq → (∀ p ∈ numbers rq resp, tagOf p.2 = p.1.tag ∧
      ∀ mask offset len, Confined World.view {p.1} (read fs esp mask p.2 offset len)) ∧
    ∀ path count entries, rq = .list path → resp = .list count entries →
      (splitMount (pathOf path)).1 ≠ [] → ∀ entry ∈ listing entries, ∀ path',
        splitMount (pathOf path') = ((splitMount (pathOf path)).1, entry.2.2) →
        ∃ kind size, ((s.step fs esp (.request k rq)).1.step fs esp (.request k (.stat path'))).2 =
          [.send ch { msg := .response (.stat entry.1 kind size) }] := by
  intro s hsend hplain
  have hok : s.world.ram.Ok := State.run_moves fs esp allows_ok (State.start mounts d e) es Ramfs.Ok.empty
  obtain ⟨ch', sess, hr, hk, hstep⟩ := State.step_request hsend
  rw [hstep] at hsend ⊢
  have htag : ∀ p ∈ numbers rq resp, tagOf p.2 = p.1.tag := by
    intro p hp
    cases rq with
    | stat path =>
      cases resp with
      | stat ino kind size =>
        obtain ⟨hm, hrest, hino⟩ := mem_numberOf hp
        rw [hino]
        exact stat_tagged hm hrest hplain (State.serve_response rfl hsend).1
      | _ => exact absurd hp not_mem_nil
    | create path =>
      cases resp with
      | create ino =>
        obtain ⟨hm, -, hino⟩ := mem_numberOf hp
        rw [hino]
        exact create_tagged hm hplain rfl (State.serve_response rfl hsend).1
      | _ => exact absurd hp not_mem_nil
    | mkdir path =>
      cases resp with
      | mkdir ino =>
        obtain ⟨hm, -, hino⟩ := mem_numberOf hp
        rw [hino]
        exact create_tagged hm hplain rfl (State.serve_response rfl hsend).1
      | _ => exact absurd hp not_mem_nil
    | list path =>
      cases resp with
      | list count entries =>
        rcases hm : mountNamed (splitMount (pathOf path)).1 with _ | m
        · simp only [numbers, hm] at hp
          exact absurd hp not_mem_nil
        simp only [numbers, hm] at hp
        obtain ⟨entry, hentry, rfl⟩ := mem_map.mp hp
        have hdir := mountNamed_dir hm
        have hne : (splitMount (pathOf path)).1 ≠ [] := by
          rw [hdir]
          cases m <;> decide
        obtain ⟨htmp, -, hlisting⟩ := list_files hok hne hplain.1 hplain.2
          (State.serve_response (x := list fs esp sess (pathOf path)) rfl hsend).1
        rw [hlisting] at hentry
        obtain ⟨i, -, rfl⟩ := mem_map.mp hentry
        have hmount : m.dir = Mount.tmp.dir := hdir.symm.trans htmp.1
        rw [Mount.dir_injective hmount]
        exact tagOf_tmpIno i
      | _ => exact absurd hp not_mem_nil
    | _ => exact absurd hp not_mem_nil
  refine ⟨fun p hp => ⟨htag p hp, fun mask offset len => read_routed (htag p hp) offset len⟩, ?_⟩
  rintro path count entries rfl rfl hne entry hentry path' hpath'
  obtain ⟨hres, hworld⟩ := State.serve_response (x := list fs esp sess (pathOf path)) rfl hsend
  obtain ⟨htmp, hfinal, hlisting⟩ := list_files hok hne hplain.1 hplain.2 hres
  rw [hlisting] at hentry
  obtain ⟨i, hi, rfl⟩ := mem_map.mp hentry
  have hused := (mem_filter.mp hi).2
  have hlist : s.request fs esp ch' sess (.list path) =
      (s, [.send ch' { msg := .response (.list count entries) }]) := by
    simp only [State.request, State.serve, Vfs.serve, result_answer, final_answer, hres, hfinal,
      Except.map]
  rw [hlist] at hsend ⊢
  cases mem_singleton.mp hsend
  have hstat : stat fs esp sess (pathOf path') s.world =
      .ok (.stat (tmpIno i) 1 (s.world.ram i).size.toUInt64) s.world := by
    have hon : OnTmp sess (pathOf path') := ⟨(congrArg Prod.fst hpath').trans htmp.1, htmp.2⟩
    have hname : (splitMount (pathOf path')).2 = (s.world.ram i).name := congrArg Prod.snd hpath'
    rw [stat_tmp fs esp hon (hname ▸ (hok.name_short hused).1), hname, hok.find_name hused]
  refine ⟨1, (s.world.ram i).size.toUInt64, ?_⟩
  have hnext : s.step fs esp (.request k (.stat path')) = s.serve fs esp ch sess (.stat path') :=
    State.step_running hr hk rfl
  simp only [hnext, State.serve, Vfs.serve, result_answer, result_of_ok hstat, Except.map]

end Runs

def oneFileFs (u : Unit) : FsRequest → Unit × Option Reply
  | .list _ => (u, some { msg := .response (.list 1 (entry 5 1 [0x61])) })
  | .stat _ => (u, some { msg := .response (.stat 5 1 0) })
  | _ => (u, none)

/-- The file of `/disk` is listed with the number of `fs` and has another one by
`stat`; the number of the listing is of no mount, and a read of it fails. -/
theorem list_disk_untagged : let s := start 0 () ()
    (s.step oneFileFs silentEsp (.request 0 (.list diskName))).2 =
        [.send 2 { msg := .response (.list 1 (entry 5 1 [0x61])) }] ∧
      listing (entry 5 1 [0x61]) = [(5, 1, [0x61])] ∧ tagOf 5 ≠ TAG_DISK ∧
      (s.step oneFileFs silentEsp (.request 0 (.stat (diskName ++ [slash, 0x61])))).2 =
        [.send 2 { msg := .response (.stat 0x10000005 1 0) }] ∧
      (s.step oneFileFs silentEsp (.request 0 (.read 5 0 8))).2 =
        [.send 2 { msg := .error 5 11 }] := by
  decide +kernel

/-- The listing of a `/tmp` with one file. -/
theorem numbers_carry_mount_tmp : let s := ((start 0 () ()).run oneFileFs silentEsp
      [.request 0 (.create (tmpPath [0x61]))]).1
    numbers (.list tmpName) (.list 1 (entry 0x20000000 1 [0x61])) = [(.tmp, 0x20000000)] ∧
      tagOf 0x20000000 = TAG_TMP ∧
      ∃ kind size, ((s.step oneFileFs silentEsp (.request 0 (.list tmpName))).1.step oneFileFs
          silentEsp (.request 0 (.stat (tmpPath [0x61])))).2 =
        [.send 2 { msg := .response (.stat 0x20000000 kind size) }] := by
  intro s
  have hnumbers : numbers (.list tmpName) (.list 1 (entry 0x20000000 1 [0x61])) =
      [(.tmp, 0x20000000)] := by
    decide +kernel
  have h := @numbers_carry_mount _ _ oneFileFs silentEsp 0 () ()
    [.request 0 (.create (tmpPath [0x61]))] 0 (.list tmpName) 2
    (.list 1 (entry 0x20000000 1 [0x61])) (by decide +kernel) ⟨by decide, by decide⟩
  refine ⟨hnumbers, ?_, ?_⟩
  · exact (h.1 (.tmp, 0x20000000) (by rw [hnumbers]; exact mem_singleton_self _)).1
  · exact h.2 _ _ _ rfl rfl (by decide) (0x20000000, 1, [0x61]) (by decide +kernel)
      (tmpPath [0x61]) (by decide +kernel)

end NexoOS.Vfs
