import NexoOS.Vfs.Effects

/-! # The inode numbers of `/boot`

A number of `/boot` is a place in the table of paths. A place that has a path
keeps it for the rest of the run, so that a number given out for a path goes on
standing for it. The root of `/boot` is the one exception: its path is empty,
which is also how a free place looks. -/

namespace NexoOS.Vfs

open Confine

namespace BootTable

/-- The places that have a path keep it. -/
def Le (t t' : BootTable) : Prop := ∀ i, t i ≠ [] → t' i = t i

theorem Le.refl (t : BootTable) : t.Le t := fun _ _ => rfl

theorem Le.trans {t t' t'' : BootTable} (h : t.Le t') (h' : t'.Le t'') : t.Le t'' := by
  intro i hi
  have hi' : t' i ≠ [] := by
    rw [h i hi]
    exact hi
  rw [h' i hi', h i hi]

theorem remember_spec {t t' : BootTable} {path : List UInt8} {i : Fin BOOT_PATHS}
    (h : t.remember path = some (i, t')) : path.length ≤ BOOT_PATH_MAX ∧ t' i = path ∧ t.Le t' := by
  unfold remember at h
  split at h
  · cases h
  rename_i hlen
  refine ⟨Nat.not_lt.mp hlen, ?_⟩
  split at h
  · rename_i j hfind
    cases h
    have hpath := List.find?_some hfind
    exact ⟨eq_of_beq hpath, .refl t⟩
  · split at h
    · rename_i j hfind
      cases h
      have hempty := List.find?_some hfind
      have hfree : t i = [] := List.isEmpty_iff.mp hempty
      refine ⟨Function.update_self i path t, fun j hj => ?_⟩
      have hne : j ≠ i := by
        rintro rfl
        exact hj hfree
      exact Function.update_of_ne hne path t
    · cases h

end BootTable

section Numbers

variable {D E : Type} {fs : D → FsRequest → D × Option Reply}
variable {esp : E → EspRequest → E × Option (Message EspResponse)} {mounts : UInt64}

theorem allows_bootTable :
    Allows True True fun w w' : World D E => w.bootTable.Le w'.bootTable where
  refl _ := .refl _
  trans _ _ _ := .trans
  disk _ _ := .refl _
  esp _ _ := .refl _
  remember _ _ _ _ _ h := (BootTable.remember_spec h).2.2
  ram _ _ _ _ := .refl _

variable (i : Fin BOOT_PATHS)

/-- The number of a place. -/
def bootIno : UInt32 := tagged TAG_BOOT (UInt32.ofNat i)

theorem tagOf_bootIno : tagOf (bootIno i) = TAG_BOOT := by
  revert i
  decide

theorem rawOf_bootIno : (rawOf (bootIno i)).toNat = i := by
  revert i
  decide

theorem bootIno_injective : Function.Injective bootIno := by
  intro i j h
  have hraw : (rawOf (bootIno i)).toNat = (rawOf (bootIno j)).toNat := by rw [h]
  rw [rawOf_bootIno, rawOf_bootIno] at hraw
  exact Fin.ext hraw

theorem bootRemember_ok {path : List UInt8} {w : World D E} {i : Fin BOOT_PATHS}
    (h : result (bootRemember path) w = .ok i) :
    path.length ≤ BOOT_PATH_MAX ∧ (final (bootRemember path) w).bootTable i = path := by
  have hrun : bootRemember path w = (w.bootTable.remember path).elim
      (.error (.code E_NO_SPACE) w) fun r => .ok r.1 { w with bootTable := r.2 } := by
    have hbind : ∀ k : BootTable → VfsM D E (Fin BOOT_PATHS),
        (bootTable >>= k) w = k w.bootTable w := fun _ => rfl
    rw [bootRemember, hbind]
    cases w.bootTable.remember path <;> rfl
  rcases hrem : w.bootTable.remember path with _ | r
  · rw [result, hrun, hrem] at h
    cases h
  obtain ⟨hlen, hplace, -⟩ := BootTable.remember_spec hrem
  rw [result, hrun, hrem] at h
  cases h
  rw [final, hrun, hrem]
  exact ⟨hlen, hplace⟩

/-- A `stat` on `/boot` gives the number of a place that now has the path. -/
theorem stat_boot {path rest : List UInt8} (hpath : splitMount path = (bootName, rest))
    {w : World D E} {resp : FsResponse} (h : result (stat fs esp mounts path) w = .ok resp) :
    ∃ i kind size, resp = .stat (bootIno i) kind size ∧ rest.length ≤ BOOT_PATH_MAX ∧
      (final (stat fs esp mounts path) w).bootTable i = rest := by
  have hdisk : ¬ (bootName = diskName ∧ mounts &&& MOUNT_DISK ≠ 0) := by
    intro h
    exact absurd h.1 (by decide)
  have htmp : ¬ (bootName = tmpName ∧ mounts &&& MOUNT_TMP ≠ 0) := by
    intro h
    exact absurd h.1 (by decide)
  simp only [stat, hpath, if_neg hdisk, if_neg htmp, if_neg (show bootName ≠ [] by decide)] at h ⊢
  split at h
  · rename_i hboot
    rw [if_pos hboot]
    obtain ⟨m, -, hm, hfinal⟩ := Confined.ok_of_bind h
    rw [hfinal]
    split at hm
    · rename_i attr size hdec
      obtain ⟨i, hi, hresp, hfinal'⟩ := Confined.ok_of_bind hm
      obtain ⟨hlen, hplace⟩ := bootRemember_ok hi
      cases hresp
      rw [hfinal']
      exact ⟨i, _, _, rfl, hlen, hplace⟩
    · cases hm
  · cases h

variable (fs esp) in
/-- A `read` of a number asks `espfs` for the path in its place, and hands on
what it reads. -/
theorem read_boot {w : World D E} {i : Fin BOOT_PATHS} {p : List UInt8}
    (hi : w.bootTable i = p) (hp : p ≠ []) (hm : mounts &&& MOUNT_BOOT ≠ 0) (offset : UInt64)
    (len : UInt32) : final (read fs esp mounts (bootIno i) offset len) w =
        { w with esp := (esp w.esp (.read (pathOf p) offset (min len 3500))).1 } ∧
      ∀ data, (esp w.esp (.read (pathOf p) offset (min len 3500))).2 =
          some (.response (.read data)) →
        result (read fs esp mounts (bootIno i) offset len) w = .ok (.read data) := by
  have hdisk : ¬ (TAG_BOOT = TAG_DISK ∧ mounts &&& MOUNT_DISK ≠ 0) := by
    intro h
    exact absurd h.1 (by decide)
  have htmp : ¬ (TAG_BOOT = TAG_TMP ∧ mounts &&& MOUNT_TMP ≠ 0) := by
    intro h
    exact absurd h.1 (by decide)
  have hraw : (rawOf (bootIno i)).toNat < BOOT_PATHS := by
    rw [rawOf_bootIno]
    exact i.isLt
  have hplace : (⟨(rawOf (bootIno i)).toNat, hraw⟩ : Fin BOOT_PATHS) = i :=
    Fin.ext (rawOf_bootIno i)
  have hempty : ¬ p.isEmpty = true := by simpa using hp
  obtain ⟨k, hfinal, hresult, hrun⟩ : ∃ k : Message EspResponse → VfsM D E FsResponse,
      (∀ m w, final (k m) w = w) ∧
      (∀ data w, result (k (.response (.read data))) w = .ok (.read data)) ∧
      read fs esp mounts (bootIno i) offset len w =
        (roundtripEsp esp (.read (pathOf p) offset (min len 3500)) >>= k) w := by
    refine ⟨?k, ?_, ?_, ?run⟩
    case run =>
      simp only [read, tagOf_bootIno, if_neg hdisk, if_neg htmp, if_pos (And.intro trivial hm),
        dif_pos hraw, hplace]
      show (if (w.bootTable i).isEmpty then _ else _ : VfsM D E FsResponse) w = _
      rw [hi, if_neg hempty]
    · intro m w
      show final (orFail _ >>= _) _ = _
      rw [Confined.final_bind]
      cases Message.decode .. <;> rfl
    · exact fun _ _ => rfl
  constructor
  · rw [final, hrun, ← final, Confined.final_bind]
    exact hfinal _ _
  intro data hdata
  rw [result, hrun, ← result, Confined.result_bind]
  show result (k ((esp w.esp _).2.getD _)) _ = _
  rw [hdata]
  exact hresult data _

end Numbers

/-! ## Runs -/

section Runs

variable {D E : Type} (fs : D → FsRequest → D × Option Reply)
variable (esp : E → EspRequest → E × Option (Message EspResponse))

/-- The session in slot `k` asks for the path `rest` of `/boot`, as `path`, and
is told the number `ino`. -/
def State.BootStat (s : State D E) (k : Fin MAX_CLIENTS) (path rest : List UInt8)
    (ino : UInt32) : Prop :=
  splitMount (pathOf path) = (bootName, rest) ∧
    ∃ ch kind size, .send ch { msg := .response (.stat ino kind size) } ∈
      (s.step fs esp (.request k (.stat path))).2

variable {fs esp}

/-- What is told is the number of a place that has the path from then on. -/
theorem State.BootStat.place {s : State D E} {k : Fin MAX_CLIENTS} {path rest : List UInt8}
    {ino : UInt32} (h : s.BootStat fs esp k path rest ino) :
    ∃ i, ino = bootIno i ∧ rest.length ≤ BOOT_PATH_MAX ∧
      (s.step fs esp (.request k (.stat path))).1.world.bootTable i = rest := by
  obtain ⟨hpath, ch, kind, size, hsend⟩ := h
  obtain ⟨ch', sess, -, -, hstep⟩ := State.step_request hsend
  rw [hstep] at hsend ⊢
  obtain ⟨hres, hworld⟩ := State.serve_response (x := stat fs esp sess (pathOf path)) rfl hsend
  obtain ⟨i, kind', size', hino, hlen, hplace⟩ := stat_boot hpath hres
  cases hino
  refine ⟨i, rfl, hlen, ?_⟩
  rw [← hworld] at hplace
  exact hplace

/-- In every run, whatever the services do: if a session is told a number of
`/boot` for a path below its root, then the number is told for no other path at
any later time, and a read of it asks `espfs` for that path and gives what it
answers. -/
theorem boot_numbers_keep_paths (mounts : UInt64) (d : D) (e : E) (es es' : List (Event D E))
    (k : Fin MAX_CLIENTS) (path p : List UInt8) (ino : UInt32) (hp : p ≠ [])
    (h : ((State.start mounts d e).run fs esp es).1.BootStat fs esp k path p ino) :
    let s := ((((State.start mounts d e).run fs esp es).1.step fs esp
      (.request k (.stat path))).1.run fs esp es').1
    (∀ k' path' q, s.BootStat fs esp k' path' q ino → q = p) ∧
    ∀ k' ch mask offset len, s.running = true → s.clients k' = some (ch, mask) →
      mask &&& MOUNT_BOOT ≠ 0 → (s.step fs esp (.request k' (.read ino offset len))).1.world =
          { s.world with esp := (esp s.world.esp (.read p offset (min len 3500))).1 } ∧
        ∀ data, (esp s.world.esp (.read p offset (min len 3500))).2 =
            some (.response (.read data)) → (s.step fs esp (.request k' (.read ino offset len))).2 =
            [.send ch { msg := .response (.read data) }] := by
  intro s
  obtain ⟨i, rfl, hlen, hplace⟩ := h.place
  have hkept : s.world.bootTable i = p := by
    have hle := State.run_moves fs esp allows_bootTable
      ((((State.start mounts d e).run fs esp es).1.step fs esp (.request k (.stat path))).1) es'
    rw [← hplace]
    exact hle i (hplace ▸ hp)
  constructor
  · intro k' path' q hstat
    obtain ⟨j, hino, -, hplace'⟩ := hstat.place
    cases bootIno_injective hino
    have hle := State.step_moves fs esp allows_bootTable s
      (.request k' (.stat path'))
    rw [← hplace', ← hkept]
    exact hle i (hkept ▸ hp)
  · intro k' ch mask offset len hr hk hm
    have hlong : pathOf p = p := List.take_of_length_le (Nat.le_trans hlen (by decide))
    obtain ⟨hworld, hdata⟩ := read_boot fs esp hkept hp hm offset len
    rw [hlong] at hworld hdata
    have hstep : s.step fs esp (.request k' (.read (bootIno i) offset len)) =
        s.serve fs esp ch mask (.read (bootIno i) offset len) :=
      State.step_running hr hk rfl
    rw [hstep]
    refine ⟨?_, fun data h => ?_⟩
    · rw [State.serve_world, Vfs.serve, final_answer, hworld]
    · simp only [State.serve, Vfs.serve, result_answer, hdata data h, Except.map]


end Runs

/-- An `espfs` whose paths are all directories. -/
def dirEsp (u : Unit) : EspRequest → Unit × Option (Message EspResponse)
  | .stat _ => (u, some (.response (.stat 0x10 0)))
  | .list _ => (u, some (.response (.list 0 [])))
  | .read .. => (u, some (.response (.read [])))

/-- The root of `/boot` and a path below it, one after the other, have the same
number. -/
theorem boot_root_shares_number :
    (State.start 0 0 ()).BootStat countingFs dirEsp 0 bootName [] 0x30000000 ∧
      (((State.start 0 0 ()).step countingFs dirEsp (.request 0 (.stat bootName))).1).BootStat
        countingFs dirEsp 0 (bootName ++ [slash, 0x61]) [0x61] 0x30000000 := by
  refine ⟨⟨by decide, 2, 2, 0, ?_⟩, ⟨by decide, 2, 2, 0, ?_⟩⟩
  · decide +kernel
  · decide +kernel

/-- A path is told its number twice and then read. -/
theorem boot_numbers_keep_paths_a : let path := bootName ++ [slash, 0x61]
    let s := (((State.start 0 0 ()).step countingFs dirEsp (.request 0 (.stat path))).1.run
      countingFs dirEsp [.request 0 (.stat bootName)]).1
    (State.start 0 0 ()).BootStat countingFs dirEsp 0 path [0x61] 0x30000000 ∧
      ¬ s.BootStat countingFs dirEsp 0 (bootName ++ [slash, 0x62]) [0x62] 0x30000000 ∧
      (s.step countingFs dirEsp (.request 0 (.read 0x30000000 0 8))).2 =
        [.send 2 { msg := .response (.read []) }] := by
  intro path s
  have hstat : (State.start 0 0 ()).BootStat countingFs dirEsp 0 path [0x61] 0x30000000 :=
    ⟨by decide, 2, 2, 0, by decide +kernel⟩
  have h := boot_numbers_keep_paths 0 0 () [] [.request 0 (.stat bootName)] 0 path [0x61]
    0x30000000 (by decide) hstat
  refine ⟨hstat, fun hother => absurd (h.1 _ _ _ hother) (by decide), ?_⟩
  exact (h.2 0 2 7 0 8 (by decide +kernel) (by decide +kernel) (by decide)).2 [] rfl

end NexoOS.Vfs
