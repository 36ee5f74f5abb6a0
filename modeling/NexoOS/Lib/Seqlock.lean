import NexoOS.Lib.Stores

/-!
# Double buffering under a sequence lock

A writer composes each frame in the buffer that is not in front, store by store,
and then swaps the buffers while the sequence number is odd. Any number of readers
take an even sequence number, read the front buffer cell by cell and accept what
they read if the number is still the same. The steps of all of them interleave
freely. While the number stands at an even value the front buffer is left alone,
so that what is accepted is one frame.
-/

namespace NexoOS.Seqlock

open Function List

universe u v

variable {V : Type u} {J : Type v}

structure Shared (V : Type u) where
  seq : UInt32
  front : UInt32
  frames : UInt32
  bufs : UInt32 → Nat → V

inductive Writer (V : Type u) where
  | idle
  /-- Stores into the buffer `back` are left to do. -/
  | drawing (back : UInt32) (todo : List (Nat × V))
  /-- The sequence number is odd, the front is about to be changed. -/
  | swapping (back : UInt32)
  /-- The sequence number is about to become even. -/
  | closing
  /-- The frame is about to be counted. -/
  | counting

/-- Where a reader is, with what it has read so far. -/
inductive Reader (V : Type u) where
  | start
  | stamped (seq : UInt32)
  | reading (seq front : UInt32) (got : List V)
  | done (seq : UInt32) (got : List V)

/-- The whole system. `jobs` are the frames that were begun, in their order. -/
structure System (V : Type u) (J : Type v) where
  shared : Shared V
  writer : Writer V
  readers : Nat → Reader V
  jobs : List J

/-- A step of the writer, with the frame it begins if it is idle, or a step of a
reader. -/
inductive Action (J : Type v) where
  | write (job : J)
  | read (i : Nat)

section Steps

-- The stores that composing a frame into a buffer makes, and the number of cells of a buffer.
variable (work : J → (Nat → V) → List (Nat × V)) (size : Nat)

def Shared.store (m : Shared V) (buf : UInt32) (s : Nat × V) : Shared V :=
  { m with bufs := update m.bufs buf (update (m.bufs buf) s.1 s.2) }

/-- One step of the writer. -/
def System.write (s : System V J) (job : J) : System V J :=
  match s.writer with
  | .idle =>
    let back := 1 - s.shared.front
    { s with
      writer := .drawing back (work job (s.shared.bufs back))
      jobs := s.jobs ++ [job] }
  | .drawing back (c :: todo) =>
    { s with shared := s.shared.store back c, writer := .drawing back todo }
  | .drawing back [] =>
    { s with shared := { s.shared with seq := s.shared.seq + 1 }, writer := .swapping back }
  | .swapping back =>
    { s with shared := { s.shared with front := back }, writer := .closing }
  | .closing =>
    { s with shared := { s.shared with seq := s.shared.seq + 1 }, writer := .counting }
  | .counting =>
    { s with shared := { s.shared with frames := s.shared.frames + 1 }, writer := .idle }

def Reader.step (m : Shared V) : Reader V → Reader V
  | .start => if m.seq % 2 = 1 then .start else .stamped m.seq
  | .stamped seq => .reading seq m.front []
  | .reading seq front got =>
    if got.length < size then .reading seq front (got ++ [m.bufs front got.length])
    else if m.seq = seq then .done seq got
    else .start
  | .done seq got => .done seq got

def System.step (s : System V J) : Action J → System V J
  | .write job => s.write work job
  | .read i => { s with readers := update s.readers i ((s.readers i).step size s.shared) }

def System.run (s : System V J) (as : List (Action J)) : System V J :=
  as.foldl (System.step work size) s

end Steps

/-- Nothing is published; the buffers hold `m`. -/
def System.blank (m : Nat → V) : System V J where
  shared := { seq := 0, front := 0, frames := 0, bufs := fun _ => m }
  writer := .idle
  readers := fun _ => .start
  jobs := []

/-! ## The invariant -/

section Invariant

variable (frame : J → Nat → V) (size : Nat)

def Holds (buf : Nat → V) (job : J) : Prop := ∀ o < size, buf o = frame job o

/-- The writer with `n` frames published, of which `shown` is the last. -/
structure Quiet (s : System V J) (n : Nat) (shown : J) : Prop where
  seq : s.shared.seq.toNat = 2 * n
  front : s.shared.front = 0 ∨ s.shared.front = 1
  holds : Holds frame size (s.shared.bufs s.shared.front) shown

/-- What holds of the writer and the shared memory. The frames are those of `jobs`
after a first one. -/
inductive Serving (first : J) (s : System V J) : Prop where
  | idle {shown : J} (hw : s.writer = .idle)
      (hq : Quiet frame size s s.jobs.length shown) (hshown : (first :: s.jobs).getLast? = some shown)
  | drawing {before : List J} {shown job : J} {back : UInt32} {todo : List (Nat × V)}
      (hw : s.writer = .drawing back todo) (hjobs : s.jobs = before ++ [job])
      (hq : Quiet frame size s before.length shown)
      (hshown : (first :: before).getLast? = some shown) (hback : back = 1 - s.shared.front)
      (hdraw : Holds frame size (stored (s.shared.bufs back) todo) job)
  | swapping {before : List J} {job : J} {back : UInt32}
      (hw : s.writer = .swapping back) (hjobs : s.jobs = before ++ [job])
      (hseq : s.shared.seq.toNat = 2 * before.length + 1) (hback : back = 0 ∨ back = 1)
      (hdraw : Holds frame size (s.shared.bufs back) job)
  | closing {before : List J} {job : J}
      (hw : s.writer = .closing) (hjobs : s.jobs = before ++ [job])
      (hseq : s.shared.seq.toNat = 2 * before.length + 1)
      (hfront : s.shared.front = 0 ∨ s.shared.front = 1)
      (hdraw : Holds frame size (s.shared.bufs s.shared.front) job)
  | counting {shown : J} (hw : s.writer = .counting)
      (hq : Quiet frame size s s.jobs.length shown) (hshown : (first :: s.jobs).getLast? = some shown)

/-- The cells that were read are those of a frame of `jobs`. -/
def Accepted (jobs : List J) (got : List V) : Prop :=
  ∃ job ∈ jobs, got = (List.range size).map (frame job)

/-- What holds of a reader: while the number it took still stands, it reads the
front buffer. -/
def Reading (jobs : List J) (m : Shared V) : Reader V → Prop
  | .start => True
  | .stamped seq => seq.toNat % 2 = 0 ∧ seq.toNat ≤ m.seq.toNat
  | .reading seq front got =>
    seq.toNat % 2 = 0 ∧ seq.toNat ≤ m.seq.toNat ∧ got.length ≤ size ∧
      (m.seq = seq → front = m.front ∧ got = (List.range got.length).map (m.bufs m.front))
  | .done _ got => Accepted frame size jobs got

structure Inv (first : J) (s : System V J) : Prop where
  serving : Serving frame size first s
  readers : ∀ i, Reading frame size (first :: s.jobs) s.shared (s.readers i)

end Invariant

section Proofs

variable {work : J → (Nat → V) → List (Nat × V)} {frame : J → Nat → V} {size : Nat} {first : J}
  {s : System V J}

theorem other_buffer {front : UInt32} (h : front = 0 ∨ front = 1) :
    (1 - front = 0 ∨ 1 - front = 1) ∧ 1 - front ≠ front := by
  rcases h with rfl | rfl <;> decide

theorem toNat_succ {n : UInt32} (h : n.toNat + 1 < 2 ^ 32) : (n + 1).toNat = n.toNat + 1 := by
  rw [UInt32.toNat_add]
  exact Nat.mod_eq_of_lt h

/-- At an even number the front buffer holds a frame. -/
theorem Serving.shown (h : Serving frame size first s) (heven : s.shared.seq.toNat % 2 = 0) :
    ∃ job ∈ first :: s.jobs, Holds frame size (s.shared.bufs s.shared.front) job := by
  cases h with
  | idle _ hq hshown | counting _ hq hshown => exact ⟨_, mem_of_getLast? hshown, hq.holds⟩
  | drawing _ hjobs hq hshown _ _ =>
    refine ⟨_, ?_, hq.holds⟩
    rw [hjobs, ← cons_append]
    exact mem_append_left _ (mem_of_getLast? hshown)
  | swapping | closing => omega

/-! ## Readers -/

theorem Accepted.mono {jobs jobs' : List J} {got : List V} (h : Accepted frame size jobs got)
    (hsub : jobs ⊆ jobs') : Accepted frame size jobs' got := by
  obtain ⟨job, hjob, hgot⟩ := h
  exact ⟨job, hsub hjob, hgot⟩

/-- A step of the writer, as readers see it: the number does not fall, and while
it stands at an even value the front buffer stays. -/
structure Calm (m m' : Shared V) : Prop where
  seq_le : m.seq.toNat ≤ m'.seq.toNat
  front : m'.seq = m.seq → m.seq.toNat % 2 = 0 → m'.front = m.front
  bufs : m'.seq = m.seq → m.seq.toNat % 2 = 0 → m'.bufs m'.front = m.bufs m.front

theorem Calm.refl (m : Shared V) : Calm m m := ⟨le_rfl, fun _ _ => rfl, fun _ _ => rfl⟩

theorem Calm.of_lt {m m' : Shared V} (h : m.seq.toNat < m'.seq.toNat) : Calm m m' := by
  have hne : m'.seq ≠ m.seq := by
    intro heq
    rw [heq] at h
    exact absurd h (lt_irrefl _)
  exact ⟨le_of_lt h, fun heq => absurd heq hne, fun heq => absurd heq hne⟩

theorem Reading.mono {jobs jobs' : List J} {m m' : Shared V} {r : Reader V}
    (h : Reading frame size jobs m r) (hcalm : Calm m m') (hsub : jobs ⊆ jobs') :
    Reading frame size jobs' m' r := by
  cases r with
  | start => trivial
  | stamped seq => exact ⟨h.1, h.2.trans hcalm.seq_le⟩
  | done seq got => exact Accepted.mono h hsub
  | reading seq front got =>
    obtain ⟨heven, hle, hlen, hread⟩ := h
    refine ⟨heven, hle.trans hcalm.seq_le, hlen, fun heq => ?_⟩
    subst heq
    -- the number did not change in between
    have hsame : m.seq = m'.seq := UInt32.toNat_inj.1 (le_antisymm hcalm.seq_le hle)
    obtain ⟨hfront, hgot⟩ := hread hsame
    rw [← hsame] at heven
    rw [hcalm.bufs hsame.symm heven, hcalm.front hsame.symm heven]
    exact ⟨hfront, hgot⟩

theorem Reading.step {r : Reader V}
    (hs : Serving frame size first s) (h : Reading frame size (first :: s.jobs) s.shared r) :
    Reading frame size (first :: s.jobs) s.shared (r.step size s.shared) := by
  cases r with
  | start =>
    dsimp only [Reader.step]
    split
    · trivial
    rename_i hodd
    refine ⟨?_, le_rfl⟩
    have : s.shared.seq.toNat % 2 ≠ 1 := fun h => hodd (UInt32.toNat_inj.1 (by simpa using h))
    omega
  | stamped seq => exact ⟨h.1, h.2, Nat.zero_le _, fun _ => ⟨rfl, rfl⟩⟩
  | done seq got => exact h
  | reading seq front got =>
    obtain ⟨heven, hle, hlen, hread⟩ := h
    dsimp only [Reader.step]
    split
    · rename_i hlt
      refine ⟨heven, hle, by simpa using Nat.succ_le_of_lt hlt, fun heq => ?_⟩
      obtain ⟨rfl, hgot⟩ := hread heq
      refine ⟨rfl, ?_⟩
      rw [length_append, length_singleton, range_succ, map_append, ← hgot]
      rfl
    · split
      · rename_i hfull heq
        subst heq
        obtain ⟨-, hgot⟩ := hread rfl
        obtain ⟨job, hjob, hholds⟩ := hs.shown heven
        refine ⟨job, hjob, ?_⟩
        have hsize : got.length = size := by omega
        rw [hgot, hsize]
        exact map_congr_left fun o ho => hholds o (mem_range.1 ho)
      · trivial

/-! ## The writer -/

theorem write_spec (hwork : ∀ j m, Holds frame size (stored m (work j m)) j)
    (h : Serving frame size first s) (job : J) (hlen : (s.write work job).jobs.length < 2 ^ 31) :
    Serving frame size first (s.write work job) ∧ Calm s.shared (s.write work job).shared ∧
      s.jobs ⊆ (s.write work job).jobs := by
  cases h with
  | @idle shown hw hq hshown =>
    unfold System.write at hlen ⊢
    rw [hw] at hlen ⊢
    refine ⟨.drawing rfl rfl ⟨hq.seq, hq.front, hq.holds⟩ hshown rfl (hwork _ _), Calm.refl _, ?_⟩
    exact subset_append_left _ _
  | @drawing before shown job' back todo hw hjobs hq hshown hback hdraw =>
    unfold System.write at hlen ⊢
    rw [hw] at hlen ⊢
    have hne : back ≠ s.shared.front := hback ▸ (other_buffer hq.front).2
    cases todo with
    | cons c todo =>
      have hfront : (s.shared.store back c).bufs s.shared.front = s.shared.bufs s.shared.front :=
        update_of_ne hne.symm ..
      refine ⟨.drawing rfl hjobs ⟨hq.seq, hq.front, ?_⟩ hshown hback ?_, ⟨le_rfl, fun _ _ => rfl,
        fun _ _ => hfront⟩, List.Subset.refl _⟩
      · exact hfront ▸ hq.holds
      · have hbuf : (s.shared.store back c).bufs back =
            update (s.shared.bufs back) c.1 c.2 := update_self ..
        exact hbuf ▸ hdraw
    | nil =>
      have hcount : s.jobs.length = before.length + 1 := by
        rw [hjobs, length_append, length_singleton]
      have hseq : (s.shared.seq + 1).toNat = s.shared.seq.toNat + 1 := by
        refine toNat_succ ?_
        rw [hq.seq]
        dsimp only at hlen
        omega
      refine ⟨.swapping rfl hjobs (hseq.trans (by rw [hq.seq])) ?_ hdraw, Calm.of_lt ?_,
        List.Subset.refl _⟩
      · exact hback ▸ (other_buffer hq.front).1
      · dsimp only
        omega
  | @swapping before job' back hw hjobs hseq hback hdraw =>
    unfold System.write
    rw [hw]
    refine ⟨.closing rfl hjobs hseq hback hdraw, ⟨le_rfl, fun _ heven => ?_, fun _ heven => ?_⟩,
      List.Subset.refl _⟩ <;> omega
  | @closing before job' hw hjobs hseq hfront hdraw =>
    unfold System.write at hlen ⊢
    rw [hw] at hlen ⊢
    have hcount : s.jobs.length = before.length + 1 := by
      rw [hjobs, length_append, length_singleton]
    have hnext : (s.shared.seq + 1).toNat = s.shared.seq.toNat + 1 := by
      refine toNat_succ ?_
      dsimp only at hlen
      omega
    have hlast : (first :: s.jobs).getLast? = some job' := by
      rw [hjobs, ← cons_append, List.getLast?_append]
      rfl
    refine ⟨.counting rfl ⟨?_, hfront, hdraw⟩ hlast, Calm.of_lt ?_, List.Subset.refl _⟩
    · dsimp only
      omega
    · dsimp only
      omega
  | @counting shown hw hq hshown =>
    unfold System.write
    rw [hw]
    exact ⟨.idle rfl ⟨hq.seq, hq.front, hq.holds⟩ hshown, ⟨le_rfl, fun _ _ => rfl, fun _ _ => rfl⟩,
      List.Subset.refl _⟩

/-! ## Runs -/

theorem Inv.step (hwork : ∀ j m, Holds frame size (stored m (work j m)) j)
    (h : Inv frame size first s) (a : Action J) (hlen : (s.step work size a).jobs.length < 2 ^ 31) :
    Inv frame size first (s.step work size a) := by
  cases a with
  | write job =>
    obtain ⟨hserving, hcalm, hsub⟩ := write_spec hwork h.serving job hlen
    have hreaders : (s.write work job).readers = s.readers := by
      unfold System.write
      split <;> rfl
    refine ⟨hserving, fun i => ?_⟩
    dsimp only [System.step]
    rw [hreaders]
    exact (h.readers i).mono hcalm (cons_subset_cons first hsub)
  | read i =>
    constructor
    case serving =>
      cases h.serving with
      | idle hw hq hshown => exact .idle hw ⟨hq.seq, hq.front, hq.holds⟩ hshown
      | drawing hw hjobs hq hshown hback hdraw =>
        exact .drawing hw hjobs ⟨hq.seq, hq.front, hq.holds⟩ hshown hback hdraw
      | swapping hw hjobs hseq hback hdraw => exact .swapping hw hjobs hseq hback hdraw
      | closing hw hjobs hseq hfront hdraw => exact .closing hw hjobs hseq hfront hdraw
      | counting hw hq hshown => exact .counting hw ⟨hq.seq, hq.front, hq.holds⟩ hshown
    case readers =>
      intro j
      dsimp only [System.step]
      by_cases hij : j = i
      · subst hij
        rw [update_self]
        exact (h.readers j).step h.serving
      · rw [update_of_ne hij]
        exact h.readers j

theorem jobs_step_le (s : System V J) (a : Action J) :
    s.jobs.length ≤ (s.step work size a).jobs.length := by
  cases a with
  | read i => exact le_rfl
  | write job =>
    dsimp only [System.step, System.write]
    split
    · simp
    all_goals exact le_rfl

theorem jobs_run_le (as : List (Action J)) (s : System V J) :
    s.jobs.length ≤ (s.run work size as).jobs.length := by
  induction as generalizing s with
  | nil => exact le_rfl
  | cons a as ih => exact (jobs_step_le s a).trans (ih _)

theorem Inv.run (hwork : ∀ j m, Holds frame size (stored m (work j m)) j)
    (as : List (Action J)) (h : Inv frame size first s)
    (hlen : (s.run work size as).jobs.length < 2 ^ 31) :
    Inv frame size first (s.run work size as) := by
  induction as generalizing s with
  | nil => exact h
  | cons a as ih =>
    have hstep : (s.step work size a).jobs.length < 2 ^ 31 :=
      lt_of_le_of_lt (jobs_run_le as _) hlen
    exact ih (h.step hwork a hstep) hlen

theorem inv_blank {m : Nat → V} (hfirst : Holds frame size m first) :
    Inv frame size first (System.blank m) :=
  ⟨.idle rfl ⟨rfl, .inl rfl, hfirst⟩ rfl, fun _ => trivial⟩

/-- Whatever a reader accepts is one frame: the one that was there at the start or
one of those composed since. -/
theorem accepted_of_done (hwork : ∀ j m, Holds frame size (stored m (work j m)) j) {m : Nat → V}
    (hfirst : Holds frame size m first) (as : List (Action J))
    (hlen : ((System.blank m).run work size as).jobs.length < 2 ^ 31) {i : Nat} {seq : UInt32}
    {got : List V} (hdone : ((System.blank m).run work size as).readers i = .done seq got) :
    Accepted frame size (first :: ((System.blank m).run work size as).jobs) got := by
  have := ((inv_blank hfirst).run hwork as hlen).readers i
  rw [hdone] at this
  exact this

/-! ## Progress -/

theorem run_cons (a : Action J) (as : List (Action J)) :
    s.run work size (a :: as) = (s.step work size a).run work size as := rfl

theorem run_append (as as' : List (Action J)) :
    s.run work size (as ++ as') = (s.run work size as).run work size as' :=
  foldl_append

theorem run_drawing (job : J) {back : UInt32} {todo : List (Nat × V)}
    (hw : s.writer = .drawing back todo) :
    s.run work size (List.replicate todo.length (.write job)) =
      { s with
        shared := { s.shared with
          bufs := update s.shared.bufs back (stored (s.shared.bufs back) todo) }
        writer := .drawing back [] } := by
  induction todo generalizing s with
  | nil =>
    obtain ⟨⟨seq, front, frames, bufs⟩, writer, readers, jobs⟩ := s
    subst hw
    simp [System.run, stored]
  | cons c todo ih =>
    have hstep : s.step work size (.write job) =
        { s with shared := s.shared.store back c, writer := .drawing back todo } := by
      simp only [System.step, System.write, hw]
    rw [length_cons, replicate_succ, run_cons, hstep, ih rfl]
    simp [Shared.store, stored]

theorem run_finish (job : J) {back : UInt32} {todo : List (Nat × V)}
    (hw : s.writer = .drawing back todo) :
    s.run work size (List.replicate (todo.length + 4) (.write job)) =
      { s with
        shared :=
          { seq := s.shared.seq + 1 + 1, front := back, frames := s.shared.frames + 1
            bufs := update s.shared.bufs back (stored (s.shared.bufs back) todo) }
        writer := .idle } := by
  rw [replicate_add, run_append]
  exact congrArg (fun s => System.run work size s _) (run_drawing job hw)

theorem step_read_iterate (m : Shared V) (seq front : UInt32) {k : Nat} (hk : k ≤ size) :
    (Reader.step size m)^[k] (.reading seq front []) =
      .reading seq front ((List.range k).map (m.bufs front)) := by
  induction k with
  | zero => rfl
  | succ k ih =>
    rw [Function.iterate_succ_apply', ih (Nat.le_of_succ_le hk)]
    have hlt : ((List.range k).map (m.bufs front)).length < size := by
      rw [length_map, length_range]
      exact hk
    dsimp only [Reader.step]
    rw [if_pos hlt, range_succ, map_append, length_map, length_range]
    rfl

theorem run_reads (i k : Nat) :
    (s.run work size (List.replicate k (.read i))) =
      { s with
        readers :=
          update s.readers i ((Reader.step size s.shared)^[k] (s.readers i)) } := by
  induction k generalizing s with
  | zero => simp [System.run]
  | succ k ih =>
    rw [replicate_succ, run_cons, ih]
    simp [System.step]

theorem run_reader (i : Nat) (hstart : s.readers i = .start) (heven : s.shared.seq % 2 ≠ 1) :
    (s.run work size (List.replicate (size + 3) (.read i))).readers i =
      .done s.shared.seq ((List.range size).map (s.shared.bufs s.shared.front)) := by
  rw [run_reads]
  dsimp only
  rw [update_self, hstart, Function.iterate_succ_apply, Function.iterate_succ_apply,
    Function.iterate_succ_apply']
  have hstamp : Reader.step size s.shared .start = .stamped s.shared.seq := if_neg heven
  have hread : Reader.step size s.shared (.stamped s.shared.seq) =
      .reading s.shared.seq s.shared.front [] := rfl
  rw [hstamp, hread, step_read_iterate _ _ _ le_rfl]
  dsimp only [Reader.step]
  rw [if_neg (by simp), if_pos rfl]

/-- A reader that starts while a frame is drawn, and has not read it when the
next is published, reads again and accepts. -/
theorem run_reader_during (job : J) (i : Nat) (hw : s.writer = .idle)
    (hstart : s.readers i = .start) (heven : s.shared.seq % 2 ≠ 1)
    (heven' : (s.shared.seq + 1 + 1) % 2 ≠ 1) (hne : s.shared.seq + 1 + 1 ≠ s.shared.seq) :
    let t := s.run work size (.write job :: .read i :: .read i ::
      (List.replicate ((work job (s.shared.bufs (1 - s.shared.front))).length + 4) (.write job) ++
        (List.replicate (size + 1) (.read i) ++ List.replicate (size + 3) (.read i))))
    t.jobs = s.jobs ++ [job] ∧ ∃ got, t.readers i = .done (s.shared.seq + 1 + 1) got := by
  have hbegin : s.step work size (.write job) = { s with
        writer := .drawing (1 - s.shared.front) (work job (s.shared.bufs (1 - s.shared.front)))
        jobs := s.jobs ++ [job] } := by
    simp only [System.step, System.write, hw]
  rw [run_cons, run_cons, run_cons, hbegin, run_append, run_append]
  dsimp only [System.step]
  rw [run_finish job rfl, run_reads i (size + 1)]
  dsimp only
  refine ⟨?_, _, run_reader i ?_ heven'⟩
  · rw [run_reads]
  have hstamp : Reader.step size s.shared .start = .stamped s.shared.seq := if_neg heven
  have hread : Reader.step size s.shared (.stamped s.shared.seq) =
      .reading s.shared.seq s.shared.front [] := rfl
  simp only [update_self, hstart, hstamp, hread]
  rw [Function.iterate_succ_apply', step_read_iterate _ _ _ le_rfl]
  dsimp only [Reader.step]
  rw [if_neg (by simp), if_neg hne]

end Proofs

end NexoOS.Seqlock
