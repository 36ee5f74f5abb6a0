import NexoOS.Block.Blockdev
import NexoOS.Block.InOrder

/-!
# `blockdev` answers in order

The invariant of the driver's loop: the order of the table is the order of
arrival, the slots that are not free are at the device or have come back,
the descriptors and pages of a slot at the device are those of its request,
and a slot that has come back holds the answer to its request.
-/

namespace NexoOS.Block.Blockdev

open Function List

def planOf (cfg : Config) (m : Message) : Plan := plan cfg (decodeRequest m.data)

variable {c : Command} {desc : Nat → Desc Addr} {mem : Memory} {slot n : Nat}
  {q q' : SplitQueue Addr} {disk : Disk}

theorem plan_io_length {cfg : Config} {rq : Except ProtoError Request} (h : plan cfg rq = .io c)
    (hw : c.write = true) : c.bytes ≤ c.data.length := by
  unfold plan at h
  split at h
  · cases h
  · cases h
  · cases h
  · split at h
    · cases h
    · cases h
      cases hw
  · split at h
    · cases h
    split at h
    · cases h
    split at h
    · cases h
    · cases h
      exact Nat.not_lt.mp ‹_›

/-! ## Pages and descriptors of a slot -/

/-- The descriptors and pages of `slot` say what `c` asks for. -/
structure Loaded (desc : Nat → Desc Addr) (mem : Memory) (slot : Nat) (c : Command) : Prop where
  first : (desc (3 * slot)).addr = .header slot ∧ (desc (3 * slot)).next = 3 * slot + 1
  second : (desc (3 * slot + 1)).addr = .data slot ∧ (desc (3 * slot + 1)).len = c.bytes ∧
    (desc (3 * slot + 1)).next = 3 * slot + 2
  third : (desc (3 * slot + 2)).addr = .status slot
  header : mem.header slot = { kind := if c.write then 1 else 0, sector := c.sector }
  page : c.write = true → bytes (mem.data slot) 0 c.bytes = c.data.take c.bytes

/-- A device that carries out the chain of a slot touches this slot's pages
only, and leaves there the answer to its command. -/
theorem Loaded.execute (h : Loaded desc mem slot c) (disk : Disk) (st : Nat) (junk : Nat → UInt8) :
    ∃ mem' disk', execute desc mem disk (3 * slot) st junk = (mem', disk') ∧
      mem'.header = mem.header ∧ (∀ k, k ≠ slot → mem'.data k = mem.data k) ∧
      (∀ k, k ≠ slot → mem'.status k = mem.status k) ∧ (Plan.io c).Answers disk'
        (ioReply c.write c.bytes (mem'.status slot) (mem'.data slot)) := by
  unfold Blockdev.execute
  dsimp only
  rw [h.first.1, h.first.2, h.second.1, h.second.2.1, h.second.2.2, h.third, Memory.headerAt,
    h.header]
  cases hw : c.write with
  | false =>
    refine ⟨_, _, rfl, rfl, fun k hk => update_of_ne hk _ _, fun k hk => update_of_ne hk _ _, ?_⟩
    rw [← hw]
    refine answers_ioReply (fun hst _ => ?_) (fun _ h => absurd (hw ▸ h) Bool.false_ne_true)
    have hst : st = 0 := (update_self ..).symm.trans hst
    subst st
    show bytes (update mem.data slot _ slot) 0 c.bytes = _
    rw [update_self, bytes_splice]
    exact bytes_window disk _ _
  | true =>
    refine ⟨_, _, rfl, rfl, fun k hk => rfl, fun k hk => update_of_ne hk _ _, ?_⟩
    rw [← hw]
    refine answers_ioReply (fun _ h => absurd (hw ▸ h) Bool.false_ne_true.symm) (fun hst _ => ?_)
    have hst : st = 0 := (update_self ..).symm.trans hst
    subst st
    exact (bytes_splice disk _ _ _).trans (h.page hw)

theorem setDesc_some {i : Nat} {d : Desc Addr} (h : q.setDesc i d = some q') :
    i < q.size ∧ q' = { q with desc := update q.desc i d } := by
  unfold SplitQueue.setDesc at h
  split at h
  · rename_i hi
    exact ⟨hi, (Option.some.inj h).symm⟩
  · cases h

/-- The descriptors of one slot change, and they are the chain of its request. -/
theorem chainSlot_some {count : Nat} {write : Bool} (h : chainSlot q slot write count = some q') :
    3 * slot + 2 < q.size ∧ (∃ f, q' = { q with desc := f }) ∧
      (∀ k, k ≠ slot → ∀ i, i < 3 → q'.desc (3 * k + i) = q.desc (3 * k + i)) ∧
      (q'.desc (3 * slot)).addr = .header slot ∧ (q'.desc (3 * slot)).next = 3 * slot + 1 ∧
      (q'.desc (3 * slot + 1)).addr = .data slot ∧
      (q'.desc (3 * slot + 1)).len = count * sectorSize ∧
      (q'.desc (3 * slot + 1)).next = 3 * slot + 2 ∧
      (q'.desc (3 * slot + 2)).addr = .status slot := by
  unfold chainSlot at h
  obtain ⟨q₁, h₁, h⟩ := Option.bind_eq_some_iff.mp h
  obtain ⟨q₂, h₂, h₃⟩ := Option.bind_eq_some_iff.mp h
  obtain ⟨-, rfl⟩ := setDesc_some h₁
  obtain ⟨-, rfl⟩ := setDesc_some h₂
  obtain ⟨hlt, rfl⟩ := setDesc_some h₃
  refine ⟨hlt, ⟨_, rfl⟩, fun k hk i hi => ?_, ?_⟩
  · show update (update (update _ _ _) _ _) _ _ (3 * k + i) = _
    rw [update_of_ne (by omega), update_of_ne (by omega), update_of_ne (by omega)]
  · simp

/-! ## The invariant -/

/-- What is known of the command in a slot: while it is at the device its
descriptors and pages ask for it, afterwards its pages hold an answer. -/
def Io (seen : Nat → Disk → Prop) (desc : Nat → Desc Addr) (mem : Memory) (out : List Nat)
    (n slot : Nat) (c : Command) : Prop :=
  (slot ∈ out → Loaded desc mem slot c) ∧
  (slot ∉ out → ∃ disk, seen n disk ∧
    (Plan.io c).Answers disk (ioReply c.write c.bytes (mem.status slot) (mem.data slot)))

def head (slot : Nat) : Nat := 3 * slot

/-- The slots in `avail` are in the available ring, those in `taken` at the
device and those in `used`, with a length each, in the used ring. -/
structure Inv (cfg : Config) (seen : Nat → Disk → Prop) (s : State) (avail taken : List Nat)
    (used : List (Nat × Nat)) : Prop where
  inOrder : InOrder (planOf cfg) seen s.chan s.table (Io seen s.q.desc s.mem (avail ++ taken))
  inFlight : InFlight s.table.slotFree s.done (avail ++ taken ++ used.map Prod.fst)
  carries : s.q.Carries s.dev.lastAvail (avail.map head) (used.map (Prod.map head id))
  taken_eq : s.dev.taken = taken.map head
  size_eq : s.q.size = 2 ^ cfg.sizeLog
  room : avail ++ taken ++ used.map Prod.fst ≠ [] → slots ≤ s.q.size
  running : s.exit ≠ some .panic ∧ s.exit ≠ some .crash

variable {cfg : Config} {seen seen' : Nat → Disk → Prop} {s s' : State} {avail taken : List Nat}
  {used : List (Nat × Nat)}

/-- The disk as it is now is one that the waiting requests have seen. -/
def Current (seen : Nat → Disk → Prop) (s : State) : Prop :=
  ∀ n, s.chan.replies.length ≤ n → n < s.chan.received.length → seen n s.dev.disk

theorem Io.mono {out : List Nat} (h : Io seen desc mem out n slot c)
    (hseen : ∀ n d, seen n d → seen' n d) : Io seen' desc mem out n slot c :=
  ⟨h.1, fun hout => (h.2 hout).imp fun d hd => ⟨hseen n d hd.1, hd.2⟩⟩

namespace Inv

theorem start (cfg : Config) (seen : Nat → Disk → Prop) (disk : Disk) :
    Inv cfg seen (start cfg disk) [] [] [] where
  inOrder := InOrder.start
  inFlight := InFlight.start
  carries :=
    { size_dvd := Nat.pow_dvd_pow 2 (cfg.sizeLog_le.trans (by decide))
      avail_taken := ⟨1, rfl, rfl, rfl, Ring.Holds.nil _ _ _⟩
      used_popped := ⟨1, rfl, rfl, Ring.Holds.nil _ _ _⟩ }
  taken_eq := rfl
  size_eq := rfl
  room := fun h => absurd rfl h
  running := ⟨nofun, nofun⟩

section
variable (h : Inv cfg seen s avail taken used)
include h

theorem mono (hseen : ∀ n d, seen n d → seen' n d) : Inv cfg seen' s avail taken used :=
  { h with inOrder := h.inOrder.mono rfl rfl hseen fun _ _ _ _ _ _ _ hio => hio.mono hseen }

/-- The invariant does not speak of the interrupts, the place in the loop or
the messages that have not been received. -/
theorem frame (hq : s'.q = s.q) (hmem : s'.mem = s.mem)
    (htable : s'.table = s.table) (hdone : s'.done = s.done)
    (hlast : s'.dev.lastAvail = s.dev.lastAvail) (htaken : s'.dev.taken = s.dev.taken)
    (hrecv : s'.chan.received = s.chan.received) (hrep : s'.chan.replies = s.chan.replies)
    (hexit : s'.exit ≠ some .panic ∧ s'.exit ≠ some .crash) : Inv cfg seen s' avail taken used := by
  refine ⟨?_, ?_, ?_, ?_, ?_, ?_, hexit⟩
  · rw [hq, hmem, htable]
    exact h.inOrder.mono hrecv hrep (fun _ _ hd => hd) fun _ _ _ _ _ _ _ hio => hio
  · rw [htable, hdone]
    exact h.inFlight
  · rw [hq, hlast]
    exact h.carries
  · rw [htaken]
    exact h.taken_eq
  · rw [hq]
    exact h.size_eq
  · rw [hq]
    exact h.room

theorem length_le : avail.length + taken.length + used.length ≤ s.table.order.length := by
  have := h.inFlight.length_le h.inOrder.valid
  rwa [length_append, length_append, length_map] at this

/-- The rings never hold a full turn of their counters. -/
theorem length_lt :
    (avail.map head).length < 2 ^ 16 ∧ (used.map (Prod.map head id)).length < 2 ^ 16 := by
  have hle := h.length_le
  have hslots := h.inOrder.valid.length_order_le
  rw [length_map, length_map]
  unfold slots at hslots
  omega

end

/-! ### The driver -/

theorem reap_nil (h : Inv cfg seen s avail taken []) : s.reap = { s with pc := .deliver } := by
  rw [State.reap, h.carries.popUsed_nil]

theorem reap_cons {x : Nat × Nat} (h : Inv cfg seen s avail taken (x :: used)) :
    ∃ q', s.reap = { s with q := q', done := update s.done x.1 true } ∧
      Inv cfg seen s.reap avail taken used := by
  obtain ⟨k, len⟩ := x
  obtain ⟨q', hpop, hcarries, hsize, hdesc⟩ := h.carries.popUsed_cons h.length_lt.2
  have hperm : (avail ++ taken ++ ((k, len) :: used).map Prod.fst).Perm
      (k :: (avail ++ taken ++ used.map Prod.fst)) := perm_middle
  have hfly := h.inFlight.perm hperm
  have hk : head k / 3 = k := Nat.mul_div_cancel_left k (by decide)
  have hlt : k < slots := (hfly.out k mem_cons_self).1
  have hreap : s.reap = { s with q := q', done := update s.done k true } := by
    rw [State.reap, hpop]
    show { s with
      q := q'
      done := if head k / 3 < slots then update s.done (head k / 3) true else s.done } = _
    rw [hk, if_pos hlt]
  refine ⟨q', hreap, ?_⟩
  rw [hreap]
  refine ⟨?_, hfly.reap, hcarries, h.taken_eq, hsize.trans h.size_eq, fun _ => ?_, h.running⟩
  · dsimp only
    rw [hdesc]
    exact h.inOrder
  · show slots ≤ q'.size
    rw [hsize]
    exact h.room (by simp)

theorem reap (h : Inv cfg seen s avail taken used) :
    ∃ used', Inv cfg seen s.reap avail taken used' := by
  cases used with
  | nil =>
    rw [h.reap_nil]
    exact ⟨[], h.frame rfl rfl rfl rfl rfl rfl rfl rfl h.running⟩
  | cons x used =>
    obtain ⟨-, -, hinv⟩ := h.reap_cons
    exact ⟨used, hinv⟩

theorem deliver (h : Inv cfg seen s avail taken used) (hcur : Current seen s) :
    Inv cfg seen s.deliver avail taken used := by
  unfold State.deliver State.headReply
  rcases hord : s.table.order with _ | ⟨idx, rest⟩
  · exact h.frame rfl rfl rfl rfl rfl rfl rfl rfl h.running
  dsimp only
  have hlt : s.chan.replies.length < s.chan.received.length := by
    have := h.inOrder.count
    rw [hord, length_cons] at this
    omega
  rcases hp : s.table.pending idx with _ | p
  · exact h.frame rfl rfl rfl rfl rfl rfl rfl rfl h.running
  cases p with
  | ready =>
    exact
      { inOrder := h.inOrder.popReady hord hp (hcur _ le_rfl hlt)
        inFlight := h.inFlight
        carries := h.carries
        taken_eq := h.taken_eq
        size_eq := h.size_eq
        room := h.room
        running := h.running }
  | io slot write len =>
    dsimp only
    by_cases hdone : s.done slot = true
    · rw [if_pos hdone]
      refine ⟨h.inOrder.popIo hord hp fun c hw hl hio => ?_, h.inFlight.free hdone, h.carries,
        h.taken_eq, h.size_eq, h.room, h.running⟩
      -- a slot that has come back is not at the device
      have hout : slot ∉ avail ++ taken := by
        intro hmem
        have := (h.inFlight.out slot (mem_append_left _ hmem)).2.2
        rw [hdone] at this
        exact Bool.false_ne_true this.symm
      rw [hw, hl]
      exact hio.2 hout
    · rw [if_neg hdone]
      exact h.frame rfl rfl rfl rfl rfl rfl rfl rfl h.running

end Inv

theorem Io.complete {mem' : Memory} {disk' : Disk} {out out' : List Nat} {k st : Nat}
    {junk : Nat → UInt8} (h : Io seen desc mem out n slot c) (hperm : (k :: out').Perm out)
    (hnot : k ∉ out') (hex : execute desc mem disk (head k) st junk = (mem', disk'))
    (hheader : mem'.header = mem.header) (hdata : ∀ i, i ≠ k → mem'.data i = mem.data i)
    (hstatus : ∀ i, i ≠ k → mem'.status i = mem.status i) (hseen : seen n disk') :
    Io seen desc mem' out' n slot c := by
  by_cases hk : slot = k
  · subst slot
    refine ⟨fun hin => absurd hin hnot, fun _ => ⟨disk', hseen, ?_⟩⟩
    obtain ⟨mem'', disk'', heq, -, -, -, hans⟩ :=
      (h.1 (hperm.mem_iff.mp mem_cons_self)).execute disk st junk
    rw [← head, hex] at heq
    cases heq
    exact hans
  · have hmem : slot ∈ out ↔ slot ∈ out' := by
      rw [← hperm.mem_iff, mem_cons]
      exact or_iff_right hk
    refine ⟨fun hin => ?_, fun hin => ?_⟩
    · obtain ⟨h₀, h₁, h₂, hhead, hpage⟩ := h.1 (hmem.mpr hin)
      exact ⟨h₀, h₁, h₂, hheader ▸ hhead, hdata slot hk ▸ hpage⟩
    · rw [hdata slot hk, hstatus slot hk]
      exact h.2 fun hout => hin (hmem.mp hout)

/-! ### A new request -/

theorem exists_setDesc {i : Nat} (h : i < q.size) (d : Desc Addr) :
    ∃ q', q.setDesc i d = some q' ∧ q'.size = q.size :=
  ⟨{ q with desc := update q.desc i d }, if_pos h, rfl⟩

theorem exists_chainSlot (h : 3 * slot + 2 < q.size) (write : Bool) (count : Nat) :
    ∃ q', chainSlot q slot write count = some q' := by
  obtain ⟨q₀, h₀, hs₀⟩ := exists_setDesc (q := q) (i := 3 * slot) (by omega)
    { addr := Addr.header slot, len := 16, flags := descNext, next := 3 * slot + 1 }
  obtain ⟨q₁, h₁, hs₁⟩ := exists_setDesc (q := q₀) (i := 3 * slot + 1) (by omega)
    { addr := .data slot, len := count * sectorSize,
      flags := descNext + (if write then 0 else descWrite), next := 3 * slot + 2 }
  obtain ⟨q₂, h₂, -⟩ := exists_setDesc (q := q₁) (i := 3 * slot + 2) (by omega)
    { addr := .status slot, len := 1, flags := descWrite, next := 0 }
  exact ⟨q₂, Option.bind_eq_some_iff.mpr ⟨q₀, h₀, Option.bind_eq_some_iff.mpr ⟨q₁, h₁, h₂⟩⟩⟩

theorem Io.submit (hchain : chainSlot q slot c.write c.count = some q') {k : Nat} {c' : Command}
    (hk : k ≠ slot) (h : Io seen q.desc mem (avail ++ taken) n k c') :
    Io seen q'.desc ((mem.loadPage slot c).request slot c.write c.sector)
      (avail ++ [slot] ++ taken) n k c' := by
  obtain ⟨-, -, hother, -⟩ := chainSlot_some hchain
  have hdata : (mem.loadPage slot c).data k = mem.data k := by
    unfold Memory.loadPage
    split
    · exact update_of_ne hk _ _
    · rfl
  have hheader : (mem.loadPage slot c).header = mem.header := by
    unfold Memory.loadPage
    split <;> rfl
  have hstatus : (mem.loadPage slot c).status = mem.status := by
    unfold Memory.loadPage
    split <;> rfl
  have hmem : k ∈ avail ++ [slot] ++ taken ↔ k ∈ avail ++ taken := by
    simp [hk]
  have hpage : ((mem.loadPage slot c).request slot c.write c.sector).data k = mem.data k := hdata
  have hst : ((mem.loadPage slot c).request slot c.write c.sector).status k = mem.status k := by
    show update (mem.loadPage slot c).status slot 0xff k = _
    rw [update_of_ne hk, hstatus]
  refine ⟨fun hout => ?_, fun hout => ?_⟩
  · obtain ⟨h₀, h₁, h₂, hhead, hp⟩ := h.1 (hmem.mp hout)
    have e₀ := hother k hk 0 (by decide)
    have e₁ := hother k hk 1 (by decide)
    have e₂ := hother k hk 2 (by decide)
    rw [Nat.add_zero] at e₀
    refine ⟨e₀ ▸ h₀, e₁ ▸ h₁, e₂ ▸ h₂, ?_, hpage ▸ hp⟩
    show update (mem.loadPage slot c).header slot _ k = _
    rw [update_of_ne hk, hheader, hhead]
  · rw [hpage, hst]
    exact h.2 (fun hin => hout (hmem.mpr hin))

theorem Loaded.submit (mem : Memory) (hchain : chainSlot q slot c.write c.count = some q')
    (hlen : c.write = true → c.bytes ≤ c.data.length) :
    Loaded q'.desc ((mem.loadPage slot c).request slot c.write c.sector) slot c := by
  obtain ⟨-, -, -, h₀, h₀', h₁, h₁', h₁'', h₂⟩ := chainSlot_some hchain
  refine ⟨⟨h₀, h₀'⟩, ⟨h₁, h₁', h₁''⟩, h₂, update_self .., fun hw => ?_⟩
  show bytes ((mem.loadPage slot c).data slot) 0 c.bytes = _
  unfold Memory.loadPage
  rw [if_pos hw]
  show bytes (update mem.data slot _ slot) 0 c.bytes = _
  rw [update_self, bytes_splice, bytes_bufOf (hlen hw)]

/-- A queue that has a slot's chain has room for all four heads. -/
theorem slots_le_of_lt {size log : Nat} (hsize : size = 2 ^ log) (hlt : 3 * slot + 2 < size) :
    slots ≤ size := by
  subst size
  rcases Nat.lt_or_ge log 2 with hlog | hlog
  · have : 2 ^ log ≤ 2 ^ 1 := Nat.pow_le_pow_right (by decide) (by omega)
    omega
  · exact Nat.pow_le_pow_right (n := 2) (by decide) hlog

/-- The driver has stopped at a failed assertion of the queue or on purpose. -/
def Stopped (cfg : Config) (s : State) : Prop :=
  (s.exit = some .panic ∧ 2 ^ cfg.sizeLog < 3 * slots) ∨
  (s.exit = some .crash ∧ cfg.crashAfter ≠ 0)

section

variable {idx slot : Nat} {c : Command} {q' : SplitQueue Addr}

theorem accept_reply (hroom : s.table.order.length < slots) (r : Reply) :
    s.accept idx (.reply r) = { s with table := s.table.pushReady idx r } :=
  if_neg (Nat.not_le.mpr hroom)

theorem accept_io (hroom : s.table.order.length < slots) (hslot : s.table.freeSlot = some slot)
    (hchain : chainSlot s.q slot c.write c.count = some q') : s.accept idx (.io c) = { s with
        mem := (s.mem.loadPage slot c).request slot c.write c.sector, q := q'.submit (3 * slot),
        table := s.table.pushIo idx slot c.write c.bytes } := by
  unfold State.accept
  dsimp only
  rw [hslot, Option.getD_some, State.submitSlot]
  rw [hchain]
  exact if_neg (Nat.not_le.mpr hroom)

theorem accept_io_none (hslot : s.table.freeSlot = some slot)
    (hchain : chainSlot s.q slot c.write c.count = none) :
    s.accept idx (.io c) = { s with exit := some .panic } := by
  unfold State.accept
  dsimp only
  rw [hslot, Option.getD_some, State.submitSlot]
  rw [hchain]

end

namespace Inv

section
variable (h : Inv cfg seen s avail taken used)
include h

section
variable {m : Message} {idx : Nat} {p : Plan}
  (hq : s'.q = s.q) (hmem : s'.mem = s.mem) (htable : s'.table = s.table)
  (hdone : s'.done = s.done) (hdev : s'.dev = s.dev) (hexit : s'.exit = s.exit)
  (hrecv : s'.chan.received = s.chan.received ++ [m]) (hrep : s'.chan.replies = s.chan.replies)
  (hroom : s.table.order.length < slots)
include hq hmem htable hdone hdev hexit hrecv hrep hroom

theorem accept (hidx : idx < slots) (hfree : s.table.pending idx = none)
    (hplan : planOf cfg m = p) : (∃ avail', Inv cfg seen (s'.accept idx p) avail' taken used) ∨
      Stopped cfg (s'.accept idx p) ∧ (s'.accept idx p).chan = s'.chan := by
  cases p with
  | reply r =>
    left
    refine ⟨avail, ?_⟩
    rw [accept_reply (htable ▸ hroom), htable]
    exact
      { inOrder := hq ▸ hmem ▸ h.inOrder.pushReady hidx hfree hrecv hrep hplan
        inFlight := hdone ▸ h.inFlight
        carries := hq ▸ hdev ▸ h.carries
        taken_eq := hdev ▸ h.taken_eq
        size_eq := hq ▸ h.size_eq
        room := hq ▸ h.room
        running := hexit ▸ h.running }
  | io c =>
    obtain ⟨slot, hslot⟩ := h.inOrder.valid.exists_freeSlot hroom
    obtain ⟨hlt, hsf⟩ := Table.find_range_some hslot
    by_cases hsize : 3 * slot + 2 < s.q.size
    · left
      obtain ⟨q', hchain⟩ := exists_chainSlot hsize c.write c.count
      refine ⟨avail ++ [slot], ?_⟩
      rw [accept_io (htable ▸ hroom) (htable ▸ hslot) (hq ▸ hchain), htable, hmem]
      have hloaded := Loaded.submit s.mem hchain (plan_io_length hplan)
      obtain ⟨-, ⟨f, rfl⟩, -⟩ := chainSlot_some hchain
      have hperm : (slot :: (avail ++ taken ++ used.map Prod.fst)).Perm
          (avail ++ [slot] ++ taken ++ used.map Prod.fst) := by
        rw [append_assoc avail [slot], append_assoc, append_assoc]
        exact perm_middle.symm
      have hne : ∀ k, s.table.slotFree k = false → k ≠ slot := by
        rintro k hk rfl
        rw [hk] at hsf
        exact Bool.false_ne_true hsf
      have hslots : slots ≤ s.q.size := slots_le_of_lt h.size_eq hsize
      have hlen : (avail.map head).length < s.q.size := by
        have := h.length_le
        rw [length_map]
        omega
      exact
        { inOrder := h.inOrder.pushIo hidx hfree hlt hsf hrecv hrep hplan
            (fun _ k _ _ hk hio => hio.submit hchain (hne k hk))
            ⟨fun _ => hloaded, fun hout => absurd (by simp) hout⟩
          inFlight := hdone ▸ (h.inFlight.submit hlt hsf).perm hperm
          carries := by
            have := (h.carries.setDesc f).submit hlen (head slot)
            rw [map_append]
            exact hdev ▸ this
          taken_eq := hdev ▸ h.taken_eq
          size_eq := h.size_eq
          room := fun _ => hslots
          running := hexit ▸ h.running }
    · right
      have hnone : chainSlot s.q slot c.write c.count = none := by
        cases hchain : chainSlot s.q slot c.write c.count with
        | none => rfl
        | some q' => exact absurd (chainSlot_some hchain).1 hsize
      rw [accept_io_none (htable ▸ hslot) (hq ▸ hnone)]
      refine ⟨.inl ⟨rfl, ?_⟩, rfl⟩
      rw [← h.size_eq]
      unfold slots at hlt ⊢
      omega

variable (s') in
theorem handle : (∃ avail', Inv cfg seen (s'.handle cfg m) avail' taken used) ∨
      Stopped cfg (s'.handle cfg m) ∧ (s'.handle cfg m).chan = s'.chan := by
  unfold State.handle
  rw [htable]
  rcases hidx : s.table.freeIdx with _ | idx
  · exact absurd (h.inOrder.valid.freeIdx_eq_none.mp hidx) (Nat.not_le.mpr hroom)
  obtain ⟨hlt, hnone⟩ := Table.find_range_some hidx
  have hfree := Option.isNone_iff_eq_none.mp hnone
  rcases hdec : decodeRequest m.data with e | rq
  · exact h.accept hq hmem htable hdone hdev hexit hrecv hrep hroom hlt hfree
      (by rw [planOf, hdec])
  dsimp only
  split
  · rename_i hcrash
    exact .inr ⟨.inr ⟨rfl, hcrash.1⟩, rfl⟩
  · exact h.accept hq hmem rfl hdone hdev hexit hrecv hrep hroom hlt hfree
      (by rw [planOf, hdec])

end

theorem receive (hroom : s.chan.inbox ≠ [] → s.table.order.length < slots) :
    (∃ avail', Inv cfg seen (s.receive cfg) avail' taken used) ∨
      Stopped cfg (s.receive cfg) ∧ (∃ m, (s.receive cfg).chan.received = s.chan.received ++ [m]) ∧
        (s.receive cfg).chan.replies = s.chan.replies := by
  unfold State.receive Chan.tryRecv
  cases hin : s.chan.inbox with
  | nil =>
    left
    refine ⟨avail, ?_⟩
    cases s.chan.closed with
    | false =>
      rw [if_neg Bool.false_ne_true]
      dsimp only
      split
      · exact h.frame rfl rfl rfl rfl rfl rfl rfl rfl h.running
      · exact h
    | true => exact h.frame rfl rfl rfl rfl rfl rfl rfl rfl ⟨nofun, nofun⟩
  | cons m rest =>
    dsimp only
    by_cases hfail : m.handles > 1 ∨ s.chan.handles + m.handles > handlesMax
    · rw [if_pos hfail]
      exact .inl ⟨avail, h.frame rfl rfl rfl rfl rfl rfl rfl rfl ⟨nofun, nofun⟩⟩
    rw [if_neg hfail]
    rcases h.handle { s with chan := s.chan.took m rest } rfl rfl rfl rfl rfl rfl rfl rfl
      (hroom (by rw [hin]; exact cons_ne_nil m rest)) with ⟨avail', hinv⟩ | ⟨hstop, hchan⟩
    · exact .inl ⟨avail', hinv.frame rfl rfl rfl rfl rfl rfl rfl rfl hinv.running⟩
    have hrecv := congrArg Chan.received hchan
    have hrep := congrArg Chan.replies hchan
    exact .inr ⟨hstop, ⟨m, hrecv⟩, hrep⟩

end

/-! ### The device -/

theorem take (h : Inv cfg seen s avail taken used) :
    ∃ avail' taken', Inv cfg seen s.take avail' taken' used := by
  unfold State.take
  rcases avail with _ | ⟨k, avail⟩
  · rw [h.carries.takeAvail_nil]
    exact ⟨[], taken, h⟩
  obtain ⟨last, htake, hcarries⟩ := h.carries.takeAvail_cons h.length_lt.1
  rw [htake]
  have hperm : (k :: avail ++ taken).Perm (avail ++ (taken ++ [k])) := by
    rw [← append_assoc]
    exact (perm_append_singleton k (avail ++ taken)).symm
  refine ⟨avail, taken ++ [k], ?_, h.inFlight.perm (hperm.append_right _), hcarries, ?_,
    h.size_eq, fun hne => h.room ?_, h.running⟩
  · refine h.inOrder.mono rfl rfl (fun _ _ hd => hd) fun n slot c _ _ _ _ hio => ?_
    exact ⟨fun hout => hio.1 (hperm.mem_iff.mpr hout),
      fun hout => hio.2 fun hin => hout (hperm.mem_iff.mp hin)⟩
  · show s.dev.taken ++ [head k] = _
    rw [h.taken_eq, map_append]
    rfl
  · exact cons_ne_nil k _

variable {i st len : Nat} {junk : Nat → UInt8}

theorem complete_none (hi : s.dev.taken[i]? = none) : s.complete i st len junk = s := by
  rw [State.complete, hi]

theorem complete_some {hd : Nat} {mem' : Memory} {disk' : Disk} (hi : s.dev.taken[i]? = some hd)
    (hex : execute s.q.desc s.mem s.dev.disk hd st junk = (mem', disk')) :
    s.complete i st len junk = { s with mem := mem', q := s.q.publish hd len, dev := { s.dev with
          disk := disk', taken := s.dev.taken.eraseIdx i, irqDue := true } } := by
  rw [State.complete, hi]
  dsimp only
  rw [hex]

theorem complete (h : Inv cfg seen s avail taken used)
    (hcur : Current seen (s.complete i st len junk)) :
    ∃ taken' used', Inv cfg seen (s.complete i st len junk) avail taken' used' := by
  rcases hi : taken[i]? with _ | k
  · rw [complete_none (by rw [h.taken_eq, List.getElem?_map, hi]; rfl)]
    exact ⟨taken, used, h⟩
  have hhead : s.dev.taken[i]? = some (head k) := by
    rw [h.taken_eq, List.getElem?_map, hi]
    rfl
  obtain ⟨hlt, hki⟩ := List.getElem?_eq_some_iff.mp hi
  have htaken : (k :: taken.eraseIdx i).Perm taken := by
    have := getElem_cons_eraseIdx_perm hlt
    rwa [hki] at this
  have hout : (k :: (avail ++ taken.eraseIdx i)).Perm (avail ++ taken) :=
    perm_middle.symm.trans (htaken.append_left avail)
  have hperm : (avail ++ taken ++ used.map Prod.fst).Perm
      (avail ++ taken.eraseIdx i ++ (used ++ [(k, len)]).map Prod.fst) := by
    rw [map_append, ← append_assoc]
    exact (hout.symm.append_right _).trans (perm_append_singleton k _).symm
  have hmem : k ∈ avail ++ taken := hout.mem_iff.mp mem_cons_self
  have hnot : k ∉ avail ++ taken.eraseIdx i :=
    (nodup_cons.mp (hout.nodup_iff.mpr (nodup_append.mp h.inFlight.nodup).1)).1
  obtain ⟨hk, hsf, -⟩ := h.inFlight.out k (mem_append_left _ hmem)
  obtain ⟨n₀, c₀, -, -, hio⟩ := h.inOrder.command hk hsf
  obtain ⟨mem', disk', hex, hheader, hdata, hstatus, -⟩ :=
    (hio.1 hmem).execute s.dev.disk st junk
  rw [complete_some hhead hex] at hcur ⊢
  have hroom : slots ≤ s.q.size := h.room (ne_nil_of_mem (mem_append_left _ hmem))
  have hlen : (used.map (Prod.map head id)).length < s.q.size := by
    have hle := h.length_le
    have hslots := h.inOrder.valid.length_order_le
    rw [length_map]
    omega
  refine ⟨taken.eraseIdx i, used ++ [(k, len)], ?_, h.inFlight.perm hperm, ?_, ?_, h.size_eq,
    fun _ => hroom, h.running⟩
  · refine h.inOrder.mono rfl rfl (fun _ _ hd => hd) fun n slot c hle hn _ _ hio' => ?_
    exact hio'.complete hout hnot hex hheader hdata hstatus (hcur n hle hn)
  · rw [map_append]
    exact h.carries.publish hlen (head k) len
  · show s.dev.taken.eraseIdx i = _
    rw [h.taken_eq, eraseIdx_map]

end Inv
/-! ## Runs -/

/-- A receive would find a free place for its message. -/
def State.hasRoom (s : State) : Bool :=
  s.exit.isSome || s.pc != .receive || s.chan.inbox.isEmpty || s.table.order.length < slots

theorem State.hasRoom_receive (h : s.hasRoom = true) (hexit : s.exit = none)
    (hpc : s.pc = .receive) : s.chan.inbox ≠ [] → s.table.order.length < slots := by
  intro hin
  simpa [State.hasRoom, hexit, hpc, hin] using h

def Event.isDrive : Event → Bool
  | .drive => true
  | _ => false

/-- The disk at some moment at which request number `n` waited. -/
def Seen (cfg : Config) (disk : Disk) (evs : List Event) (n : Nat) (d : Disk) : Prop :=
  ∃ pre, pre <+: evs ∧ d = (run cfg disk pre).dev.disk ∧
    (run cfg disk pre).chan.replies.length ≤ n ∧ n < (run cfg disk pre).chan.received.length

theorem Seen.mono {d : Disk} {evs : List Event} (h : Seen cfg disk evs n d) (evs' : List Event) :
    Seen cfg disk (evs ++ evs') n d := by
  obtain ⟨pre, hpre, hd⟩ := h
  exact ⟨pre, hpre.trans (prefix_append evs evs'), hd⟩

/-- The invariant, or the driver has stopped with all its replies right. -/
def Safe (cfg : Config) (seen : Nat → Disk → Prop) (s : State) : Prop :=
  (∃ avail taken used, Inv cfg seen s avail taken used) ∨
  (Stopped cfg s ∧
    ∀ i r, s.chan.replies[i]? = some r → AnswerTo (planOf cfg) seen s.chan.received i r)

theorem Stopped.exit_ne (h : Stopped cfg s) : s.exit ≠ none := by
  rcases h with ⟨h, -⟩ | ⟨h, -⟩ <;> simp [h]

theorem Stopped.step (h : Stopped cfg s) (e : Event) :
    Stopped cfg (s.step cfg e) ∧ (s.step cfg e).chan.replies = s.chan.replies ∧
      (s.step cfg e).chan.received = s.chan.received := by
  have hne := h.exit_ne
  cases e with
  | send m =>
    rw [State.step, if_pos hne]
    exact ⟨h, rfl, rfl⟩
  | close | interrupt => exact ⟨h, rfl, rfl⟩
  | take =>
    rw [State.step, State.take]
    split <;> exact ⟨h, rfl, rfl⟩
  | complete k st len junk =>
    rw [State.step, State.complete]
    split <;> exact ⟨h, rfl, rfl⟩
  | drive =>
    rw [State.step, State.drive, if_pos hne]
    exact ⟨h, rfl, rfl⟩

theorem Inv.drive (h : Inv cfg seen s avail taken used) (hroom : s.hasRoom = true)
    (hcur : Current seen s) : Safe cfg seen (s.drive cfg) := by
  unfold State.drive
  by_cases hexit : s.exit = none
  · rw [if_neg (not_not.mpr hexit)]
    split
    · obtain ⟨used', hinv⟩ := h.reap
      exact .inl ⟨avail, taken, used', hinv⟩
    · exact .inl ⟨avail, taken, used, h.deliver hcur⟩
    · rename_i hpc
      rcases h.receive (State.hasRoom_receive hroom hexit hpc) with
        ⟨avail', hinv⟩ | ⟨hstop, ⟨m, hrecv⟩, hrep⟩
      · exact .inl ⟨avail', taken, used, hinv⟩
      refine .inr ⟨hstop, fun i r hr => ?_⟩
      rw [hrep] at hr
      rw [hrecv]
      exact (h.inOrder.answered i r hr).append m
    · left
      refine ⟨avail, taken, used, ?_⟩
      unfold State.waitIrq
      split
      · split
        · exact h.frame rfl rfl rfl rfl rfl rfl rfl rfl h.running
        · exact h
      · exact h.frame rfl rfl rfl rfl rfl rfl rfl rfl h.running
  · rw [if_pos hexit]
    exact .inl ⟨avail, taken, used, h⟩

theorem Safe.step (h : Safe cfg seen s) {e : Event} (hroom : (!e.isDrive || s.hasRoom) = true)
    (hcur : Current seen s) (hcur' : Current seen (s.step cfg e)) :
    Safe cfg seen (s.step cfg e) := by
  rcases h with ⟨avail, taken, used, h⟩ | ⟨hstop, hans⟩
  · cases e with
    | send m =>
      left
      refine ⟨avail, taken, used, ?_⟩
      rw [State.step]
      split
      · exact h
      · obtain ⟨hrecv, hrep⟩ := Chan.received_send s.chan m
        exact h.frame rfl rfl rfl rfl rfl rfl hrecv hrep h.running
    | close | interrupt =>
      exact .inl ⟨avail, taken, used, h.frame rfl rfl rfl rfl rfl rfl rfl rfl h.running⟩
    | take =>
      obtain ⟨avail', taken', hinv⟩ := h.take
      exact .inl ⟨avail', taken', used, hinv⟩
    | complete k st len junk =>
      obtain ⟨taken', used', hinv⟩ := h.complete hcur'
      exact .inl ⟨avail, taken', used', hinv⟩
    | drive => exact h.drive hroom hcur
  · obtain ⟨hstop', hrep, hrecv⟩ := hstop.step e
    refine .inr ⟨hstop', fun i r hr => ?_⟩
    rw [hrep] at hr
    rw [hrecv]
    exact hans i r hr

theorem Safe.mono (h : Safe cfg seen s) (hseen : ∀ n d, seen n d → seen' n d) :
    Safe cfg seen' s := by
  rcases h with ⟨avail, taken, used, h⟩ | ⟨hstop, hans⟩
  · exact .inl ⟨avail, taken, used, h.mono hseen⟩
  · exact .inr ⟨hstop, fun i r hr => (hans i r hr).mono hseen⟩

theorem run_append (cfg : Config) (disk : Disk) (evs : List Event) (e : Event) :
    run cfg disk (evs ++ [e]) = (run cfg disk evs).step cfg e := by
  rw [run, run, foldl_append]
  rfl

end NexoOS.Block.Blockdev
