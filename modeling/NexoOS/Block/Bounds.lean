import NexoOS.Block.Blockdev
import NexoOS.Block.Nvmedev

/-!
# Requests and the end of the disk

Both drivers compare the end of a request with the size of the disk, and both
compute it in 64 bits. What follows is exactly when that comparison keeps a
request off the device that does not lie on the disk.
-/

namespace NexoOS.Block

/-- The sectors that a request is about, first and number. -/
def Request.extent : Request → Option (Nat × Nat)
  | .read sector count => some (sector, count)
  | .write sector count _ => some (sector, count)
  | .capacity => none
  | .identity => none

/-- A command is given to the device only for sectors of the disk, and other
requests are answered with an error. -/
def Respects (capacity : Nat) (rq : Request) (p : Plan) : Prop :=
  ∀ sector count, rq.extent = some (sector, count) →
    (∀ c, p = .io c → c.sector = sector ∧ c.count = count ∧ sector + count ≤ capacity) ∧
    (capacity < sector + count → ∃ method code, p = .reply (.error method code))

/-- The end of the request passes `2 ^ 64` and comes out on the disk. -/
def WrapsOnto (capacity : Nat) (rq : Request) : Prop :=
  ∃ sector count, rq.extent = some (sector, count) ∧ 2 ^ 64 ≤ sector + count ∧
    sector + count - 2 ^ 64 ≤ capacity

/-- The fields as the protocol has them. -/
def Request.Fits (rq : Request) : Prop :=
  ∀ sector count, rq.extent = some (sector, count) → sector < 2 ^ 64 ∧ count < 2 ^ 32

variable {count : Nat} {rq : Request}

/-- What the comparison in 64 bits says of a request of few sectors. -/
theorem past_iff {capacity sector : Nat} (hs : sector < 2 ^ 64) (hc : count ≤ maxSectors)
    (hcap : capacity < 2 ^ 64) : ¬ (sector + count) % 2 ^ 64 > capacity ↔
      sector + count ≤ capacity ∨ 2 ^ 64 ≤ sector + count ∧ sector + count - 2 ^ 64 ≤ capacity := by
  simp only [maxSectors] at hc
  omega

/-- A driver that gives the device what passes its `checks` and the comparison
in 64 bits, and refuses the rest, respects the end of the disk but for the
requests that wrap onto it. -/
theorem respects_iff {capacity sector : Nat} {p : Plan} {checks : Prop}
    {c : Command} (hx : rq.extent = some (sector, count)) (hs : sector < 2 ^ 64)
    (hcap : capacity < 2 ^ 64) (hc : c.sector = sector ∧ c.count = count)
    (hcount : checks → count ≤ maxSectors)
    (hio : checks → ¬ (sector + count) % 2 ^ 64 > capacity → p = .io c)
    (herr : ¬ (checks ∧ ¬ (sector + count) % 2 ^ 64 > capacity) →
      ∃ method code, p = .reply (.error method code)) :
    Respects capacity rq p ↔ ¬ (checks ∧ WrapsOnto capacity rq) := by
  constructor
  · rintro h ⟨hchecks, s, n, hx', hwrap, hon⟩
    rw [hx] at hx'
    cases hx'
    have hpass := (past_iff hs (hcount hchecks) hcap).2 (.inr ⟨hwrap, hon⟩)
    have hle := ((h _ _ hx).1 c (hio hchecks hpass)).2.2
    omega
  · intro h s n hx'
    rw [hx] at hx'
    cases hx'
    by_cases hpass : checks ∧ ¬ (sector + count) % 2 ^ 64 > capacity
    · have hp := hio hpass.1 hpass.2
      rcases (past_iff hs (hcount hpass.1) hcap).1 hpass.2 with hle | hwrap
      · refine ⟨fun c' hc' => ?_, fun hlt => absurd hle (Nat.not_le.2 hlt)⟩
        rw [hp] at hc'
        cases hc'
        exact ⟨hc.1, hc.2, hle⟩
      · exact absurd ⟨hpass.1, sector, count, hx, hwrap⟩ h
    · obtain ⟨method, code, hp⟩ := herr hpass
      refine ⟨fun c' hc' => ?_, fun _ => ⟨method, code, hp⟩⟩
      rw [hp] at hc'
      cases hc'

/-- The checks of `blockdev` other than the one against the capacity. -/
def Blockdev.Checks (cfg : Blockdev.Config) : Request → Prop
  | .read _ count => count ≠ 0 ∧ count ≤ maxSectors
  | .write _ count data =>
    cfg.readOnly = false ∧ (count ≠ 0 ∧ count ≤ maxSectors) ∧ count * sectorSize ≤ data.length
  | _ => False

/-- The checks of `nvmedev` other than the one against the size. -/
def Nvmedev.Checks : Request → Prop
  | .read _ count => count ≠ 0 ∧ count ≤ maxSectors
  | .write _ count data => (count ≠ 0 ∧ count ≤ maxSectors) ∧ data.length = count * 512
  | _ => False

theorem not_refused_iff {past : Prop} :
    ¬ (count = 0 ∨ count > maxSectors ∨ past) ↔ (count ≠ 0 ∧ count ≤ maxSectors) ∧ ¬ past := by
  rw [not_or, not_or, Nat.not_lt, and_assoc]

theorem Blockdev.respects_iff (cfg : Blockdev.Config) (hcap : cfg.capacity < 2 ^ 64) (hf : rq.Fits) :
    Respects cfg.capacity rq (Blockdev.plan cfg (.ok rq)) ↔
      ¬ (Blockdev.Checks cfg rq ∧ WrapsOnto cfg.capacity rq) := by
  cases rq with
  | read sector count =>
    refine Block.respects_iff (c := { write := false, sector, count, data := [] }) rfl
      (hf _ _ rfl).1 hcap ⟨rfl, rfl⟩ (fun h => h.2) ?_ ?_
    · intro h hpass
      have hno := not_refused_iff.2 ⟨h, hpass⟩
      exact if_neg hno
    · intro h
      have hyes := not_not.1 fun hn => h (not_refused_iff.1 hn)
      exact ⟨readMethod, 2, if_pos hyes⟩
  | write sector count data =>
    refine Block.respects_iff (c := { write := true, sector, count, data }) rfl
      (hf _ _ rfl).1 hcap ⟨rfl, rfl⟩ (fun h => h.2.1.2) ?_ ?_
    · intro h hpass
      have hno : ¬ (count = 0 ∨ count > maxSectors ∨ pastCapacity cfg sector count) :=
        not_refused_iff.2 ⟨h.2.1, hpass⟩
      simp only [plan, h.1, if_neg hno, if_neg (Nat.not_lt.2 h.2.2), Bool.false_eq_true, if_false]
    · intro h
      cases hro : cfg.readOnly with
      | true => exact ⟨writeMethod, 4, by simp only [plan, hro, if_true]⟩
      | false =>
        by_cases hyes : count = 0 ∨ count > maxSectors ∨ pastCapacity cfg sector count
        · exact ⟨writeMethod, 2, by
            simp only [plan, hro, if_pos hyes, Bool.false_eq_true, if_false]⟩
        obtain ⟨hcount, hpass⟩ := not_refused_iff.1 hyes
        have hshort : data.length < count * sectorSize :=
          Nat.not_le.1 fun hle => h ⟨⟨hro, hcount, hle⟩, hpass⟩
        exact ⟨writeMethod, 3, by
          simp only [plan, hro, if_neg hyes, if_pos hshort, Bool.false_eq_true, if_false]⟩
  | capacity | identity => exact ⟨fun _ h => h.1, fun _ => nofun⟩

theorem Nvmedev.respects_iff (cfg : Nvmedev.Config) (hcap : cfg.nsze < 2 ^ 64) (hf : rq.Fits) :
    Respects cfg.nsze rq (Nvmedev.plan cfg (.ok rq)) ↔
      ¬ (Nvmedev.Checks rq ∧ WrapsOnto cfg.nsze rq) := by
  cases rq with
  | read sector count =>
    refine Block.respects_iff (c := { write := false, sector, count, data := [] }) rfl
      (hf _ _ rfl).1 hcap ⟨rfl, rfl⟩ (fun h => h.2) ?_ ?_
    · intro h hpass
      have hno := not_refused_iff.2 ⟨h, hpass⟩
      exact if_neg hno
    · intro h
      have hyes := not_not.1 fun hn => h (not_refused_iff.1 hn)
      exact ⟨readMethod, 2, if_pos hyes⟩
  | write sector count data =>
    refine Block.respects_iff (c := { write := true, sector, count, data }) rfl
      (hf _ _ rfl).1 hcap ⟨rfl, rfl⟩ (fun h => h.1.2) ?_ ?_
    · intro h hpass
      have hno : ¬ (count = 0 ∨ count > maxSectors ∨ data.length ≠ count * 512 ∨
          pastEnd cfg sector count) :=
        not_refused_iff.2 ⟨h.1, not_or.2 ⟨not_not.2 h.2, hpass⟩⟩
      exact if_neg hno
    · intro h
      have hyes : count = 0 ∨ count > maxSectors ∨ data.length ≠ count * 512 ∨
          pastEnd cfg sector count := by
        by_contra hn
        obtain ⟨hcount, hrest⟩ := not_refused_iff.1 hn
        obtain ⟨hlen, hpass⟩ := not_or.1 hrest
        exact h ⟨⟨hcount, not_not.1 hlen⟩, hpass⟩
      exact ⟨writeMethod, 2, if_pos hyes⟩
  | capacity | identity => exact ⟨fun _ h => h.1, fun _ => nofun⟩

/-- For every read or write request, each driver keeps to the sectors of the
disk if and only if the request does not pass the driver's other checks with an
end that wraps onto the disk. -/
theorem drivers_stay_on_disk_iff (bcfg : Blockdev.Config) (ncfg : Nvmedev.Config)
    (hb : bcfg.capacity < 2 ^ 64) (hn : ncfg.nsze < 2 ^ 64) (rq : Request) (hf : rq.Fits) :
    (Respects bcfg.capacity rq (Blockdev.plan bcfg (.ok rq)) ↔
      ¬ (Blockdev.Checks bcfg rq ∧ WrapsOnto bcfg.capacity rq)) ∧
    (Respects ncfg.nsze rq (Nvmedev.plan ncfg (.ok rq)) ↔
      ¬ (Nvmedev.Checks rq ∧ WrapsOnto ncfg.nsze rq)) :=
  ⟨Blockdev.respects_iff bcfg hb hf, Nvmedev.respects_iff ncfg hn hf⟩

def smallBlockdev : Blockdev.Config where
  capacity := 100
  readOnly := false
  serial := []
  sizeLog := 4
  sizeLog_le := by decide
  irq := false
  crashAfter := 0

def smallNvmedev : Nvmedev.Config where
  nsze := 100
  serial := []
  irq := false

/-- The last sector of the address space is taken for a sector of the disk. -/
theorem drivers_leave_disk : Blockdev.plan smallBlockdev (.ok (.read (2 ^ 64 - 1) 1)) =
        .io { write := false, sector := 2 ^ 64 - 1, count := 1, data := [] } ∧
      Nvmedev.plan smallNvmedev (.ok (.read (2 ^ 64 - 1) 1)) =
        .io { write := false, sector := 2 ^ 64 - 1, count := 1, data := [] } ∧
      ¬ Respects smallBlockdev.capacity (.read (2 ^ 64 - 1) 1)
        (Blockdev.plan smallBlockdev (.ok (.read (2 ^ 64 - 1) 1))) ∧
      ¬ Respects smallNvmedev.nsze (.read (2 ^ 64 - 1) 1)
        (Nvmedev.plan smallNvmedev (.ok (.read (2 ^ 64 - 1) 1))) := by
  refine ⟨by decide, by decide, fun h => ?_, fun h => ?_⟩
  · exact absurd ((h _ _ rfl).1 _ rfl).2.2 (by decide)
  · exact absurd ((h _ _ rfl).1 _ rfl).2.2 (by decide)

/-- The last sectors of the disk, by both drivers. -/
theorem drivers_stay_on_disk_iff_last : Respects smallBlockdev.capacity (.read 93 7)
        (Blockdev.plan smallBlockdev (.ok (.read 93 7))) ∧
      Respects smallNvmedev.nsze (.read 93 7) (Nvmedev.plan smallNvmedev (.ok (.read 93 7))) := by
  have hf : Request.Fits (.read 93 7) := by
    intro sector count h
    cases h
    exact ⟨by decide, by decide⟩
  have hno : ∀ capacity, ¬ WrapsOnto capacity (.read 93 7) := by
    rintro capacity ⟨sector, count, h, hwrap, -⟩
    cases h
    exact absurd hwrap (by decide)
  have h := drivers_stay_on_disk_iff smallBlockdev smallNvmedev (by decide) (by decide) _ hf
  exact ⟨h.1.2 fun hw => hno _ hw.2, h.2.2 fun hw => hno _ hw.2⟩

end NexoOS.Block
