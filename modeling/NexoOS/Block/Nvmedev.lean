import NexoOS.Block.Pending

/-!
# The requests of the NVMe driver

What `services/nvmedev/src/main.rs` makes of a message: the checks before a
command is submitted, and the replies it gives at once.
-/

namespace NexoOS.Block.Nvmedev

/-- What the start of the driver finds. -/
structure Config where
  /-- Size of the namespace in sectors. -/
  nsze : Nat
  serial : List UInt8
  /-- Interrupts are set up; without them the driver polls. -/
  irq : Bool

/-- `rq.sector + rq.count as u64 > nsze`, where the sum wraps. -/
def pastEnd (cfg : Config) (sector count : Nat) : Prop := (sector + count) % 2 ^ 64 > cfg.nsze

instance (cfg : Config) (sector count : Nat) : Decidable (pastEnd cfg sector count) :=
  inferInstanceAs (Decidable (_ > _))

/-- What the driver makes of a message. -/
def plan (cfg : Config) : Except ProtoError Request → Plan
  | .error _ => .reply (.error 0 1)
  | .ok .capacity => .reply (.capacity cfg.nsze)
  | .ok .identity => .reply (.identity false cfg.serial)
  | .ok (.read sector count) =>
    if count = 0 ∨ count > maxSectors ∨ pastEnd cfg sector count then
      .reply (.error readMethod 2)
    else .io { write := false, sector, count, data := [] }
  | .ok (.write sector count data) =>
    if count = 0 ∨ count > maxSectors ∨ data.length ≠ count * 512 ∨ pastEnd cfg sector count then
      .reply (.error writeMethod 2)
    else .io { write := true, sector, count, data }

end NexoOS.Block.Nvmedev
