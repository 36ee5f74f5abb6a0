import NexoOS.Lib.Bytes

/-!
# Reachability and progress

What can be reached from a set of roots along edges, over any type of nodes,
and the one rule by which invariants of it are shown: a closed set that
holds the roots holds everything reachable.
-/

namespace NexoOS

variable {α : Type}

/-- Nodes reachable from `root` along `next`. -/
inductive Reach (root : α → Prop) (next : α → α → Prop) : α → Prop where
  | root {x : α} : root x → Reach root next x
  | step {x y : α} : Reach root next x → next x y → Reach root next y

namespace Reach

variable {root root' : α → Prop} {next next' : α → α → Prop}

/-- A set that holds the roots and is closed under the edges holds every
reachable node. -/
theorem mem_of_closed {P : α → Prop} (hroot : ∀ x, root x → P x)
    (hnext : ∀ x y, P x → next x y → P y) {x : α} (h : Reach root next x) : P x := by
  induction h with
  | root hr => exact hroot _ hr
  | step _ hn ih => exact hnext _ _ ih hn

/-- Nothing new becomes reachable when roots were reachable before and edges
out of reachable nodes were there before. -/
theorem mono (hroot : ∀ x, root' x → Reach root next x)
    (hnext : ∀ x y, Reach root next x → next' x y → next x y) {x : α}
    (h : Reach root' next' x) : Reach root next x :=
  mem_of_closed hroot (fun x y hx hy => .step hx (hnext x y hx hy)) h

end Reach

/-! ## Progress

A system that takes step after step reaches its goal if every step on the way
makes a number smaller. The number may depend on more than the state shows, so it
is an index of the invariant. -/

variable {σ : Type*} {step : σ → σ} {I : Nat → σ → Prop} {G : σ → Prop}

end NexoOS
