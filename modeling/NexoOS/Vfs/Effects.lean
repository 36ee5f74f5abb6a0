import NexoOS.Vfs.Sessions

/-! # What a request can do to the tables of `vfs`

The volumes behind the services may change in any way. The table of `/boot`
changes only by `remember`, in `stat`, and the files of `/tmp` only by one of
five updates, in a request on `/tmp`. -/

namespace NexoOS.Vfs

open Confine State

/-! ## One request -/

section Request

variable {D E : Type} {fs : D → FsRequest → D × Option Reply}
variable {esp : E → EspRequest → E × Option (Message EspResponse)} {mounts : UInt64}

/-- A relation on the worlds before and after a request that allows what the
services and the two tables may do, `boot` and `tmp` saying where the tables
may change at all. -/
structure Allows (boot tmp : Prop) (R : World D E → World D E → Prop) : Prop where
  refl : ∀ w, R w w
  trans : ∀ w w' w'', R w w' → R w' w'' → R w w''
  disk : ∀ w d, R w { w with disk := d }
  esp : ∀ w e, R w { w with esp := e }
  remember : boot → ∀ w path i t, w.bootTable.remember path = some (i, t) →
    R w { w with bootTable := t }
  ram : tmp → ∀ w r, w.ram.Step r → R w { w with ram := r }

variable {boot tmp : Prop} {R : World D E → World D E → Prop}

theorem Allows.bootRemember (ha : Allows boot tmp R) (hboot : boot) (path : List UInt8) :
    Moves R (Vfs.bootRemember path : VfsM D E _) := by
  refine .bind_result ha.trans (.modifyGet ha.refl) fun w t ht => ?_
  cases ht
  split
  · exact ha.refl w
  · rename_i i t' hrem
    exact ha.remember hboot w path i t' hrem

theorem Uses.moves {S : Set Mount} {α : Type} {x : VfsM D E α} (h : Uses fs esp S boot tmp x)
    (ha : Allows boot tmp R) : Moves R x := by
  induction h with
  | pure a => exact .pure ha.refl a
  | throw e => exact .throw ha.refl e
  | bind _ _ hx hf => exact .bind ha.trans hx hf
  | callFs _ rq => exact .modifyGet fun w => ha.disk w _
  | callEsp _ rq => exact .modifyGet fun w => ha.esp w _
  | bootTable | ramfs => exact .modifyGet ha.refl
  | bootRemember _ hboot path => exact ha.bootRemember hboot path
  | @update α f _ hf =>
    refine .bind_result ha.trans (.modifyGet ha.refl) fun w r hr => ?_
    cases hr
    have hw := hf w.ram
    generalize f w.ram = y at hw ⊢
    cases hw with
    | throw e => exact ha.refl w
    | set htmp hstep a => exact ha.ram htmp w _ hstep

/-- The one rule for what a request does to the world. -/
theorem moves_serve {rq : FsRequest}
    (ha : Allows (∃ path, rq = .stat path) (ChangesTmp mounts rq) R) :
    Moves R (serve fs esp mounts rq) :=
  (uses_serve rq).moves ha

theorem Allows.mono {boot' tmp' : Prop} (ha : Allows boot tmp R) (hboot : boot' → boot)
    (htmp : tmp' → tmp) : Allows boot' tmp' R where
  __ := ha
  remember h := ha.remember (hboot h)
  ram h := ha.ram (htmp h)

end Request

/-! ## Steps and runs of the loop -/

section Loop

variable {D E : Type} {fs : D → FsRequest → D × Option Reply}
variable {esp : E → EspRequest → E × Option (Message EspResponse)}
variable {R : World D E → World D E → Prop}

theorem State.serve_world (s : State D E) (ch : UInt32) (sess : UInt64) (rq : FsRequest) :
    (s.serve fs esp ch sess rq).1.world = final (Vfs.serve fs esp sess rq) s.world := by
  simp only [serve]
  split <;> rfl

theorem result_answer (x : VfsM D E FsResponse) (w : World D E) :
    result (answer x) w = (result x w).map fun r => { msg := .response r } := by
  rw [answer, Confined.result_bind]
  cases result x w <;> rfl

theorem final_answer (x : VfsM D E FsResponse) (w : World D E) :
    final (answer x) w = final x w := by
  rw [answer, Confined.final_bind]
  cases result x w <;> rfl

theorem State.serve_response {s : State D E} {ch ch' : UInt32} {sess : UInt64} {rq : FsRequest}
    {resp : FsResponse} {x : VfsM D E FsResponse} (hx : Vfs.serve fs esp sess rq = answer x)
    (h : .send ch' { msg := .response resp } ∈ (s.serve fs esp ch sess rq).2) :
    result x s.world = .ok resp ∧ (s.serve fs esp ch sess rq).1.world = final x s.world := by
  refine ⟨?_, by rw [serve_world, hx, final_answer]⟩
  simp only [serve, hx, result_answer] at h
  cases hr : result x s.world with
  | ok r =>
    rw [hr] at h
    cases List.mem_singleton.mp h
    rfl
  | error stop =>
    rw [hr] at h
    cases stop with
    | code c | panic => cases List.mem_singleton.mp h

theorem State.step_request {s : State D E} {k : Fin MAX_CLIENTS} {rq : FsRequest} {o : Out}
    (h : o ∈ (s.step fs esp (.request k rq)).2) :
    ∃ ch sess, s.running = true ∧ s.clients k = some (ch, sess) ∧
      s.step fs esp (.request k rq) = s.request fs esp ch sess rq := by
  cases hr : s.running with
  | false =>
    rw [step_stopped hr] at h
    exact absurd h List.not_mem_nil
  | true =>
    cases hk : s.clients k with
    | none =>
      simp [step, Event.slot, hr, hk] at h
    | some c => exact ⟨c.1, c.2, rfl, rfl, step_running hr hk rfl⟩

theorem State.close_world (s : State D E) (k : Fin MAX_CLIENTS) (ch : UInt32) :
    (s.close k ch).1.world = s.world := by
  simp only [close]
  split <;> rfl

theorem State.message_moves (ha : Allows True True R) (s : State D E) (ch : UInt32)
    (sess : UInt64) (e : Event D E) : R s.world (s.message fs esp ch sess e).1.world := by
  cases e with
  | request k rq =>
    cases rq with
    | openSession chan mounts =>
      rw [message, request, openSession_world]
      exact ha.refl _
    | _ =>
      simp only [message, request, serve_world]
      exact moves_serve (ha.mono (fun _ => trivial) fun _ => trivial) _
  | closed k =>
    rw [message, close_world]
    exact ha.refl _
  | _ => exact ha.refl _

variable (fs esp) in
theorem State.step_moves (ha : Allows True True R) (s : State D E) (e : Event D E) :
    R s.world (s.step fs esp e).1.world := by
  unfold step
  split
  · split
    · cases e with
      | disk d => exact ha.disk _ d
      | esp e => exact ha.esp _ e
      | _ => exact ha.refl _
    · split
      · exact ha.refl _
      · exact message_moves ha s _ _ e
  · exact ha.refl _

variable (fs esp) in
theorem State.run_moves (ha : Allows True True R) (s : State D E) (es : List (Event D E)) :
    R s.world (s.run fs esp es).1.world := by
  induction es generalizing s with
  | nil => exact ha.refl _
  | cons e es ih => exact ha.trans _ _ _ (step_moves fs esp ha s e) (ih _)

end Loop
end NexoOS.Vfs
