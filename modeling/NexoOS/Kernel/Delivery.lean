import NexoOS.Kernel.ChannelEnd

/-!
# Exactly once and in order

While an end is open, what was sent to it is what it received followed by its
queue. Closing an end throws its queue away, and nothing is accepted for it
afterwards, so what it received stays a prefix of what was sent. A receiver
that finds its queue empty and the other end closed has therefore received
everything, provided its own end is still open.
-/

namespace NexoOS.Kernel.ChannelEnd

open Channel Function List

/-! ## Reading the log -/

@[simp] theorem sentOn_append (side : Bool) (l l' : List Event) :
    sentOn side (l ++ l') = sentOn side l ++ sentOn side l' :=
  filterMap_append

@[simp] theorem receivedAt_append (side : Bool) (l l' : List Event) :
    receivedAt side (l ++ l') = receivedAt side l ++ receivedAt side l' :=
  filterMap_append

theorem sentOn_sent (d : Bool) (t : Tid) (side : Bool) (m : Message) :
    sentOn d [.sent t side m] = if side = d then [m] else [] := by
  by_cases h : side = d <;> simp [sentOn, h]

theorem receivedAt_received (d : Bool) (t : Tid) (side : Bool) (m : Message) :
    receivedAt d [.received t side m] = if side = d then [m] else [] := by
  by_cases h : side = d <;> simp [receivedAt, h]

/-- The entries that are neither a send nor a receive. -/
def Silent (es : List Event) : Prop := ∀ side, sentOn side es = [] ∧ receivedAt side es = []

theorem silent_nil : Silent [] := fun _ => ⟨rfl, rfl⟩

/-- The thread is in a receive on the end. -/
def Pc.receivesOn (side : Bool) : Pc → Bool
  | .tryLock d => d == side
  | .recvTop d => d == side
  | .recvLock d => d == side
  | .parked d => d == side
  | _ => false

namespace Shared

/-! ## The queues and the log -/

/-- The queues account for the log. -/
structure Inv (s : Shared) (log : List Event) : Prop where
  open_ : ∀ side, s.closed side = false →
    sentOn (!side) log = receivedAt side log ++ s.queue side
  shut : ∀ side, s.closed side = true → s.queue side = []
  ordered : ∀ side, receivedAt side log <+: sentOn (!side) log
  bound : ∀ side, (s.queue side).length ≤ channelQueueMax
  logged : ∀ side, s.closed side = true → .closed side ∈ log

theorem createPair_inv (killed : Tid → Bool) : (createPair killed).Inv [] where
  open_ := fun _ _ => rfl
  shut := fun _ _ => rfl
  ordered := fun _ => prefix_rfl
  bound := fun _ => Nat.zero_le _
  logged := fun _ h => absurd h Bool.false_ne_true

variable {s s' : Shared} {log es : List Event} {side : Bool} {killed : Tid → Bool} {t : Tid}

theorem Inv.quiet (h : s.Inv log) (hq : s'.queue = s.queue) (hc : s'.closed = s.closed)
    (he : Silent es) : s'.Inv (log ++ es) where
  open_ := by
    intro side ho
    rw [hc] at ho
    simpa [he side, he !side, hq] using h.open_ side ho
  shut := by
    intro side hs
    rw [hc] at hs
    rw [hq]
    exact h.shut side hs
  ordered := by
    intro side
    simpa [he side, he !side] using h.ordered side
  bound := by
    intro side
    rw [hq]
    exact h.bound side
  logged := by
    intro side hs
    rw [hc] at hs
    exact mem_append_left _ (h.logged side hs)

/-- One end and what its queue accounts for change, the other end does not. -/
theorem Inv.end_ (h : s.Inv log) (d : Bool)
    (hother : ∀ e, e ≠ d → s'.queue e = s.queue e ∧ s'.closed e = s.closed e ∧
      sentOn (!e) es = [] ∧ receivedAt e es = []) (hopen : s'.closed d = false →
      sentOn (!d) (log ++ es) = receivedAt d (log ++ es) ++ s'.queue d)
    (hshut : s'.closed d = true → s'.queue d = [] ∧ .closed d ∈ log ++ es)
    (hord : receivedAt d (log ++ es) <+: sentOn (!d) (log ++ es))
    (hbound : (s'.queue d).length ≤ channelQueueMax) : s'.Inv (log ++ es) := by
  have hall : ∀ e,
      (s'.closed e = false → sentOn (!e) (log ++ es) = receivedAt e (log ++ es) ++ s'.queue e) ∧
      (s'.closed e = true → s'.queue e = [] ∧ .closed e ∈ log ++ es) ∧
      receivedAt e (log ++ es) <+: sentOn (!e) (log ++ es) ∧
      (s'.queue e).length ≤ channelQueueMax := by
    intro e
    by_cases he : e = d
    · subst he
      exact ⟨hopen, hshut, hord, hbound⟩
    obtain ⟨hq, hc, hsent, hrecv⟩ := hother e he
    simp only [hq, hc, sentOn_append, receivedAt_append, hsent, hrecv, append_nil]
    exact ⟨h.open_ e, fun hs => ⟨h.shut e hs, mem_append_left _ (h.logged e hs)⟩,
      h.ordered e, h.bound e⟩
  exact ⟨fun e => (hall e).1, fun e hs => ((hall e).2.1 hs).1, fun e => (hall e).2.2.1,
    fun e => (hall e).2.2.2, fun e hs => ((hall e).2.1 hs).2⟩

theorem unpark_chan (s : Shared) (t : Tid) : (s.unpark t).toChannel = s.toChannel := by
  unfold unpark
  split <;> rfl

theorem inv_send (h : s.Inv log) (t : Tid) (side : Bool) (m : Message) :
    (s.send t side m).1.Inv (log ++ (s.send t side m).2) := by
  unfold send
  split
  · exact h.quiet rfl rfl fun _ => ⟨rfl, rfl⟩
  rename_i hopen
  split
  · exact h.quiet rfl rfl fun _ => ⟨rfl, rfl⟩
  rename_i hroom
  have hrecv : ∀ d, receivedAt d [.sent t side m] = [] := fun _ => rfl
  have hsent : sentOn (!!side) [.sent t side m] = [m] := by simp [sentOn_sent]
  refine h.end_ (!side) (fun e he => ?_) (fun hc => ?_) (fun hc => absurd hc hopen) ?_ ?_
  · refine ⟨update_of_ne he .., rfl, ?_, rfl⟩
    rw [sentOn_sent, if_neg fun hs => he (by simp [hs])]
  · change s.closed (!side) = false at hc
    show _ = _ ++ update s.queue (!side) (s.queue (!side) ++ [m]) (!side)
    rw [sentOn_append, receivedAt_append, h.open_ _ hc, hrecv, hsent, update_self,
      append_nil, append_assoc]
  · rw [sentOn_append, receivedAt_append, hrecv, append_nil]
    exact (h.ordered _).trans (prefix_append _ _)
  · show (update s.queue (!side) _ (!side)).length ≤ _
    rw [update_self, length_append]
    exact Nat.lt_of_not_le hroom

theorem inv_close (h : s.Inv log) (t : Tid) (side : Bool) :
    (s.close t side).1.Inv (log ++ (s.close t side).2) := by
  have hempty : (s.close t side).1.queue side = [] := update_self ..
  have hshut : (s.close t side).1.closed side = true := update_self ..
  refine h.end_ side (fun e he => ⟨update_of_ne he .., update_of_ne he .., rfl, rfl⟩)
    (fun hc => ?_) (fun _ => ⟨hempty, mem_append_right _ mem_cons_self⟩) ?_ ?_
  · rw [hshut] at hc
    exact absurd hc.symm Bool.false_ne_true
  · have hsilent : Silent (s.close t side).2 := fun _ => ⟨rfl, rfl⟩
    simpa [hsilent side, hsilent !side] using h.ordered side
  · rw [hempty]
    exact Nat.zero_le _

/-- Taking the first message of a queue. An end with a message is open. -/
theorem inv_received (h : s.Inv log) (t : Tid) {m : Message} {q : List Message}
    (hq : s.queue side = m :: q) : (setPc { s with queue := update s.queue side q } t .idle).Inv
      (log ++ [.received t side m]) := by
  have hopen : s.closed side = false := by
    rw [← Bool.not_eq_true]
    intro hc
    rw [h.shut side hc] at hq
    exact absurd hq (cons_ne_nil m q).symm
  have hall : sentOn (!side) (log ++ [.received t side m]) =
      receivedAt side (log ++ [.received t side m]) ++ q := by
    have hsent : sentOn (!side) [.received t side m] = [] := rfl
    rw [sentOn_append, receivedAt_append, hsent, h.open_ side hopen, receivedAt_received, hq]
    simp
  have hrest : update s.queue side q side = q := update_self ..
  refine h.end_ side (fun e he => ?_) (fun _ => hall.trans (congrArg _ hrest.symm)) (fun hc => ?_)
    ⟨_, hall.symm⟩ ?_
  · refine ⟨update_of_ne he .., rfl, rfl, ?_⟩
    rw [receivedAt_received, if_neg (Ne.symm he)]
  · exact absurd (hopen.symm.trans hc) Bool.false_ne_true
  · have hlen := h.bound side
    rw [hq, length_cons] at hlen
    show (update s.queue side q side).length ≤ _
    rw [hrest]
    exact Nat.le_of_succ_le hlen

theorem inv_pop (h : s.Inv log) (t : Tid) (side : Bool) {other : Shared × List Event}
    (ho : other.1.Inv (log ++ other.2)) :
    (s.pop t side other).1.Inv (log ++ (s.pop t side other).2) := by
  unfold pop
  split
  · rename_i m q hq
    exact inv_received h t hq
  split
  · exact h.quiet rfl rfl fun _ => ⟨rfl, rfl⟩
  · exact ho

theorem inv_go (h : s.Inv log) (t : Tid) : (s.go t).1.Inv (log ++ (s.go t).2) := by
  unfold go
  split
  · exact h.quiet rfl rfl silent_nil
  · exact h.quiet rfl rfl silent_nil
  · exact inv_send h ..
  · exact inv_close h ..
  · exact inv_pop h t _ (h.quiet rfl rfl fun _ => ⟨rfl, rfl⟩)
  · unfold recvTop
    split <;> exact h.quiet rfl rfl fun _ => ⟨rfl, rfl⟩
  · exact inv_pop h t _ (h.quiet rfl rfl silent_nil)
  · exact h.quiet rfl rfl silent_nil
  rename_i w ws _
  have hu := unpark_chan (s.setPc t (.unparking ws)) w
  exact h.quiet (congrArg queue hu) (congrArg closed hu) silent_nil

theorem start_chan (s : Shared) (t : Tid) (op : Op) : (s.start t op).toChannel = s.toChannel := by
  cases op with
  | close side =>
    show (s.closeSwap t side).toChannel = _
    unfold closeSwap
    split <;> rfl
  | _ => rfl

theorem inv_step (h : s.Inv log) (a : Act) : (s.step a).1.Inv (log ++ (s.step a).2) := by
  cases a with
  | start t op =>
    simp only [step]
    split
    · have hc := start_chan s t op
      exact h.quiet (congrArg queue hc) (congrArg closed hc) silent_nil
    · exact h.quiet rfl rfl silent_nil
  | go t => exact inv_go h t
  | kill t =>
    have hc := unpark_chan { s with killed := update s.killed t true } t
    exact h.quiet (congrArg queue hc) (congrArg closed hc) fun _ => ⟨rfl, rfl⟩
  | wake t =>
    have hc := unpark_chan s t
    exact h.quiet (congrArg queue hc) (congrArg closed hc) silent_nil
  | registerWaiter t side => exact h.quiet rfl rfl silent_nil

variable (killed)

theorem inv_run (acts : List Act) :
    ((createPair killed).run acts).1.Inv ((createPair killed).run acts).2 := by
  have := runLogged_history (I := Inv) (C := fun _ _ => True) (fun s log a h _ => inv_step h a)
    (createPair_inv killed) acts (meets_true ..)
  rwa [nil_append] at this

/-- In every interleaving an open end has received or still holds all that was sent to
it, in order; a closed one holds nothing. -/
theorem messages_accounted (acts : List Act) (side : Bool) : let r := (createPair killed).run acts
    if r.1.closed side then r.1.queue side = []
    else sentOn (!side) r.2 = receivedAt side r.2 ++ r.1.queue side := by
  intro r
  split
  · exact (inv_run killed acts).shut side ‹_›
  · exact (inv_run killed acts).open_ side (Bool.eq_false_iff.2 ‹_›)

/-! ## When an end is closed -/

/-- The conditions under which calls are made and ends closed: an end is
closed only while no thread receives on it, and nothing starts receiving on an
end that is closed. This is what closing an end with its last reference
gives; the collector closes ends that a running call still holds. -/
def Careful (s : Shared) : Act → Prop
  | .start _ (.recv side) => s.closedByMe side = false
  | .start _ (.tryRecv side) => s.closedByMe side = false
  | .start _ (.close side) => ∀ u, (s.threads u).receivesOn side = false
  | _ => True

/-- A `PeerClosed` in this place of the log is right: the thread was killed,
or everything sent before the close has been received. -/
def Right (log : List Event) (e : Event) : Prop :=
  ∀ t side, e = .peerClosed t side →
    killed t = true ∨ .killed t ∈ log ∨ DrainedAt side log

/-- Ends that are received on are open, and every `PeerClosed` so far was
right. -/
structure Served (killed : Tid → Bool) (s : Shared) (log : List Event) : Prop where
  inv : s.Inv log
  swapped : ∀ side, s.closed side = true → s.closedByMe side = true
  closing : ∀ t side, s.threads t = .closeLock side → s.closedByMe side = true
  kept : ∀ t side, (s.threads t).receivesOn side = true → s.closedByMe side = false
  dead : ∀ t, s.killed t = true → killed t = true ∨ .killed t ∈ log
  heard : ∀ before e, before ++ [e] <+: log → Right killed before e

theorem createPair_served : Served killed (createPair killed) [] where
  inv := createPair_inv killed
  swapped := fun _ h => absurd h Bool.false_ne_true
  closing := fun _ _ h => nomatch h
  kept := fun _ _ _ => rfl
  dead := fun _ h => .inl h
  heard := by
    intro before e h
    simp at h

variable {killed}

theorem heard_append (h : ∀ before e, before ++ [e] <+: log → Right killed before e)
    (hes : es = [] ∨ ∃ e, es = [e] ∧ Right killed log e) :
    ∀ before e, before ++ [e] <+: log ++ es → Right killed before e := by
  rcases hes with rfl | ⟨e, rfl, he⟩
  · simpa using h
  intro before e' hp
  rcases prefix_concat_iff.mp hp with heq | hp
  · obtain ⟨rfl, hee⟩ := append_inj' heq rfl
    cases hee
    exact he
  · exact h before e' hp

/-- An empty queue behind a closed end: everything has been received. -/
theorem Served.drained (h : Served killed s log) (hk : s.closedByMe side = false)
    (hq : s.queue side = []) (hc : s.closed (!side) = true) : DrainedAt side log := by
  have hopen : s.closed side = false := by
    rw [← Bool.not_eq_true]
    intro hs
    rw [h.swapped side hs] at hk
    exact absurd hk.symm Bool.false_ne_true
  have hall := h.inv.open_ side hopen
  rw [hq, append_nil] at hall
  obtain ⟨before, after, hlog⟩ := append_of_mem (h.inv.logged _ hc)
  refine ⟨before, after, hlog, ?_⟩
  rw [← hall, hlog, sentOn_append]
  exact prefix_append _ _

/-- A thread goes on: it neither starts to close nor to receive. -/
def Later (pc pc' : Pc) : Prop :=
  (∀ d, pc' = .closeLock d → pc = .closeLock d) ∧
    ∀ d, pc'.receivesOn d = true → pc.receivesOn d = true

theorem Later.refl (pc : Pc) : Later pc pc := ⟨fun _ h => h, fun _ h => h⟩

theorem later_idle (pc : Pc) : Later pc .idle := ⟨nofun, nofun⟩

theorem later_unparking (pc : Pc) (ws : List Tid) : Later pc (.unparking ws) := ⟨nofun, nofun⟩

theorem later_setPc {pc : Pc} (h : Later (s.threads t) pc) (u : Tid) :
    Later (s.threads u) (update s.threads t pc u) := by
  by_cases hu : u = t
  · subst hu
    rwa [update_self]
  · rw [update_of_ne hu]
    exact .refl _

theorem later_unpark (s : Shared) (t u : Tid) : Later (s.threads u) ((s.unpark t).threads u) := by
  unfold unpark
  split
  · rename_i side hp
    refine later_setPc (s := s) ?_ u
    rw [hp]
    exact ⟨nofun, fun _ h => h⟩
  · exact .refl _

section
variable (h : Served killed s log)
include h

section
variable (hinv : s'.Inv (log ++ es))
  (hpc : ∀ u, Later (s.threads u) (s'.threads u)) (hby : s'.closedByMe = s.closedByMe)
include hinv hpc hby

theorem Served.frame
    (hclosed : ∀ d, s'.closed d = true → s.closedByMe d = true)
    (hk : ∀ u, s'.killed u = true → s.killed u = true ∨ .killed u ∈ es)
    (hes : es = [] ∨ ∃ e, es = [e] ∧ Right killed log e) : Served killed s' (log ++ es) where
  inv := hinv
  swapped := by
    intro d hd
    rw [hby]
    exact hclosed d hd
  closing := by
    intro u d hu
    rw [hby]
    exact h.closing u d ((hpc u).1 d hu)
  kept := by
    intro u d hu
    rw [hby]
    exact h.kept u d ((hpc u).2 d hu)
  dead := by
    intro u hu
    rcases hk u hu with hu | hu
    · exact (h.dead u hu).imp_right (mem_append_left _)
    · exact .inr (mem_append_right _ hu)
  heard := heard_append h.heard hes

/-- A step of a thread that leaves the flags alone and reports nothing that
needs an explanation. -/
theorem Served.move
    (hclosed : s'.closed = s.closed) (hk : s'.killed = s.killed)
    (hes : es = [] ∨ ∃ e, es = [e] ∧ Right killed log e) : Served killed s' (log ++ es) := by
  refine h.frame hinv hpc hby (fun d hd => ?_) (fun u hu => ?_) hes
  · rw [hclosed] at hd
    exact h.swapped d hd
  · rw [hk] at hu
    exact .inl hu

end

theorem served_send (t : Tid) (side : Bool) (m : Message) :
    Served killed (s.send t side m).1 (log ++ (s.send t side m).2) := by
  have hinv := inv_send h.inv t side m
  revert hinv
  unfold send
  split <;> intro hinv
  · exact h.move hinv (later_setPc (later_idle _)) rfl rfl rfl (.inr ⟨_, rfl, nofun⟩)
  revert hinv
  split <;> intro hinv
  · exact h.move hinv (later_setPc (later_idle _)) rfl rfl rfl (.inr ⟨_, rfl, nofun⟩)
  exact h.move hinv (later_setPc (s := s) (later_unparking _ _)) rfl rfl rfl
    (.inr ⟨_, rfl, nofun⟩)

theorem served_close (hpc : s.threads t = .closeLock side) :
    Served killed (s.close t side).1 (log ++ (s.close t side).2) := by
  refine h.frame (inv_close h.inv t side) (later_setPc (s := s) (later_unparking _ _)) rfl ?_
    (fun u hu => .inl hu) (.inr ⟨_, rfl, nofun⟩)
  intro d hd
  by_cases hds : d = side
  · rw [hds]
    exact h.closing t side hpc
  change update s.closed side true d = true at hd
  rw [update_of_ne hds] at hd
  exact h.swapped d hd

/-- Both receives: what happens when there is neither a message nor a closed
end is the caller's. -/
theorem served_pop (hpc : (s.threads t).receivesOn side = true)
    {other : Shared × List Event} (ho : Served killed other.1 (log ++ other.2)) :
    Served killed (s.pop t side other).1 (log ++ (s.pop t side other).2) := by
  unfold pop
  split
  · rename_i m q hq
    exact h.move (inv_received h.inv t hq) (later_setPc (s := s) (later_idle _)) rfl rfl rfl
      (.inr ⟨_, rfl, nofun⟩)
  rename_i hq
  split
  · rename_i hc
    refine h.move (h.inv.quiet rfl rfl fun _ => ⟨rfl, rfl⟩) (later_setPc (later_idle _)) rfl rfl
      rfl (.inr ⟨_, rfl, ?_⟩)
    rintro u d he
    cases he
    exact .inr (.inr (h.drained (h.kept t side hpc) hq hc))
  · exact ho

theorem served_recvTop (hpc : s.threads t = .recvTop side) :
    Served killed (s.recvTop t side).1 (log ++ (s.recvTop t side).2) := by
  unfold recvTop
  split
  · rename_i hk
    refine h.move (h.inv.quiet rfl rfl fun _ => ⟨rfl, rfl⟩) (later_setPc (later_idle _)) rfl rfl
      rfl (.inr ⟨_, rfl, ?_⟩)
    rintro u d he
    cases he
    exact (h.dead t hk).imp_right .inl
  · refine h.move (h.inv.quiet rfl rfl silent_nil) (later_setPc ?_) rfl rfl rfl (.inl rfl)
    rw [hpc]
    exact ⟨nofun, fun _ hd => hd⟩

end

theorem unpark_closedByMe (s : Shared) (t : Tid) : (s.unpark t).closedByMe = s.closedByMe := by
  unfold unpark
  split <;> rfl

theorem unpark_killed (s : Shared) (t : Tid) : (s.unpark t).killed = s.killed := by
  unfold unpark
  split <;> rfl

section
variable (h : Served killed s log)
include h

theorem served_unpark (t : Tid) : Served killed (s.unpark t) (log ++ []) := by
  have hc := unpark_chan s t
  exact h.move (h.inv.quiet (congrArg queue hc) (congrArg closed hc) silent_nil)
    (later_unpark s t) (unpark_closedByMe s t) (congrArg closed hc) (unpark_killed s t)
    (.inl rfl)

theorem served_go (t : Tid) : Served killed (s.go t).1 (log ++ (s.go t).2) := by
  unfold go
  split
  case h_1 => simpa using h
  case h_2 => simpa using h
  case h_3 => exact served_send h ..
  case h_4 hpc => exact served_close h hpc
  case h_5 side hpc =>
    refine served_pop h (by simp [hpc, Pc.receivesOn]) ?_
    exact h.move (h.inv.quiet rfl rfl fun _ => ⟨rfl, rfl⟩) (later_setPc (later_idle _)) rfl rfl
      rfl (.inr ⟨_, rfl, nofun⟩)
  case h_6 hpc => exact served_recvTop h hpc
  case h_7 side hpc =>
    refine served_pop h (by simp [hpc, Pc.receivesOn]) ?_
    refine h.move (h.inv.quiet rfl rfl silent_nil) (later_setPc (s := s) ?_) rfl rfl rfl (.inl rfl)
    rw [hpc]
    exact ⟨nofun, fun _ hd => hd⟩
  case h_8 =>
    exact h.move (h.inv.quiet rfl rfl silent_nil) (later_setPc (later_idle _)) rfl rfl rfl
      (.inl rfl)
  case h_9 w ws hpc =>
    have hset : Served killed (s.setPc t (.unparking ws)) (log ++ []) :=
      h.move (h.inv.quiet rfl rfl silent_nil) (later_setPc (later_unparking _ _)) rfl rfl rfl
        (.inl rfl)
    rw [append_nil] at hset
    exact served_unpark hset w

theorem served_startRecv (hk : s.closedByMe side = false) (t : Tid)
    {pc : Pc} (hpc : ∀ d, pc.receivesOn d = true → d = side) (hc : ∀ d, pc ≠ .closeLock d) :
    Served killed (s.setPc t pc) log where
  __ := h
  inv := by
    have hq : (s.setPc t pc).Inv (log ++ []) := h.inv.quiet rfl rfl silent_nil
    simpa using hq
  closing := by
    intro u d hu
    change update s.threads t pc u = _ at hu
    by_cases hut : u = t
    · rw [hut, update_self] at hu
      exact absurd hu (hc d)
    · rw [update_of_ne hut] at hu
      exact h.closing u d hu
  kept := by
    intro u d hu
    change (update s.threads t pc u).receivesOn d = true at hu
    by_cases hut : u = t
    · rw [hut, update_self] at hu
      rw [hpc d hu]
      exact hk
    · rw [update_of_ne hut] at hu
      exact h.kept u d hu

/-- A close starts while no thread receives on the end. -/
theorem served_closeSwap (hfree : ∀ u, (s.threads u).receivesOn side = false) (t : Tid) :
    Served killed (s.closeSwap t side) log := by
  have hinv : (s.closeSwap t side).Inv log := by
    have hc := start_chan s t (.close side)
    have hq : (s.closeSwap t side).Inv (log ++ []) :=
      h.inv.quiet (congrArg queue hc) (congrArg closed hc) silent_nil
    simpa using hq
  revert hinv
  unfold closeSwap
  split
  · exact fun _ => h
  intro hinv
  have hby : ∀ d, s.closedByMe d = true → update s.closedByMe side true d = true := by
    intro d hd
    by_cases hds : d = side
    · rw [hds, update_self]
    · rwa [update_of_ne hds]
  constructor
  case inv => exact hinv
  case swapped => exact fun d hd => hby d (h.swapped d hd)
  case closing =>
    intro u d hu
    change update s.threads t _ u = _ at hu
    by_cases hut : u = t
    · rw [hut, update_self] at hu
      cases hu
      exact update_self ..
    · rw [update_of_ne hut] at hu
      exact hby d (h.closing u d hu)
  case kept =>
    intro u d hu
    change (update s.threads t (.closeLock side) u).receivesOn d = true at hu
    have hut : u ≠ t := by
      rintro rfl
      rw [update_self] at hu
      exact absurd hu Bool.false_ne_true
    rw [update_of_ne hut] at hu
    have hds : d ≠ side := by
      rintro rfl
      rw [hfree u] at hu
      exact absurd hu Bool.false_ne_true
    show update s.closedByMe side true d = false
    rw [update_of_ne hds]
    exact h.kept u d hu
  case dead => exact h.dead
  case heard => exact h.heard

theorem served_start {op : Op} (hc : s.Careful (.start t op)) :
    Served killed (s.start t op) log := by
  cases op with
  | send side m =>
    have hmove : Served killed (s.setPc t (.sendLock side m)) (log ++ []) :=
      h.move (h.inv.quiet rfl rfl silent_nil) (later_setPc ⟨nofun, nofun⟩) rfl rfl rfl (.inl rfl)
    rwa [append_nil] at hmove
  | recv | tryRecv =>
    refine served_startRecv h hc t ?_ nofun
    intro d hd
    exact (beq_iff_eq.mp hd).symm
  | close side => exact served_closeSwap h hc t

theorem served_step {a : Act} (hc : s.Careful a) :
    Served killed (s.step a).1 (log ++ (s.step a).2) := by
  cases a with
  | start t op =>
    simp only [step]
    split
    · simpa using served_start h hc
    · simpa using h
  | go t => exact served_go h t
  | kill t =>
    have hc := unpark_chan { s with killed := update s.killed t true } t
    refine h.frame (h.inv.quiet (congrArg queue hc) (congrArg closed hc)
      fun _ => ⟨rfl, rfl⟩) (later_unpark _ t) (unpark_closedByMe _ t) ?_ ?_ (.inr ⟨_, rfl, nofun⟩)
    · intro d hd
      change (unpark _ t).toChannel.closed d = true at hd
      rw [hc] at hd
      exact h.swapped d hd
    · intro u hu
      change (unpark _ t).killed u = true at hu
      rw [unpark_killed] at hu
      change update s.killed t true u = true at hu
      by_cases hut : u = t
      · exact .inr (hut ▸ mem_singleton_self _)
      · rw [update_of_ne hut] at hu
        exact .inl hu
  | wake t => exact served_unpark h t
  | registerWaiter t side =>
    exact h.move (h.inv.quiet rfl rfl silent_nil) (fun u => .refl _) rfl rfl rfl (.inl rfl)

end

theorem served_run (killed : Tid → Bool) (acts : List Act)
    (hc : Meets step Careful (createPair killed) acts) :
    Served killed ((createPair killed).run acts).1 ((createPair killed).run acts).2 := by
  have := runLogged_history (I := Served killed) (fun s log a h hc => served_step h hc)
    (createPair_served killed) acts hc
  rwa [nil_append] at this

/-- Exactly once and in order, for every interleaving: what an end received is
a prefix of what was sent on the other one, and no queue is longer than its
limit. Where ends are closed with care, a receiver that was not killed gets
`PeerClosed` only after everything sent before the close was received. -/
theorem delivered_in_order (killed : Tid → Bool) (acts : List Act) :
    (∀ side, receivedAt side ((createPair killed).run acts).2 <+:
      sentOn (!side) ((createPair killed).run acts).2) ∧
    (∀ side, (((createPair killed).run acts).1.queue side).length ≤ channelQueueMax) ∧
    (Meets step Careful (createPair killed) acts →
      ∀ before t side, before ++ [.peerClosed t side] <+: ((createPair killed).run acts).2 →
        killed t = true ∨ .killed t ∈ before ∨ DrainedAt side before) := by
  have hinv := inv_run killed acts
  refine ⟨hinv.ordered, hinv.bound, ?_⟩
  intro hc before t side hp
  exact (served_run killed acts hc).heard before _ hp t side rfl

/-- A send, its receive, and a close that ends a second receive. -/
def orderly : List Act :=
  [.start 0 (.recv false), .go 0, .go 0, .start 1 (.send true ⟨[7], []⟩), .go 1, .go 1, .go 1,
    .go 0, .go 0, .start 1 (.close true), .go 1, .start 0 (.tryRecv false), .go 0]

theorem delivered_orderly : Meets step Careful (createPair fun _ => false) orderly ∧
      DrainedAt false [.sent 1 true ⟨[7], []⟩, .received 0 false ⟨[7], []⟩, .closed true] := by
  have hmeets : Meets step Careful (createPair fun _ => false) orderly := by
    refine ⟨rfl, trivial, trivial, trivial, trivial, trivial, trivial, trivial, trivial, ?_,
      trivial, rfl, trivial, trivial⟩
    intro u
    by_cases h0 : u = 0
    · subst h0
      rfl
    by_cases h1 : u = 1
    · subst h1
      rfl
    · simp [createPair, step, start, go, recvTop, recv, send, pop, unpark, setPc,
        update_of_ne h0, update_of_ne h1, channelQueueMax, Pc.receivesOn]
  have := (delivered_in_order (fun _ => false) orderly).2.2 hmeets
    [.sent 1 true ⟨[7], []⟩, .received 0 false ⟨[7], []⟩, .closed true] 0 false
    (by decide +kernel)
  simpa [hmeets] using this

/-- The collector closes an end whose handle is gone while a thread woken by a
message is still in its receive: the message is thrown away, the other end
closes, and the receiver is told `PeerClosed`. -/
def collectedInReceive : List Act :=
  [.start 0 (.recv false), .go 0, .go 0, .start 1 (.send true ⟨[7], []⟩), .go 1, .go 1, .go 1,
    .start 2 (.close false), .go 2, .start 1 (.close true), .go 1, .go 0, .go 0]

theorem collected_message_lost : ((createPair fun _ => false).run collectedInReceive).2 =
        [.sent 1 true ⟨[7], []⟩, .closed false, .closed true, .peerClosed 0 false] ∧
      ¬ DrainedAt false [.sent 1 true ⟨[7], []⟩, .closed false, .closed true] := by
  refine ⟨by decide +kernel, ?_⟩
  rintro ⟨before, after, hlog, hp⟩
  -- the close of the other end is the third entry
  rcases before with _ | ⟨a, _ | ⟨b, _ | ⟨c, l⟩⟩⟩
  · simp at hlog
  · simp at hlog
  · obtain ⟨rfl, rfl, -⟩ : .sent 1 true ⟨[7], []⟩ = a ∧ .closed false = b ∧ [] = after := by
      simpa using hlog
    exact absurd hp (by decide)
  · simp at hlog

end Shared
end NexoOS.Kernel.ChannelEnd
