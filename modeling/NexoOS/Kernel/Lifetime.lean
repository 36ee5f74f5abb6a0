import NexoOS.Kernel.Syscall

/-!
# What the calls can change

Two relations say what is left after handles were dropped (`Released`) and
after frames were mapped (`Grown`). Everything else the system calls do is
moving handles between tables and queues.
-/

namespace NexoOS.Kernel

open Function List

/-! ## Handles in tables -/

namespace HandleTable

variable {t : HandleTable} {i : Nat} {h : Handle}

theorem get_mem (he : t.get i = .ok h) : h ∈ t.live := by
  unfold get at he
  split at he
  · rename_i g hg
    obtain rfl : g = h := by simpa using he
    exact mem_filterMap.mpr ⟨some g, mem_of_getElem? hg, rfl⟩
  · cases he

theorem live_set_none (hm : h ∈ live (t.set i none)) : h ∈ t.live := by
  obtain ⟨s, hs, he⟩ := mem_filterMap.mp hm
  obtain rfl : s = some h := he
  rcases mem_or_eq_of_mem_set hs with hs | hs
  · exact mem_filterMap.mpr ⟨some h, hs, rfl⟩
  · cases hs

theorem live_insert {t' : HandleTable} {g : Handle} (he : t.insert h = .ok (i, t'))
    (hm : g ∈ t'.live) : g = h ∨ g ∈ t.live := by
  obtain ⟨s, hs, hid⟩ := mem_filterMap.mp hm
  obtain rfl : s = some g := hid
  unfold insert at he
  split at he
  · cases he
    rcases mem_or_eq_of_mem_set hs with hs | hs
    · exact .inr (mem_filterMap.mpr ⟨some g, hs, rfl⟩)
    · exact .inl (Option.some.inj hs)
  · split at he
    · cases he
    · cases he
      rcases mem_append.mp hs with hs | hs
      · exact .inr (mem_filterMap.mpr ⟨some g, hs, rfl⟩)
      · exact .inl (Option.some.inj (mem_singleton.mp hs))

theorem take_mem {t' : HandleTable} (he : t.take i = .ok (h, t')) :
    h ∈ t.live ∧ ∀ g ∈ t'.live, g ∈ t.live := by
  unfold take at he
  split at he
  · rename_i g hg
    cases he
    exact ⟨get_mem hg, fun g hg => live_set_none hg⟩
  · cases he

end HandleTable

/-- What of a process the life of objects depends on. -/
def Process.core (p : Process) : HandleTable × AddressSpace × Bool × Bool :=
  (p.handles, p.space, p.exited, p.reaped)

/-! ## Handles in queues -/

namespace Channel

variable {ch : Channel} {g : Handle}

theorem mem_handles_iff : g ∈ ch.handles ↔ ∃ side, g ∈ ch.queued side := by
  simp [handles, Bool.exists_bool]

theorem handles_push {side : Bool} {msg : Message}
    (h : g ∈ handles { ch with queue := update ch.queue side (ch.queue side ++ [msg]) }) :
    g ∈ ch.handles ∨ g ∈ msg.handles := by
  obtain ⟨s, hs⟩ := mem_handles_iff.mp h
  by_cases he : s = side
  · subst he
    simp only [queued, update_self, flatMap_append, mem_append] at hs
    rcases hs with hs | hs
    · exact .inl (mem_handles_iff.mpr ⟨s, hs⟩)
    · exact .inr (by simpa using hs)
  · simp only [queued, update_of_ne he] at hs
    exact .inl (mem_handles_iff.mpr ⟨s, hs⟩)

/-- What is left when a side is closed is queued at the other one. -/
theorem handles_close {side : Bool} {closed : Bool → Bool}
    (h : g ∈ handles { queue := update ch.queue side [], closed }) : g ∈ ch.handles := by
  refine mem_handles_iff.mpr ⟨!side, ?_⟩
  cases side <;> simpa [handles, queued] using h

theorem handles_pop {side : Bool} {msg : Message} {rest : List Message}
    (hq : ch.queue side = msg :: rest)
    (h : g ∈ handles { ch with queue := update ch.queue side rest }) : g ∈ ch.handles := by
  obtain ⟨s, hs⟩ := mem_handles_iff.mp h
  refine mem_handles_iff.mpr ⟨s, ?_⟩
  by_cases he : s = side
  · subst he
    simp only [queued, update_self] at hs
    rw [queued, hq, flatMap_cons]
    exact mem_append_right _ hs
  · simpa only [queued, update_of_ne he] using hs

end Channel

/-! ## What mapping can change -/

/-- The space and the allocator after mapping frames of `fs`: new page
tables come from unused frames. -/
structure Grown (fs : List Frame) (s : AddressSpace) (a : FrameAllocator) (s' : AddressSpace)
    (a' : FrameAllocator) : Prop where
  root : s'.root = s.root
  used : ∀ f, a.used f = true → a'.used f = true
  frames : ∀ f ∈ s'.frames, f ∈ s.frames ∨ (a.used f = false ∧ a'.used f = true)
  kept : ∀ f ∈ s.frames, f ∈ s'.frames
  pages : ∀ v f, s'.pages v = some f → s.pages v = some f ∨ f ∈ fs

namespace Grown

variable {fs : List Frame} {s s' s'' : AddressSpace} {a a' a'' : FrameAllocator}

theorem refl (fs : List Frame) (s : AddressSpace) (a : FrameAllocator) : Grown fs s a s a :=
  ⟨rfl, fun _ h => h, fun _ h => .inl h, fun _ h => h, fun _ _ h => .inl h⟩

theorem trans (h : Grown fs s a s' a') (h' : Grown fs s' a' s'' a'') : Grown fs s a s'' a'' := by
  refine ⟨h'.root.trans h.root, fun f hf => h'.used f (h.used f hf), fun f hf => ?_,
    fun f hf => h'.kept f (h.kept f hf), fun v f hf => ?_⟩
  · rcases h'.frames f hf with h1 | ⟨h1, h2⟩
    · rcases h.frames f h1 with h3 | ⟨h3, h4⟩
      · exact .inl h3
      · exact .inr ⟨h3, h'.used f h4⟩
    · refine .inr ⟨?_, h2⟩
      by_contra hc
      have := h.used f (by simpa using hc)
      simp [h1] at this
  · rcases h'.pages v f hf with h1 | h1
    · exact h.pages v f h1
    · exact .inr h1

theorem mono {gs : List Frame} (h : Grown fs s a s' a') (hsub : ∀ f ∈ fs, f ∈ gs) :
    Grown gs s a s' a' :=
  ⟨h.root, h.used, h.frames, h.kept, fun v f hf => (h.pages v f hf).imp_right (hsub f)⟩

end Grown

namespace AddressSpace

theorem createTable_grown {s s' : AddressSpace} {a a' : FrameAllocator} {key : Nat × Nat}
    (fs : List Frame) (h : s.createTable a key = some (s', a')) : Grown fs s a s' a' := by
  unfold createTable at h
  split at h
  · cases h
    exact .refl ..
  rw [Option.map_eq_some_iff] at h
  obtain ⟨⟨f, b⟩, hf, he⟩ := h
  cases he
  obtain ⟨hfree, hused, _⟩ := FrameAllocator.allocate_spec hf
  refine ⟨rfl, fun g hg => ?_, fun g hg => ?_, fun g hg => mem_cons_of_mem _ hg,
    fun _ _ hg => .inl hg⟩
  · rw [hused]
    by_cases hgf : g = f
    · rw [hgf, update_self]
    · rw [update_of_ne hgf]
      exact hg
  · rcases mem_cons.mp hg with rfl | hg
    · exact .inr ⟨hfree, by rw [hused, update_self]⟩
    · exact .inl hg

theorem walkStep_grown {fs : List Frame} {s : AddressSpace} {a : FrameAllocator}
    {st : AddressSpace × FrameAllocator × Bool} (h : Grown fs s a st.1 st.2.1)
    (key : Nat × Nat) : Grown fs s a (walkStep st key).1 (walkStep st key).2.1 := by
  unfold walkStep
  split
  · split
    · rename_i s' a' he
      exact h.trans (createTable_grown fs he)
    · exact h
  · exact h

theorem walkCreate_grown (fs : List Frame) (s : AddressSpace) (a : FrameAllocator) (v : Nat) :
    Grown fs s a (s.walkCreate a v).1 (s.walkCreate a v).2.1 :=
  walkStep_grown (walkStep_grown (walkStep_grown (.refl fs s a) _) _) _

theorem mapUserShared_grown (s : AddressSpace) (a : FrameAllocator) (v : Nat) (f : Frame) :
    Grown [f] s a (s.mapUserShared a v f).1 (s.mapUserShared a v f).2.1 := by
  have hw := walkCreate_grown [f] s a v
  unfold mapUserShared
  split
  · exact .refl ..
  generalize s.walkCreate a v = st at hw ⊢
  obtain ⟨s', a', ok⟩ := st
  dsimp only
  split
  · refine hw.trans ⟨rfl, fun _ h => h, fun _ h => .inl h, fun _ h => h, fun u g hg => ?_⟩
    by_cases hu : u = v
    · subst hu
      right
      simp only [update_self, Option.some.injEq] at hg
      simp [hg]
    · left
      simpa [update_of_ne hu] using hg
  · exact hw

theorem mapAll_grown (fs : List Frame) (s : AddressSpace) (a : FrameAllocator) (v : Nat) :
    Grown fs s a (s.mapAll a v fs).1 (s.mapAll a v fs).2.1 := by
  induction fs generalizing s a v with
  | nil => exact .refl ..
  | cons f fs ih =>
    have hf : Grown (f :: fs) s a _ _ := (mapUserShared_grown s a v f).mono (by simp)
    unfold mapAll
    split
    · rename_i s' a' he
      rw [he] at hf
      exact hf.trans ((ih s' a' (v + 1)).mono fun g hg => mem_cons_of_mem _ hg)
    rename_i s' a' he
    rw [he] at hf
    exact hf

end AddressSpace

/-! ## What dropping can change -/

namespace KState

variable {k : KState} {h : Handle} {c : Nat} {ch : Channel}

theorem mem_handles_of_table {pid : Nat} {p : Process} (hp : k.procs[pid]? = some p)
    (hm : h ∈ p.handles.live) : h ∈ k.handles :=
  mem_append_left _ (mem_flatMap.mpr ⟨p, mem_of_getElem? hp, hm⟩)

theorem mem_handles_of_chan (hc : k.chans[c]? = some ch) (hm : h ∈ ch.handles) : h ∈ k.handles :=
  mem_append_right _ (mem_flatMap.mpr ⟨ch, mem_of_getElem? hc, hm⟩)

theorem handles_setProc {pid : Nat} {p : Process} (hm : h ∈ (k.setProc pid p).handles) :
    h ∈ p.handles.live ∨ h ∈ k.handles := by
  rcases mem_append.mp hm with hm | hm
  · obtain ⟨q, hq, hh⟩ := mem_flatMap.mp hm
    rcases mem_or_eq_of_mem_set hq with hq | rfl
    · exact .inr (mem_append_left _ (mem_flatMap.mpr ⟨q, hq, hh⟩))
    · exact .inl hh
  · exact .inr (mem_append_right _ hm)

theorem handles_setChan (hm : h ∈ (k.setChan c ch).handles) : h ∈ ch.handles ∨ h ∈ k.handles := by
  rcases mem_append.mp hm with hm | hm
  · exact .inr (mem_append_left _ hm)
  obtain ⟨d, hd, hh⟩ := mem_flatMap.mp hm
  rcases mem_or_eq_of_mem_set hd with hd | rfl
  · exact .inr (mem_append_right _ (mem_flatMap.mpr ⟨d, hd, hh⟩))
  · exact .inl hh

/-- `k'` is `k` after some unreferenced objects were dropped. -/
structure Released (k k' : KState) : Prop where
  procs : k'.procs.map Process.core = k.procs.map Process.core
  handles : ∀ h ∈ k'.handles, h ∈ k.handles
  mems : ∀ o, k'.mems[o]? = k.mems[o]? ∨
    (k'.mems[o]? = some none ∧ ¬ k'.Referenced (.memory o))
  used : ∀ f, k'.alloc.used f = k.alloc.used f ∨
    ∃ (o : Nat) (m : MemoryObject), k.mems[o]? = some (some m) ∧ f ∈ m.frames ∧
      k'.mems[o]? = some none

namespace Released

theorem refl (k : KState) : Released k k :=
  ⟨rfl, fun _ h => h, fun _ => .inl rfl, fun _ => .inl rfl⟩

theorem referenced {k k' : KState} (h : Released k k') {x : Object} (hr : k'.Referenced x) :
    k.Referenced x := by
  obtain ⟨g, hg, he⟩ := hr
  exact ⟨g, h.handles g hg, he⟩

theorem trans {k₁ k₂ k₃ : KState} (h : Released k₁ k₂) (h' : Released k₂ k₃) : Released k₁ k₃ := by
  refine ⟨h'.procs.trans h.procs, fun g hg => h.handles g (h'.handles g hg), fun o => ?_,
    fun f => ?_⟩
  · rcases h'.mems o with h2 | h2
    · rcases h.mems o with h1 | ⟨h1, hn⟩
      · exact .inl (h2.trans h1)
      · exact .inr ⟨h2.trans h1, fun hr => hn (h'.referenced hr)⟩
    · exact .inr h2
  · rcases h'.used f with h2 | ⟨o, m, ho, hf, hd⟩
    · rcases h.used f with h1 | ⟨o, m, ho, hf, hd⟩
      · exact .inl (h2.trans h1)
      · refine .inr ⟨o, m, ho, hf, ?_⟩
        rcases h'.mems o with h3 | h3
        · exact h3.trans hd
        · exact h3.1
    · rcases h.mems o with h1 | h1
      · exact .inr ⟨o, m, h1 ▸ ho, hf, hd⟩
      · rw [h1.1] at ho
        cases ho

end Released

theorem dropMemory_procs (k : KState) (o : Nat) :
    (k.dropMemory o).procs.map Process.core = k.procs.map Process.core := by
  unfold dropMemory
  split
  · apply ext_getElem?
    intro i
    simp only [List.getElem?_map, List.getElem?_modify]
    cases k.procs[i]? with
    | none => rfl
    | some p =>
      split
      · show some (Process.core (if p.reaped then p else _)) = some p.core
        split <;> rfl
      · rfl
  · rfl

theorem handles_of_core {k' : KState} (hp : k'.procs.map Process.core = k.procs.map Process.core)
    (hq : k'.queueHandles = k.queueHandles) : k'.handles = k.handles := by
  have htable : ∀ l : List Process,
      l.flatMap (fun p => p.handles.live) = (l.map Process.core).flatMap fun c => c.1.live := by
    intro l
    rw [flatMap_map]
    rfl
  unfold handles
  rw [htable, htable, hp, hq]

theorem released_dropMemory {o : Nat} (h : ¬ k.Referenced (.memory o)) :
    Released k (k.dropMemory o) := by
  have hh : (k.dropMemory o).handles = k.handles :=
    handles_of_core (dropMemory_procs k o) (queueHandles_dropMemory k o)
  have href : ¬ (k.dropMemory o).Referenced (.memory o) := by
    unfold Referenced
    rw [hh]
    exact h
  refine ⟨dropMemory_procs k o, fun g hg => hh ▸ hg, fun x => ?_, fun f => ?_⟩
  · by_cases hx : x = o
    · subst hx
      by_cases ho : ∃ m, k.mems[x]? = some (some m)
      · obtain ⟨m, hm⟩ := ho
        refine .inr ⟨?_, href⟩
        simp only [dropMemory, hm]
        rw [List.getElem?_set_self]
        exact (List.getElem?_eq_some_iff.mp hm).1
      · left
        unfold dropMemory
        split
        · rename_i m hm
          exact absurd ⟨m, hm⟩ ho
        · rfl
    · left
      unfold dropMemory
      split
      · exact List.getElem?_set_ne fun he => hx he.symm
      · rfl
  · by_cases ho : ∃ m, k.mems[o]? = some (some m)
    · obtain ⟨m, hm⟩ := ho
      by_cases hf : f ∈ m.frames
      · refine .inr ⟨o, m, hm, hf, ?_⟩
        simp only [dropMemory, hm]
        rw [List.getElem?_set_self]
        exact (List.getElem?_eq_some_iff.mp hm).1
      · left
        simp only [dropMemory, hm]
        exact FrameAllocator.freeAll_used hf
    · left
      unfold dropMemory
      split
      · rename_i m hm
        exact absurd ⟨m, hm⟩ ho
      · rfl

theorem released_setChan (h : ∀ g ∈ ch.handles, g ∈ k.handles) : Released k (k.setChan c ch) := by
  refine ⟨rfl, fun g hg => ?_, fun _ => .inl rfl, fun _ => .inl rfl⟩
  rcases handles_setChan hg with hg | hg
  · exact h g hg
  · exact hg

/-- A relation that holds across the release of an object. -/
structure Dropping (R : KState → KState → Prop) : Prop where
  refl : ∀ k, R k k
  trans : ∀ {k₁ k₂ k₃}, R k₁ k₂ → R k₂ k₃ → R k₁ k₃
  memory : ∀ {k : KState} {o : Nat}, ¬ k.Referenced (.memory o) → R k (k.dropMemory o)
  channel : ∀ {k : KState} {c : Nat} {ch : Channel} (side : Bool), k.chans[c]? = some ch →
    R k (k.setChan c { queue := update ch.queue side [], closed := update ch.closed side true })

section
variable {R : KState → KState → Prop} (hR : Dropping R)
include hR

theorem Dropping.closeEnd (k : KState) (c : Nat) (side : Bool) : R k (k.closeEnd c side).1 := by
  unfold KState.closeEnd
  split
  · rename_i ch hch
    split
    · exact hR.refl k
    · exact hR.channel side hch
  · exact hR.refl k

/-- Dropping handles drops unreferenced objects and nothing else. -/
theorem Dropping.dropAll (k : KState) (work : List Handle) : R k (k.dropAll work) := by
  fun_induction KState.dropAll k work with
  | case1 => exact hR.refl _
  | case2 k h work hmem ih => exact ih
  | case3 k h work hmem o ho ih =>
    refine hR.trans (hR.memory fun href => hmem ?_) ih
    obtain ⟨g, hg, he⟩ := href
    exact mem_map.mpr ⟨g, mem_append_left _ hg, he.trans ho.symm⟩
  | case4 k h work hmem c side ho ih => exact hR.trans (hR.closeEnd k c side) ih
  | case5 k h work hmem _ _ ih => exact ih

theorem Dropping.collectUnreachable (k : KState) : R k k.collectUnreachable := by
  unfold KState.collectUnreachable
  generalize k.marked = marked
  generalize (List.range k.chans.length).flatMap (fun c => [(c, false), (c, true)]) = ends
  induction ends generalizing k with
  | nil => exact hR.refl k
  | cons e ends ih =>
    rw [foldl_cons]
    split
    · exact ih k
    · refine hR.trans ?_ (ih (k.closeAndDrop e))
      exact hR.trans (hR.closeEnd k e.1 e.2) (hR.dropAll _ _)

end

theorem dropping_released : Dropping Released where
  refl := .refl
  trans := .trans
  memory := released_dropMemory
  channel _ hch := released_setChan fun _ hg => mem_handles_of_chan hch (Channel.handles_close hg)

theorem released_dropAll (k : KState) (work : List Handle) : Released k (k.dropAll work) :=
  dropping_released.dropAll k work

end KState

end NexoOS.Kernel
