import Mathlib

/-!
# Programs on a disk that may lose power

A disk is its blocks by number. A program reads the disk and issues writes in
order; a cut leaves the writes of a prefix, the next one possibly torn. The
rules at the end derive what holds at every cut of a program from its parts.
-/

namespace NexoOS

variable {σ ε β α γ : Type}

abbrev Disk (β : Type) := Nat → β

/-- A block number and what is written there. -/
abbrev Writes (β : Type) := List (Nat × β)

namespace Disk

variable (d : Disk β)

def write (a : Nat) (b : β) : Disk β := Function.update d a b

def writeAll (ws : Writes β) : Disk β := ws.foldl (fun d w => d.write w.1 w.2) d

@[simp] theorem write_self (a : Nat) (b : β) : d.write a b a = b :=
  Function.update_self ..

theorem write_of_ne {d : Disk β} {a a' : Nat} {b : β} (h : a' ≠ a) : d.write a b a' = d a' :=
  Function.update_of_ne h ..

@[simp] theorem writeAll_cons (a : Nat) (b : β) (ws : Writes β) :
    d.writeAll ((a, b) :: ws) = (d.write a b).writeAll ws := rfl

theorem writeAll_append (ws vs : Writes β) : d.writeAll (ws ++ vs) = (d.writeAll ws).writeAll vs :=
  List.foldl_append

/-- What a cut may leave of the writes `ws`: `T old new x` says that a write
of `new` over `old` may be torn to `x`. -/
inductive Cut (T : β → β → β → Prop) : Disk β → Writes β → Disk β → Prop where
  | here (d : Disk β) (ws : Writes β) : Cut T d ws d
  | torn {d : Disk β} {a : Nat} {b x : β} {ws : Writes β} (h : T (d a) b x) :
      Cut T d ((a, b) :: ws) (d.write a x)
  | step {d d' : Disk β} {a : Nat} {b : β} {ws : Writes β} (h : Cut T (d.write a b) ws d') :
      Cut T d ((a, b) :: ws) d'

/-- Writes that are never torn. -/
abbrev whole : β → β → β → Prop := fun _ _ _ => False

variable {T : β → β → β → Prop}

theorem cut_take (d : Disk β) (ws : Writes β) (k : Nat) : Cut T d ws (d.writeAll (ws.take k)) := by
  induction ws generalizing d k with
  | nil => rw [List.take_nil]; exact .here d []
  | cons w ws ih =>
    cases k with
    | zero => exact .here d _
    | succ k => exact .step (ih (d.write w.1 w.2) k)

/-- A cut of two runs of writes is one of the first, or one of the second
after all of the first. -/
theorem Cut.append {d d' : Disk β} {ws vs : Writes β} (h : Cut T d (ws ++ vs) d') :
    Cut T d ws d' ∨ Cut T (d.writeAll ws) vs d' := by
  induction ws generalizing d with
  | nil => exact .inr h
  | cons w ws ih =>
    cases h with
    | here => exact .inl (.here _ _)
    | torn ht => exact .inl (.torn ht)
    | step h => exact (ih h).imp_left .step

/-- A cut that tears no write leaves each block as it was or as some write
has it. -/
theorem Cut.mem {d d' : Disk β} {ws : Writes β} (h : Cut whole d ws d') (a : Nat) :
    d' a = d a ∨ ∃ b, (a, b) ∈ ws ∧ d' a = b := by
  induction h with
  | here => exact .inl rfl
  | torn h => exact h.elim
  | @step d d' c b ws _ ih =>
    rcases ih with ih | ⟨b', hb', ih⟩
    · by_cases ha : a = c
      · subst ha
        rw [write_self] at ih
        exact .inr ⟨b, List.mem_cons_self, ih⟩
      · rw [write_of_ne ha] at ih
        exact .inl ih
    · exact .inr ⟨b', List.mem_cons_of_mem _ hb', ih⟩

theorem cut_writeAll (d : Disk β) (ws : Writes β) : Cut T d ws (d.writeAll ws) := by
  have := cut_take (T := T) d ws ws.length
  rwa [List.take_length] at this

theorem writeAll_range (d : Disk β) (s n : Nat) (f : Nat → β) (a : Nat) :
    d.writeAll ((List.range n).map fun i => (s + i, f i)) a =
      if s ≤ a ∧ a < s + n then f (a - s) else d a := by
  induction n with
  | zero => rw [if_neg (by omega)]; rfl
  | succ n ih =>
    rw [List.range_succ, List.map_append, writeAll_append]
    change (Disk.write _ (s + n) (f n)) a = _
    by_cases ha : a = s + n
    · rw [ha, write_self, if_pos (by omega), Nat.add_sub_cancel_left]
    rw [write_of_ne ha, ih]
    by_cases hin : s ≤ a ∧ a < s + n
    · rw [if_pos hin, if_pos (by omega)]
    · rw [if_neg hin, if_neg (by omega)]

theorem writeAll_mem {d : Disk β} {ws : Writes β} {a : Nat} {b : β} (h : (a, b) ∈ ws) :
    ∃ b', (a, b') ∈ ws ∧ d.writeAll ws a = b' := by
  induction ws generalizing d with
  | nil => cases h
  | cons w ws ih =>
    obtain ⟨c, x⟩ := w
    rw [writeAll_cons]
    rcases List.mem_cons.1 h with h | h
    · cases h
      rcases (cut_writeAll (d.write a b) ws).mem a with h | ⟨b', hb', h⟩
      · exact ⟨b, List.mem_cons_self, by rw [h, write_self]⟩
      · exact ⟨b', List.mem_cons_of_mem _ hb', h⟩
    · obtain ⟨b', hb', h⟩ := ih h
      exact ⟨b', List.mem_cons_of_mem _ hb', h⟩

end Disk

/-- From a memory state and a disk: a result or an error, the memory state
after it, and the writes issued. -/
def Prog (σ ε β α : Type) := σ → Disk β → Except ε α × σ × Writes β

namespace Prog

instance : Monad (Prog σ ε β) where
  pure a := fun s _ => (.ok a, s, [])
  bind p f := fun s d =>
    match p s d with
    | (.error e, s', ws) => (.error e, s', ws)
    | (.ok a, s', ws) =>
      let r := f a s' (d.writeAll ws)
      (r.1, r.2.1, ws ++ r.2.2)

def fail (e : ε) : Prog σ ε β α := fun s _ => (.error e, s, [])

def reading (f : Disk β → Except ε α) : Prog σ ε β α := fun s d => (f d, s, [])

/-- A computation on the memory state alone. -/
def stateful (f : σ → Except ε α × σ) : Prog σ ε β α := fun s _ => ((f s).1, (f s).2, [])

/-- Issues the writes `ws` in order. -/
def writeList (ws : Writes β) : Prog σ ε β Unit := fun s _ => (.ok (), s, ws)

def write (a : Nat) (b : β) : Prog σ ε β Unit := writeList [(a, b)]

/-! ## What holds at every cut -/

variable {T : β → β → β → Prop} {I : Disk β → Prop}
  {Q R : Except ε α → σ → Disk β → Prop} {s : σ} {d : Disk β}

/-- `I` holds at every cut of `p`, and `Q` of its result and of the disk
after it. -/
def Holds (T : β → β → β → Prop) (p : Prog σ ε β α) (s : σ) (d : Disk β) (I : Disk β → Prop)
    (Q : Except ε α → σ → Disk β → Prop) : Prop :=
  (∀ d', Disk.Cut T d (p s d).2.2 d' → I d') ∧ Q (p s d).1 (p s d).2.1 (d.writeAll (p s d).2.2)

variable {p : Prog σ ε β α} {ws : Writes β} {f : γ → Prog σ ε β α}

theorem Holds.imp {J : Disk β → Prop} (h : Holds T p s d J R) (hI : ∀ d', J d' → I d')
    (hQ : ∀ r s' d', R r s' d' → Q r s' d') : Holds T p s d I Q :=
  ⟨fun d' hd => hI d' (h.1 d' hd), hQ _ _ _ h.2⟩

theorem holds_of_no_write (hw : (p s d).2.2 = []) (hI : I d) (hQ : Q (p s d).1 (p s d).2.1 d) :
    Holds T p s d I Q := by
  refine ⟨fun d' h => ?_, ?_⟩
  · rw [hw] at h
    cases h
    exact hI
  · rwa [hw]

theorem holds_pure {a : α} (hI : I d) (hQ : Q (.ok a) s d) :
    Holds T (pure a : Prog σ ε β α) s d I Q :=
  holds_of_no_write rfl hI hQ

theorem holds_fail {e : ε} (hI : I d) (hQ : Q (.error e) s d) :
    Holds T (fail e : Prog σ ε β α) s d I Q :=
  holds_of_no_write rfl hI hQ

theorem holds_reading {f : Disk β → Except ε α} (hI : I d) (hQ : Q (f d) s d) :
    Holds T (reading f : Prog σ ε β α) s d I Q :=
  holds_of_no_write rfl hI hQ

theorem holds_writeList {Q : Except ε Unit → σ → Disk β → Prop}
    (hI : ∀ d', Disk.Cut T d ws d' → I d') (hQ : Q (.ok ()) s (d.writeAll ws)) :
    Holds T (writeList ws : Prog σ ε β Unit) s d I Q :=
  ⟨hI, hQ⟩

theorem holds_write {a : Nat} {b : β} {Q : Except ε Unit → σ → Disk β → Prop} (hI : I d)
    (htorn : ∀ x, T (d a) b x → I (d.write a x)) (hI' : I (d.write a b))
    (hQ : Q (.ok ()) s (d.write a b)) : Holds T (write a b : Prog σ ε β Unit) s d I Q := by
  refine ⟨fun d' h => ?_, hQ⟩
  cases h with
  | here => exact hI
  | torn h => exact htorn _ h
  | step h =>
    cases h
    exact hI'

theorem bind_error {p : Prog σ ε β γ} {e : ε} {s' : σ} (h : p s d = (.error e, s', ws)) :
    (p >>= f) s d = (.error e, s', ws) := by
  change (match p s d with | (.error e, s', ws) => _ | (.ok a, s', ws) => _) = _
  rw [h]

theorem bind_ok {p : Prog σ ε β γ} {a : γ} {s' : σ} (h : p s d = (.ok a, s', ws)) :
    (p >>= f) s d = ((f a s' (d.writeAll ws)).1, (f a s' (d.writeAll ws)).2.1,
      ws ++ (f a s' (d.writeAll ws)).2.2) := by
  change (match p s d with | (.error e, s', ws) => _ | (.ok a, s', ws) => _) = _
  rw [h]

/-- The rule for sequencing: the continuation starts from what the first part
promises; an error of the first part is the error of the whole. -/
theorem holds_bind {p : Prog σ ε β γ} {R : Except ε γ → σ → Disk β → Prop}
    (hp : Holds T p s d I R) (hok : ∀ a s' d', R (.ok a) s' d' → Holds T (f a) s' d' I Q)
    (herr : ∀ e s' d', R (.error e) s' d' → Q (.error e) s' d') : Holds T (p >>= f) s d I Q := by
  obtain ⟨hcut, hres⟩ := hp
  rcases hps : p s d with ⟨r, s', ws⟩
  rw [hps] at hcut hres
  rcases r with e | a
  · rw [Holds, bind_error hps]
    exact ⟨hcut, herr e s' _ hres⟩
  obtain ⟨hcut', hres'⟩ := hok a s' _ hres
  rw [Holds, bind_ok hps]
  refine ⟨fun d' h => ?_, ?_⟩
  · rcases h.append with h | h
    · exact hcut d' h
    · exact hcut' d' h
  · rw [Disk.writeAll_append]
    exact hres'

theorem reading_bind_error {g : Disk β → Except ε γ} {e : ε} (h : g d = .error e) :
    (reading g >>= f) s d = (.error e, s, []) :=
  bind_error (congrArg (·, s, []) h)

theorem reading_bind_ok {g : Disk β → Except ε γ} {a : γ} (h : g d = .ok a) :
    (reading g >>= f) s d = f a s d := by
  rw [bind_ok (congrArg (·, s, []) h : reading g s d = _)]
  rfl

/-- What is read from the disk is at hand in the continuation. -/
theorem holds_bind_reading {g : Disk β → Except ε γ} {a : γ} (hg : g d = .ok a)
    (hf : Holds T (f a) s d I Q) : Holds T (reading g >>= f) s d I Q := by
  refine holds_bind (R := fun r s' d' => r = .ok a ∧ s' = s ∧ d' = d)
    (holds_reading (hf.1 d (.here ..)) ⟨hg, rfl, rfl⟩) ?_ fun _ _ _ hr => nomatch hr.1
  rintro _ _ _ ⟨hr, rfl, rfl⟩
  cases hr
  exact hf

theorem holds_bind_write {a : Nat} {b : β} {f : Unit → Prog σ ε β α} (hI : I d)
    (htorn : ∀ x, T (d a) b x → I (d.write a x)) (hf : Holds T (f ()) s (d.write a b) I Q) :
    Holds T (write a b >>= f) s d I Q := by
  refine holds_bind (R := fun r s' d' => r = .ok () ∧ s' = s ∧ d' = d.write a b)
    (holds_write hI htorn (hf.1 _ (.here ..)) ⟨rfl, rfl, rfl⟩) ?_ fun _ _ _ hr => nomatch hr.1
  rintro _ _ _ ⟨-, rfl, rfl⟩
  exact hf

/-! ## Runs without a cut -/

/-- The result, the memory state and the disk after a run of `p`. -/
def eval (p : Prog σ ε β α) (s : σ) (d : Disk β) : Except ε α × σ × Disk β :=
  ((p s d).1, (p s d).2.1, d.writeAll (p s d).2.2)

theorem eval_bind (p : Prog σ ε β γ) (f : γ → Prog σ ε β α) (s : σ) (d : Disk β) :
    (p >>= f).eval s d = match p.eval s d with
      | (.error e, s', d') => (.error e, s', d')
      | (.ok a, s', d') => (f a).eval s' d' := by
  unfold eval
  rcases hp : p s d with ⟨_ | a, s', ws⟩
  · rw [bind_error hp]
  · rw [bind_ok hp, Disk.writeAll_append]

@[simp] theorem eval_pure (a : α) (s : σ) (d : Disk β) :
    (pure a : Prog σ ε β α).eval s d = (.ok a, s, d) := rfl

@[simp] theorem eval_reading (f : Disk β → Except ε α) (s : σ) (d : Disk β) :
    (reading f : Prog σ ε β α).eval s d = (f d, s, d) := rfl

@[simp] theorem eval_stateful (f : σ → Except ε α × σ) (s : σ) (d : Disk β) :
    (stateful f : Prog σ ε β α).eval s d = ((f s).1, (f s).2, d) := rfl

@[simp] theorem eval_write (a : Nat) (b : β) (s : σ) (d : Disk β) :
    (write a b : Prog σ ε β Unit).eval s d = (.ok (), s, d.write a b) := rfl

end Prog
end NexoOS
