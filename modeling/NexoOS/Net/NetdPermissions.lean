import NexoOS.Lib.Slots
import NexoOS.Net.NetdRun

/-!
# Permissions along the tree of sessions

`open` gives the new session the profile that the request asks for, whatever
the profile of the session that asks. Permissions shrink along the tree exactly
in the runs in which every `open` asks for no more than its session has.
-/

namespace NexoOS.Net.Daemon

open List
open Firewall (Profile Rule)

namespace State

variable {s : State}

def OpenedBy (s : State) (k p : Nat) : Prop := ∃ r, s.sessions[k]? = some r ∧ r.parent = some p

/-- What a session may do, every session may do that it descends from. -/
def NoAmplification (s : State) : Prop :=
  ∀ k a, Relation.TransGen s.OpenedBy k a → ∀ rk ra, s.sessions[k]? = some rk →
    s.sessions[a]? = some ra → rk.profile.Le ra.profile

/-- An `open` that is served and finds a place asks for a profile within that of
its session. -/
def OpenWithin (s : State) (e : Event) : Prop :=
  ∀ c rq i, s.Opens e c rq i → (childProfile rq).Within c.profile

/-- Every `open` of the run asks for a profile within that of its session. -/
def OpensWithin : State → List Event → Prop
  | _, [] => True
  | s, e :: es => s.OpenWithin e ∧ OpensWithin (s.step e).1 es

/-- Clients have the profile of their session, every profile has at most one
rule, and a session is younger than the one that opened it. -/
structure Recorded (s : State) : Prop where
  client : ∀ i c, s.clients i = some c →
    ∃ r, s.sessions[c.session]? = some r ∧ r.profile = c.profile
  rules : ∀ r ∈ s.sessions, r.profile.rules.length ≤ 1
  parent : ∀ r ∈ s.sessions, ∀ p, r.parent = some p → p < s.sessions.length

theorem childProfile_rules (rq : OpenRequest) : (childProfile rq).rules.length ≤ 1 := by
  unfold childProfile
  split
  · split
    · exact Nat.zero_le _
    · unfold Profile.addRule
      dsimp only [length_nil]
      rw [if_neg (by decide)]
      exact Nat.le_refl _
  · exact Nat.zero_le _

theorem recorded_start (mac gwMac : Mac) (lease : DhcpLease) : (start mac gwMac lease).Recorded where
  client := by
    intro i c hc
    unfold start at hc
    dsimp only at hc
    split at hc
    · cases hc
      exact ⟨_, rfl, rfl⟩
    · cases hc
  rules := by
    intro r hr
    rw [mem_singleton.1 hr]
    decide
  parent := by
    intro r hr p hp
    rw [mem_singleton.1 hr] at hp
    cases hp

theorem Recorded.step (h : s.Recorded) (e : Event) : (s.step e).1.Recorded := by
  rcases s.step_clients e with ⟨hc, hs, -⟩ | ⟨c, rq, i, ho, hc, hs⟩ | ⟨slot, hc, hs, -⟩
  · refine ⟨?_, ?_, ?_⟩
    · rw [hc, hs]
      exact h.client
    · rw [hs]
      exact h.rules
    · rw [hs]
      exact h.parent
  · obtain ⟨⟨slot, now, lost, -, hslot⟩, -, -⟩ := ho
    obtain ⟨r₀, hr₀, -⟩ := h.client slot c hslot
    have hlt : c.session < s.sessions.length := (List.getElem?_eq_some_iff.1 hr₀).1
    refine ⟨?_, ?_, ?_⟩
    · intro j c' hj
      rw [hc] at hj
      rw [hs]
      rcases of_update_some hj with ⟨-, rfl⟩ | ⟨-, hj⟩
      · exact ⟨_, List.getElem?_concat_length, rfl⟩
      · obtain ⟨r, hr, hp⟩ := h.client j c' hj
        exact ⟨r, (List.getElem?_append_left (List.getElem?_eq_some_iff.1 hr).1).trans hr, hp⟩
    · intro r hr
      rw [hs] at hr
      rcases mem_append.1 hr with hr | hr
      · exact h.rules r hr
      · rw [mem_singleton.1 hr]
        exact childProfile_rules rq
    · intro r hr p hp
      rw [hs, length_append, length_singleton]
      rw [hs] at hr
      rcases mem_append.1 hr with hr | hr
      · exact Nat.lt_succ_of_lt (h.parent r hr p hp)
      rw [mem_singleton.1 hr] at hp
      cases hp
      exact Nat.lt_succ_of_lt hlt
  · refine ⟨?_, ?_, ?_⟩
    · intro j c hj
      rw [hc] at hj
      rw [hs]
      exact h.client j c (of_update_none hj).2
    · rw [hs]
      exact h.rules
    · rw [hs]
      exact h.parent

/-- Every session has a profile below that of the one that opened it. -/
def EdgesLe (s : State) : Prop :=
  ∀ k p, s.OpenedBy k p → ∀ rk rp, s.sessions[k]? = some rk → s.sessions[p]? = some rp →
    rk.profile.Le rp.profile

theorem noAmplification_iff : s.NoAmplification ↔ s.EdgesLe := by
  constructor
  · intro hno k p hkp
    exact hno k p (.single hkp)
  intro hedges k a hka
  induction hka with
  | single hkp => exact hedges _ _ hkp
  | tail hkb hba ih =>
    intro rk ra hk ha
    obtain ⟨rb, hb, hp⟩ := hba
    exact (ih rk rb hk hb).trans (hedges _ _ ⟨rb, hb, hp⟩ rb ra hb ha)

/-- A step keeps the order along the edges exactly if its `open` is within. -/
theorem Recorded.edgesLe_step (h : s.Recorded) (e : Event) :
    (s.step e).1.EdgesLe ↔ s.EdgesLe ∧ s.OpenWithin e := by
  have hsame : (s.step e).1.sessions = s.sessions → (∀ c rq i, ¬ s.Opens e c rq i) →
      ((s.step e).1.EdgesLe ↔ s.EdgesLe ∧ s.OpenWithin e) := by
    intro hs hno
    unfold EdgesLe OpenedBy
    rw [hs]
    exact ⟨fun hedges => ⟨hedges, fun c rq i ho => absurd ho (hno c rq i)⟩, fun hedges => hedges.1⟩
  rcases s.step_clients e with ⟨-, hs, hno⟩ | ⟨c, rq, i, ho, -, hs⟩ | ⟨slot, -, hs, hno⟩
  · exact hsame hs hno
  · obtain ⟨⟨slot, now, lost, he, hslot⟩, hserving, hplace⟩ := ho
    obtain ⟨r₀, hr₀, hprofile⟩ := h.client slot c hslot
    have hlt : c.session < s.sessions.length := (List.getElem?_eq_some_iff.1 hr₀).1
    have hold : ∀ {k : Nat}, k < s.sessions.length →
        (s.step e).1.sessions[k]? = s.sessions[k]? := by
      intro k hk
      rw [hs, List.getElem?_append_left hk]
    have hnew : (s.step e).1.sessions[s.sessions.length]? =
        some { parent := some c.session, profile := childProfile rq } := by
      rw [hs, List.getElem?_concat_length]
    constructor
    · intro hedges
      refine ⟨?_, ?_⟩
      · rintro k p ⟨r, hr, hp⟩ rk rp hk hrp
        have hkl := (List.getElem?_eq_some_iff.1 hk).1
        have hpl := (List.getElem?_eq_some_iff.1 hrp).1
        exact hedges k p ⟨r, (hold hkl).trans hr, hp⟩ rk rp ((hold hkl).trans hk)
          ((hold hpl).trans hrp)
      · rintro c' rq' i' ⟨⟨slot', now', lost', he', hslot'⟩, -, -⟩
        obtain ⟨rfl, hrq, -⟩ := Event.request.inj (he.symm.trans he')
        cases hrq
        obtain rfl := Option.some.inj (hslot.symm.trans hslot')
        have hle := hedges _ _ ⟨_, hnew, rfl⟩ _ _ hnew ((hold hlt).trans hr₀)
        rw [← hprofile]
        exact (Profile.le_iff_within (h.rules r₀ (mem_of_getElem? hr₀))).1 hle
    · rintro ⟨hedges, hwithin⟩ k p ⟨r, hr, hp⟩ rk rp hk hrp
      obtain rfl := Option.some.inj (hr.symm.trans hk)
      rcases getElem?_concat_cases (hs ▸ hr) with hr | ⟨rfl, rfl⟩
      · have hpl : p < s.sessions.length := h.parent r (mem_of_getElem? hr) p hp
        rw [hold hpl] at hrp
        exact hedges k p ⟨r, hr, hp⟩ r rp hr hrp
      cases hp
      rw [hold hlt] at hrp
      obtain rfl := Option.some.inj (hr₀.symm.trans hrp)
      rw [hprofile]
      exact (hwithin c rq i ⟨⟨slot, now, lost, he, hslot⟩, hserving, hplace⟩).le
  · exact hsame hs hno

theorem Recorded.edgesLe_run (h : s.Recorded) (es : List Event) :
    (s.run es).EdgesLe ↔ s.EdgesLe ∧ s.OpensWithin es := by
  induction es generalizing s with
  | nil => exact (and_iff_left trivial).symm
  | cons e es ih =>
    have hrun : s.run (e :: es) = (s.step e).1.run es := rfl
    rw [hrun, ih (h.step e), h.edgesLe_step e, and_assoc]
    rfl

end State

/-- After a run no session, nor any that descends from it, may do more than the
one that opened it, exactly if every `open` of the run that created a session
asked for a profile within that of its own session. -/
theorem noAmplification_iff_opensWithin (mac gwMac : Mac) (lease : DhcpLease) (es : List Event) :
    ((State.start mac gwMac lease).run es).NoAmplification ↔
      (State.start mac gwMac lease).OpensWithin es := by
  have hstart := State.recorded_start mac gwMac lease
  have hedges : (State.start mac gwMac lease).EdgesLe := by
    rintro k p ⟨r, hr, hp⟩
    have hr' := mem_singleton.1 (mem_of_getElem? hr)
    rw [hr'] at hp
    cases hp
  rw [State.noAmplification_iff, hstart.edgesLe_run es]
  exact and_iff_right hedges

def openAll : OpenRequest where
  allowDns := 1
  allowListen := 1
  ruleIp := [0, 0, 0, 0]
  rulePrefixLen := 0
  rulePortLo := 0
  rulePortHi := 0xffff
  ruleProtos := 7

def openNothing : OpenRequest where
  allowDns := 0
  allowListen := 0
  ruleIp := []
  rulePrefixLen := 0
  rulePortLo := 0
  rulePortHi := 0
  ruleProtos := 0

def someLease : DhcpLease where
  ip := Tcp.ipv4 10 0 2 15
  mask := Tcp.ipv4 255 255 255 0
  router := Tcp.ipv4 10 0 2 2
  dns := Tcp.ipv4 10 0 2 3

/-- The session that may do nothing opens one that may do everything. -/
theorem denied_session_opens_unrestricted :
    ∃ s, s = (State.start (.replicate 6 0) (.replicate 6 1) someLease).run
        [.request 0 (some (.openSession openNothing)) 0 false,
          .request 1 (some (.openSession openAll)) 1 false] ∧
      s.OpenedBy 2 1 ∧ s.sessions[1]?.map Session.profile = some .denyAll ∧
      s.sessions[2]?.map Session.profile = some .unrestricted ∧ ¬ s.NoAmplification := by
  refine ⟨_, rfl, ⟨_, rfl, rfl⟩, by decide, by decide, ?_⟩
  intro hno
  have hle := hno 2 1 (.single ⟨_, rfl, rfl⟩) _ _ rfl rfl
  have hdns := hle.dns (by decide)
  exact absurd hdns (by decide)

end NexoOS.Net.Daemon
