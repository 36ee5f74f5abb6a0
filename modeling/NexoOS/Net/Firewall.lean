import NexoOS.Net.Tcp

/-!
# Network profiles

`firewall` of the network library: rules that permit a subnet, a range of
ports and a set of protocols, and profiles made of such rules. What a profile
permits is compared by `Profile.Le`; for profiles of one rule the comparison is
decided by `Profile.Within`.
-/

namespace NexoOS.Net.Firewall

open Tcp (Ipv4Addr)

/-- A permitted destination: subnet, range of ports, protocols. -/
structure Rule where
  base : Ipv4Addr
  prefixLen : UInt8
  portLo : UInt16
  portHi : UInt16
  protos : UInt8
  deriving DecidableEq

def protoTcp : UInt8 := 1
def protoUdp : UInt8 := 2
def protoIcmp : UInt8 := 4

def maxRules : Nat := 8

/-- `u32::from_be_bytes`. -/
def beAddr (ip : Ipv4Addr) : UInt32 :=
  UInt32.ofNat (((ip[0].toNat * 256 + ip[1].toNat) * 256 + ip[2].toNat) * 256 + ip[3].toNat)

namespace Rule

/-- The significant bits of an address. -/
def mask (bits : Nat) : UInt32 :=
  if bits = 32 then 0xffffffff else ~~~((1 <<< UInt32.ofNat (32 - bits)) - 1)

/-- Whether the address lies in the subnet of the rule. -/
def matchesAddr (r : Rule) (ip : Ipv4Addr) : Bool :=
  if r.prefixLen = 0 then true
  else
    let m := mask (min r.prefixLen.toNat 32)
    beAddr ip &&& m == beAddr r.base &&& m

def «matches» (r : Rule) (ip : Ipv4Addr) (port : UInt16) (proto : UInt8) : Bool :=
  if r.protos &&& proto = 0 ∨ port < r.portLo ∨ r.portHi < port then false
  else r.matchesAddr ip

end Rule

/-- A list of rules, and the permissions for names and for listening. -/
structure Profile where
  rules : List Rule
  allowDns : Bool
  allowListen : Bool
  deriving DecidableEq

/-- Why something was denied. -/
inductive Deny where
  | noRule
  | protocol
  | dns
  | listen
  deriving DecidableEq

namespace Profile

def denyAll : Profile := { rules := [], allowDns := false, allowListen := false }

def unrestricted : Profile where
  rules := [{ base := .replicate 4 0, prefixLen := 0, portLo := 0, portHi := 0xffff,
              protos := protoTcp ||| protoUdp ||| protoIcmp }]
  allowDns := true
  allowListen := true

variable (p : Profile)

/-- Adds a rule unless the profile is full. -/
def addRule (r : Rule) : Profile :=
  if maxRules ≤ p.rules.length then p else { p with rules := p.rules ++ [r] }

def denyFor (ip : Ipv4Addr) : Deny :=
  if p.rules.any (·.matchesAddr ip) then .protocol else .noRule

def allows (ip : Ipv4Addr) (port : UInt16) (proto : UInt8) : Except Deny Unit :=
  if p.rules.any (·.matches ip port proto) then .ok () else .error (p.denyFor ip)

/-- A ping has no port. -/
def allowsIcmp (ip : Ipv4Addr) : Except Deny Unit :=
  if p.rules.any fun r => r.protos &&& protoIcmp ≠ 0 && r.matchesAddr ip then .ok ()
  else .error (p.denyFor ip)

def allowsDns : Except Deny Unit :=
  if p.allowDns then .ok () else .error .dns

def allowsListen : Except Deny Unit :=
  if p.allowListen then .ok () else .error .listen

end Profile

/-! ## Subnets -/

/-- The number of bits of an address that a rule ignores. -/
def Rule.free (r : Rule) : Nat := 32 - r.prefixLen.toNat

theorem mask_testBit : ∀ bits < 33, ∀ i < 32, 0 < bits →
    (Rule.mask bits).toNat.testBit i = decide (32 - bits ≤ i) := by
  decide +kernel

/-- Two words agree on the mask if they agree above the ignored bits. -/
theorem and_mask_eq_iff (a b : UInt32) {bits : Nat} (h0 : 0 < bits) (h32 : bits ≤ 32) :
    a &&& Rule.mask bits = b &&& Rule.mask bits ↔
      a.toNat / 2 ^ (32 - bits) = b.toNat / 2 ^ (32 - bits) := by
  have hbit : ∀ (x : UInt32) (i : Nat), (x &&& Rule.mask bits).toNat.testBit i =
      (x.toNat.testBit i && decide (32 - bits ≤ i)) := by
    intro x i
    rw [UInt32.toNat_and, Nat.testBit_and]
    by_cases hi : i < 32
    · rw [mask_testBit bits (by omega) i hi h0]
    have hx : x.toNat < 2 ^ i :=
      Nat.lt_of_lt_of_le x.toNat_lt (Nat.pow_le_pow_right (by decide) (by omega))
    rw [Nat.testBit_lt_two_pow hx, Bool.false_and, Bool.false_and]
  rw [← UInt32.toNat_inj]
  constructor
  · intro h
    apply Nat.eq_of_testBit_eq
    intro i
    have hi := congrArg (Nat.testBit · (32 - bits + i)) h
    rw [hbit, hbit, decide_eq_true (Nat.le_add_right _ _), Bool.and_true, Bool.and_true] at hi
    rw [Nat.testBit_div_two_pow, Nat.testBit_div_two_pow, Nat.add_comm, hi]
  · intro h
    apply Nat.eq_of_testBit_eq
    intro i
    rw [hbit, hbit]
    by_cases hi : 32 - bits ≤ i
    · have hj := congrArg (Nat.testBit · (i - (32 - bits))) h
      rw [Nat.testBit_div_two_pow, Nat.testBit_div_two_pow, Nat.sub_add_cancel hi] at hj
      rw [hj]
    · rw [decide_eq_false hi, Bool.and_false, Bool.and_false]

theorem Rule.matchesAddr_iff (r : Rule) (ip : Ipv4Addr) :
    r.matchesAddr ip = true ↔
      (beAddr ip).toNat / 2 ^ r.free = (beAddr r.base).toNat / 2 ^ r.free := by
  unfold matchesAddr
  have hlt : ∀ x : UInt32, x.toNat / 2 ^ 32 = 0 := fun x => Nat.div_eq_of_lt x.toNat_lt
  by_cases h0 : r.prefixLen = 0
  · have hfree : r.free = 32 := by
      rw [free, h0]
      rfl
    rw [if_pos h0, hfree, hlt, hlt]
    exact iff_of_true rfl rfl
  · have hpos : 0 < r.prefixLen.toNat := by
      apply Nat.pos_of_ne_zero
      intro h
      exact h0 (UInt8.toNat_inj.1 h)
    have hfree : r.free = 32 - min r.prefixLen.toNat 32 := by
      unfold free
      omega
    rw [if_neg h0, beq_iff_eq, and_mask_eq_iff _ _ (by omega) (by omega), hfree]

theorem beAddr_surjective (x : UInt32) : ∃ ip, beAddr ip = x := by
  have hx := x.toNat_lt
  refine ⟨#v[UInt8.ofNat (x.toNat / 2 ^ 24), UInt8.ofNat (x.toNat / 2 ^ 16 % 256),
    UInt8.ofNat (x.toNat / 2 ^ 8 % 256), UInt8.ofNat (x.toNat % 256)], ?_⟩
  apply UInt32.toNat_inj.1
  have hbyte : ∀ n < 256, (UInt8.ofNat n).toNat = n := fun n hn => UInt8.toNat_ofNat_of_lt' hn
  change (UInt32.ofNat ((((UInt8.ofNat _).toNat * 256 + (UInt8.ofNat _).toNat) * 256 +
    (UInt8.ofNat _).toNat) * 256 + (UInt8.ofNat _).toNat)).toNat = x.toNat
  rw [hbyte _ (by omega), hbyte _ (by omega), hbyte _ (by omega), hbyte _ (by omega),
    UInt32.toNat_ofNat_of_lt' (by change _ < 2 ^ 32; omega)]
  omega

/-- The subnet of `r` contains the one of `c`: it ignores no fewer bits and has
the base of `c`. -/
def Rule.Contains (r c : Rule) : Prop := c.free ≤ r.free ∧ r.matchesAddr c.base = true

instance (r c : Rule) : Decidable (r.Contains c) := inferInstanceAs (Decidable (_ ∧ _))

theorem div_pow_mono {a b k n : Nat} (h : a / 2 ^ k = b / 2 ^ k) (hkn : k ≤ n) :
    a / 2 ^ n = b / 2 ^ n := by
  obtain ⟨j, rfl⟩ := Nat.exists_eq_add_of_le hkn
  rw [Nat.pow_add, ← Nat.div_div_eq_div_mul, h, Nat.div_div_eq_div_mul]

theorem Rule.contains_iff (r c : Rule) :
    r.Contains c ↔ ∀ ip, c.matchesAddr ip = true → r.matchesAddr ip = true := by
  simp only [Contains, matchesAddr_iff]
  constructor
  · rintro ⟨hfree, hbase⟩ ip hip
    exact (div_pow_mono hip hfree).trans hbase
  intro h
  refine ⟨?_, h c.base rfl⟩
  by_contra hlt
  -- the base of `c` with the highest bit that only `c` ignores turned over
  have h32 : c.free ≤ 32 := Nat.sub_le _ _
  have hx : (beAddr c.base).toNat ^^^ 2 ^ r.free < 2 ^ 32 :=
    Nat.xor_lt_two_pow (beAddr c.base).toNat_lt (Nat.pow_lt_pow_right (by decide) (by omega))
  obtain ⟨ip, hip⟩ := beAddr_surjective (UInt32.ofNat ((beAddr c.base).toNat ^^^ 2 ^ r.free))
  have hval : (beAddr ip).toNat = (beAddr c.base).toNat ^^^ 2 ^ r.free := by
    rw [hip, UInt32.toNat_ofNat_of_lt' hx]
  have hin : (beAddr ip).toNat / 2 ^ c.free = (beAddr c.base).toNat / 2 ^ c.free := by
    rw [hval, Nat.xor_div_two_pow, Nat.div_eq_of_lt (Nat.pow_lt_pow_right (by decide) (by omega)),
      Nat.xor_zero]
  have hout := congrArg (Nat.testBit · 0) ((h ip hin).trans (h c.base rfl).symm)
  simp only [Nat.testBit_div_two_pow, Nat.zero_add, hval, Nat.testBit_xor,
    Nat.testBit_two_pow_self] at hout
  exact absurd hout (by simp)

/-! ## Comparing profiles -/

namespace Profile

/-- Whatever `c` permits is permitted by `p`. -/
structure Le (c p : Profile) : Prop where
  flow : ∀ ip port proto, proto = protoTcp ∨ proto = protoUdp →
    c.allows ip port proto = .ok () → p.allows ip port proto = .ok ()
  icmp : ∀ ip, c.allowsIcmp ip = .ok () → p.allowsIcmp ip = .ok ()
  dns : c.allowsDns = .ok () → p.allowsDns = .ok ()
  listen : c.allowsListen = .ok () → p.allowsListen = .ok ()

theorem Le.trans {c p q : Profile} (h : c.Le p) (h' : p.Le q) : c.Le q where
  flow ip port proto hp ha := h'.flow ip port proto hp (h.flow ip port proto hp ha)
  icmp ip ha := h'.icmp ip (h.icmp ip ha)
  dns ha := h'.dns (h.dns ha)
  listen ha := h'.listen (h.listen ha)

variable {c p : Profile} {ip : Ipv4Addr}

theorem ok_of_cond {b : Bool} {d : Deny} :
    (if b then .ok () else .error d : Except Deny Unit) = .ok () ↔ b = true := by
  cases b <;> simp

theorem allows_iff {port : UInt16} {proto : UInt8} : p.allows ip port proto = .ok () ↔
    ∃ r ∈ p.rules, r.protos &&& proto ≠ 0 ∧ r.portLo ≤ port ∧ port ≤ r.portHi ∧
      r.matchesAddr ip = true := by
  rw [allows, ok_of_cond, List.any_eq_true]
  refine exists_congr fun r => and_congr_right fun _ => ?_
  unfold Rule.matches
  rw [ite_eq_iff]
  simp only [Bool.false_eq_true, and_false, false_or, not_or, UInt16.not_lt, and_assoc]

theorem allowsIcmp_iff : p.allowsIcmp ip = .ok () ↔
    ∃ r ∈ p.rules, r.protos &&& protoIcmp ≠ 0 ∧ r.matchesAddr ip = true := by
  rw [allowsIcmp, ok_of_cond, List.any_eq_true]
  simp only [Bool.and_eq_true, decide_eq_true_eq]

theorem allowsDns_iff : p.allowsDns = .ok () ↔ p.allowDns = true := by
  rw [allowsDns, ok_of_cond]

theorem allowsListen_iff : p.allowsListen = .ok () ↔ p.allowListen = true := by
  rw [allowsListen, ok_of_cond]

/-- The rule `c` permits nothing that some rule of `p` does not: for each of its
protocols, unless its range of ports is empty, a rule of `p` has the protocol,
the ports and the subnet. A ping needs no port. -/
def WithinRule (p : Profile) (c : Rule) : Prop :=
  (∀ proto ∈ [protoTcp, protoUdp], c.protos &&& proto ≠ 0 → c.portLo ≤ c.portHi →
    ∃ r ∈ p.rules, r.protos &&& proto ≠ 0 ∧ r.portLo ≤ c.portLo ∧ c.portHi ≤ r.portHi ∧
      r.Contains c) ∧
  (c.protos &&& protoIcmp ≠ 0 → ∃ r ∈ p.rules, r.protos &&& protoIcmp ≠ 0 ∧ r.Contains c)

/-- The fields of `c` lie within those of `p`. -/
structure Within (c p : Profile) : Prop where
  rules : ∀ r ∈ c.rules, p.WithinRule r
  dns : c.allowDns = true → p.allowDns = true
  listen : c.allowListen = true → p.allowListen = true

theorem Within.le (h : c.Within p) : c.Le p where
  flow := by
    intro ip port proto hproto hc
    obtain ⟨r, hr, hbit, hlo, hhi, haddr⟩ := allows_iff.1 hc
    have hmem : proto ∈ [protoTcp, protoUdp] := by
      rcases hproto with rfl | rfl <;> simp
    obtain ⟨q, hq, hbit', hlo', hhi', hcont⟩ :=
      (h.rules r hr).1 proto hmem hbit (UInt16.le_trans hlo hhi)
    exact allows_iff.2 ⟨q, hq, hbit', UInt16.le_trans hlo' hlo, UInt16.le_trans hhi hhi',
      (Rule.contains_iff q r).1 hcont ip haddr⟩
  icmp := by
    intro ip hc
    obtain ⟨r, hr, hbit, haddr⟩ := allowsIcmp_iff.1 hc
    obtain ⟨q, hq, hbit', hcont⟩ := (h.rules r hr).2 hbit
    exact allowsIcmp_iff.2 ⟨q, hq, hbit', (Rule.contains_iff q r).1 hcont ip haddr⟩
  dns hc := allowsDns_iff.2 (h.dns (allowsDns_iff.1 hc))
  listen hc := allowsListen_iff.2 (h.listen (allowsListen_iff.1 hc))

theorem rule_unique (hp : p.rules.length ≤ 1) {r q : Rule} (hr : r ∈ p.rules) (hq : q ∈ p.rules) :
    r = q := by
  obtain ⟨rules, _, _⟩ := p
  match rules, hp with
  | [x], _ => rw [List.mem_singleton.1 hr, List.mem_singleton.1 hq]

/-- Against a profile of one rule the comparison of the fields is exact. -/
theorem le_iff_within (hp : p.rules.length ≤ 1) : c.Le p ↔ c.Within p := by
  constructor
  · intro h
    refine ⟨fun r hr => ⟨?_, ?_⟩, ?_, ?_⟩
    · intro proto hmem hbit hports
      have hproto : proto = protoTcp ∨ proto = protoUdp := by
        simpa using hmem
      -- what the rule permits at its two ends
      have hends : ∀ ip port, r.matchesAddr ip = true → r.portLo ≤ port → port ≤ r.portHi →
          p.allows ip port proto = .ok () := fun ip port haddr hlo hhi =>
        h.flow ip port proto hproto (allows_iff.2 ⟨r, hr, hbit, hlo, hhi, haddr⟩)
      have hbase : r.matchesAddr r.base = true := (r.matchesAddr_iff _).2 rfl
      obtain ⟨q, hq, hbit', hlo, -, -⟩ :=
        allows_iff.1 (hends r.base r.portLo hbase (UInt16.le_refl _) hports)
      obtain ⟨q', hq', -, -, hhi, -⟩ :=
        allows_iff.1 (hends r.base r.portHi hbase hports (UInt16.le_refl _))
      obtain rfl := rule_unique hp hq hq'
      refine ⟨q, hq, hbit', hlo, hhi, (Rule.contains_iff q r).2 fun ip haddr => ?_⟩
      obtain ⟨q', hq', -, -, -, hq'addr⟩ :=
        allows_iff.1 (hends ip r.portLo haddr (UInt16.le_refl _) hports)
      exact rule_unique hp hq' hq ▸ hq'addr
    · intro hbit
      have hall : ∀ ip, r.matchesAddr ip = true → p.allowsIcmp ip = .ok () := fun ip haddr =>
        h.icmp ip (allowsIcmp_iff.2 ⟨r, hr, hbit, haddr⟩)
      obtain ⟨q, hq, hbit', -⟩ := allowsIcmp_iff.1 (hall r.base ((r.matchesAddr_iff _).2 rfl))
      refine ⟨q, hq, hbit', (Rule.contains_iff q r).2 fun ip haddr => ?_⟩
      obtain ⟨q', hq', -, hq'addr⟩ := allowsIcmp_iff.1 (hall ip haddr)
      exact rule_unique hp hq' hq ▸ hq'addr
    · intro hc
      exact allowsDns_iff.1 (h.dns (allowsDns_iff.2 hc))
    · intro hc
      exact allowsListen_iff.1 (h.listen (allowsListen_iff.2 hc))
  · exact Within.le

end Profile
end NexoOS.Net.Firewall
