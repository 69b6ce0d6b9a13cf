import Dmtap.Lib.Inet

/-! Addresses as numbers: the blocks they lie in, and the IPv4 addresses that IPv6 ones embed. -/
namespace Dmtap.Lib.Inet

section Blocks

/-- `value` has the first `len` of its `width` bits from `base`. -/
def InBlock (width base len value : ℕ) : Prop :=
  value / 2 ^ (width - len) = base / 2 ^ (width - len)

instance (width base len value : ℕ) : Decidable (InBlock width base len value) :=
  inferInstanceAs (Decidable (_ = _))

theorem inBlock_eight {ip base : Ipv4Addr} :
    InBlock 32 base.value 8 ip.value ↔ ip.a = base.a := by
  have hdiv (x : Ipv4Addr) : x.value / 2 ^ (32 - 8) = x.a.toNat := by
    have hb := x.b.toNat_lt
    have hc := x.c.toNat_lt
    have hd := x.d.toNat_lt
    unfold Ipv4Addr.value
    omega
  rw [InBlock, hdiv, hdiv, UInt8.toNat_inj]

theorem inBlock_twelve {ip base : Ipv4Addr} :
    InBlock 32 base.value 12 ip.value ↔ ip.a = base.a ∧ ip.b.toNat / 16 = base.b.toNat / 16 := by
  have hdiv (x : Ipv4Addr) : x.value / 2 ^ (32 - 12) = x.a.toNat * 16 + x.b.toNat / 16 := by
    have hc := x.c.toNat_lt
    have hd := x.d.toNat_lt
    unfold Ipv4Addr.value
    omega
  have hb := ip.b.toNat_lt
  have hb' := base.b.toNat_lt
  rw [InBlock, hdiv, hdiv, ← UInt8.toNat_inj]
  omega

theorem inBlock_sixteen {ip base : Ipv4Addr} :
    InBlock 32 base.value 16 ip.value ↔ ip.a = base.a ∧ ip.b = base.b := by
  have hdiv (x : Ipv4Addr) : x.value / 2 ^ (32 - 16) = x.a.toNat * 256 + x.b.toNat := by
    have hc := x.c.toNat_lt
    have hd := x.d.toNat_lt
    unfold Ipv4Addr.value
    omega
  have hb := ip.b.toNat_lt
  have hb' := base.b.toNat_lt
  rw [InBlock, hdiv, hdiv, ← UInt8.toNat_inj, ← UInt8.toNat_inj]
  omega

theorem value_inj {x y : Ipv4Addr} : x.value = y.value ↔ x = y := by
  constructor
  · intro h
    have hxb := x.b.toNat_lt
    have hxc := x.c.toNat_lt
    have hxd := x.d.toNat_lt
    have hyb := y.b.toNat_lt
    have hyc := y.c.toNat_lt
    have hyd := y.d.toNat_lt
    unfold Ipv4Addr.value at h
    have ha : x.a = y.a := UInt8.toNat_inj.mp (by omega)
    have hb : x.b = y.b := UInt8.toNat_inj.mp (by omega)
    have hc : x.c = y.c := UInt8.toNat_inj.mp (by omega)
    have hd : x.d = y.d := UInt8.toNat_inj.mp (by omega)
    cases x
    cases y
    simp_all
  · rintro rfl
    rfl

theorem inBlock_thirtyTwo {ip base : Ipv4Addr} :
    InBlock 32 base.value 32 ip.value ↔ ip = base := by
  rw [InBlock, Nat.sub_self, Nat.pow_zero, Nat.div_one, Nat.div_one]
  exact value_inj

end Blocks

section Embedded

/-- `value` is the IPv4-compatible or the IPv4-mapped address of `v4`. -/
def Embeds (value v4 : ℕ) : Prop := v4 < 2 ^ 32 ∧ (value = v4 ∨ value = 0xffff * 2 ^ 32 + v4)

theorem exists_segments (ip : Ipv6Addr) : ∃ s₀ s₁ s₂ s₃ s₄ s₅ s₆ s₇ : UInt16,
    ip = ⟨[s₀, s₁, s₂, s₃, s₄, s₅, s₆, s₇], rfl⟩ := by
  obtain ⟨segments, hlen⟩ := ip
  match segments, hlen with
  | [s₀, s₁, s₂, s₃, s₄, s₅, s₆, s₇], _ => exact ⟨s₀, s₁, s₂, s₃, s₄, s₅, s₆, s₇, rfl⟩

theorem value_segments (s₀ s₁ s₂ s₃ s₄ s₅ s₆ s₇ : UInt16) :
    Ipv6Addr.value ⟨[s₀, s₁, s₂, s₃, s₄, s₅, s₆, s₇], rfl⟩ =
      ((((((s₀.toNat * 65536 + s₁.toNat) * 65536 + s₂.toNat) * 65536 + s₃.toNat) * 65536 +
        s₄.toNat) * 65536 + s₅.toNat) * 65536 + s₆.toNat) * 65536 + s₇.toNat := by
  simp [Ipv6Addr.value]

theorem value_div (ip : Ipv6Addr) : ip.value / 2 ^ 112 = (ip.segment 0).toNat := by
  obtain ⟨s₀, s₁, s₂, s₃, s₄, s₅, s₆, s₇, rfl⟩ := exists_segments ip
  have h₁ := s₁.toNat_lt
  have h₂ := s₂.toNat_lt
  have h₃ := s₃.toNat_lt
  have h₄ := s₄.toNat_lt
  have h₅ := s₅.toNat_lt
  have h₆ := s₆.toNat_lt
  have h₇ := s₇.toNat_lt
  rw [value_segments]
  change _ = s₀.toNat
  omega

theorem isLoopback_iff {ip : Ipv6Addr} : ip.isLoopback = true ↔ ip.value = 1 := by
  obtain ⟨s₀, s₁, s₂, s₃, s₄, s₅, s₆, s₇, rfl⟩ := exists_segments ip
  have h₇ := s₇.toNat_lt
  rw [value_segments]
  simp only [Ipv6Addr.isLoopback, decide_eq_true_eq, List.cons.injEq, and_true, ← UInt16.toNat_inj]
  simp only [UInt16.reduceToNat]
  omega

theorem isUnspecified_iff {ip : Ipv6Addr} : ip.isUnspecified = true ↔ ip.value = 0 := by
  obtain ⟨s₀, s₁, s₂, s₃, s₄, s₅, s₆, s₇, rfl⟩ := exists_segments ip
  rw [value_segments]
  simp only [Ipv6Addr.isUnspecified, decide_eq_true_eq, List.cons.injEq, and_true,
    ← UInt16.toNat_inj]
  simp only [UInt16.reduceToNat]
  omega

theorem exists_value {v : ℕ} (hv : v < 2 ^ 32) : ∃ ip : Ipv4Addr, ip.value = v := by
  refine ⟨⟨.ofNat (v / 2 ^ 24), .ofNat (v / 2 ^ 16), .ofNat (v / 2 ^ 8), .ofNat v⟩, ?_⟩
  simp only [Ipv4Addr.value, UInt8.toNat_ofNat']
  omega

theorem Embeds.eq_mod {value v4 : ℕ} (h : Embeds value v4) : v4 = value % 2 ^ 32 := by
  obtain ⟨hlt, h⟩ := h
  omega

private theorem toNat_highByte (w : UInt16) : (highByte w).toNat = w.toNat / 256 := by
  have hw := w.toNat_lt
  have hlt : w.toNat / 256 < UInt8.size := by
    rw [show UInt8.size = 256 from rfl]
    omega
  exact UInt8.toNat_ofNat_of_lt' hlt

private theorem toNat_lowByte (w : UInt16) : (lowByte w).toNat = w.toNat % 256 :=
  UInt8.toNat_ofNat_of_lt' (Nat.mod_lt _ (by decide))

theorem toIpv4_eq_some_iff {ip : Ipv6Addr} {v4 : Ipv4Addr} :
    ip.toIpv4 = some v4 ↔ Embeds ip.value v4.value := by
  obtain ⟨s₀, s₁, s₂, s₃, s₄, s₅, s₆, s₇, rfl⟩ := exists_segments ip
  have hvalue := value_segments s₀ s₁ s₂ s₃ s₄ s₅ s₆ s₇
  set value := Ipv6Addr.value ⟨[s₀, s₁, s₂, s₃, s₄, s₅, s₆, s₇], rfl⟩
  have h₅ := s₅.toNat_lt
  have h₆ := s₆.toNat_lt
  have h₇ := s₇.toNat_lt
  have hlast : Ipv4Addr.value ⟨highByte s₆, lowByte s₆, highByte s₇, lowByte s₇⟩ =
      value % 2 ^ 32 := by
    simp only [Ipv4Addr.value, toNat_highByte, toNat_lowByte]
    omega
  have hcond : (([s₀, s₁, s₂, s₃, s₄, s₅, s₆, s₇].take 5 = [0, 0, 0, 0, 0]) ∧
      (s₅ = 0 ∨ s₅ = 0xffff)) ↔ Embeds value (value % 2 ^ 32) := by
    have hzero (w : UInt16) : w = 0 ↔ w.toNat = 0 := UInt16.toNat_inj.symm
    have hffff (w : UInt16) : w = 0xffff ↔ w.toNat = 0xffff := UInt16.toNat_inj.symm
    simp only [List.take_succ_cons, List.take_zero, List.cons.injEq, and_true, hzero, hffff, Embeds]
    omega
  have hdef : Ipv6Addr.toIpv4 ⟨[s₀, s₁, s₂, s₃, s₄, s₅, s₆, s₇], rfl⟩ =
      if ([s₀, s₁, s₂, s₃, s₄, s₅, s₆, s₇].take 5 = [0, 0, 0, 0, 0]) ∧
        (s₅ = 0 ∨ s₅ = 0xffff) then
        some ⟨highByte s₆, lowByte s₆, highByte s₇, lowByte s₇⟩
      else none := rfl
  rw [hdef]
  by_cases hc : Embeds value (value % 2 ^ 32)
  · rw [if_pos (hcond.mpr hc), Option.some.injEq, ← value_inj, hlast]
    constructor
    · intro h
      exact h ▸ hc
    · intro h
      exact h.eq_mod.symm
  · rw [if_neg (mt hcond.mp hc)]
    constructor
    · intro h
      cases h
    · intro h
      exact absurd (h.eq_mod ▸ h) hc

/-- Whether the bits of a word under a mask that leaves its last `k` bits out are those of `v`. -/
theorem and_mask_eq_iff {w : UInt16} {k m v : ℕ} {mask block : UInt16} (hm : m = 16 - k)
    (hk : k ≤ 16) (hmask : mask.toNat = (2 ^ m - 1) * 2 ^ k) (hblock : block.toNat = v * 2 ^ k) :
    w &&& mask = block ↔ w.toNat / 2 ^ k = v := by
  have hpos : 0 < 2 ^ k := Nat.two_pow_pos k
  have hw : w.toNat / 2 ^ k < 2 ^ m := by
    have hlt := w.toNat_lt
    have hpow : 2 ^ m * 2 ^ k = 2 ^ 16 := by
      rw [← pow_add, hm, Nat.sub_add_cancel hk]
    rw [Nat.div_lt_iff_lt_mul hpos, hpow]
    exact hlt
  have hand : w.toNat &&& mask.toNat = w.toNat / 2 ^ k * 2 ^ k := by
    have hdiv : (w.toNat &&& mask.toNat) / 2 ^ k = w.toNat / 2 ^ k := by
      rw [Nat.and_div_two_pow, hmask, Nat.mul_div_cancel _ hpos, Nat.and_two_pow_sub_one_eq_mod,
        Nat.mod_eq_of_lt hw]
    have hmod : (w.toNat &&& mask.toNat) % 2 ^ k = 0 := by
      rw [Nat.and_mod_two_pow, hmask, Nat.mul_mod_left, Nat.and_zero]
    rw [← Nat.div_add_mod (w.toNat &&& mask.toNat) (2 ^ k), hdiv, hmod, Nat.add_zero, Nat.mul_comm]
  rw [← UInt16.toNat_inj, UInt16.toNat_and, hand, hblock, Nat.mul_left_inj hpos.ne']

end Embedded
end Dmtap.Lib.Inet
