import Dmtap.Identity.Avatar
import Dmtap.Lib.InetBlocks

/-! The internal targets an avatar URL may name, in every spelling, against the guard. A dot behind
the name or a zone behind the address hides the target from it. -/
namespace Dmtap.Identity
open Lib Lib.Inet Cbor

section Blocks

/-- Loopback, private, link-local, unspecified, broadcast, and this network. -/
def internalBlocks : List (Ipv4Addr × ℕ) :=
  [(⟨127, 0, 0, 0⟩, 8), (⟨10, 0, 0, 0⟩, 8), (⟨172, 16, 0, 0⟩, 12), (⟨192, 168, 0, 0⟩, 16),
    (⟨169, 254, 0, 0⟩, 16), (⟨0, 0, 0, 0⟩, 32), (⟨255, 255, 255, 255⟩, 32), (⟨0, 0, 0, 0⟩, 8)]

def InternalV4 (value : ℕ) : Prop := ∃ b ∈ internalBlocks, InBlock 32 b.1.value b.2 value

instance (value : ℕ) : Decidable (InternalV4 value) :=
  inferInstanceAs (Decidable (∃ b ∈ internalBlocks, _))

def InternalV6 (value : ℕ) : Prop :=
  value = 1 ∨ value = 0 ∨ InBlock 128 (0xfc00 * 2 ^ 112) 7 value ∨
    InBlock 128 (0xfe80 * 2 ^ 112) 10 value ∨ ∃ v4, Embeds value v4 ∧ InternalV4 v4

/-- The guard's predicate is membership in the blocks. -/
theorem v4IsInternal_iff {ip : Ipv4Addr} : v4IsInternal ip = true ↔ InternalV4 ip.value := by
  have hb : ip.b.toNat / 16 = 1 ↔ 16 ≤ ip.b ∧ ip.b ≤ 31 := by
    rw [UInt8.le_iff_toNat_le, UInt8.le_iff_toNat_le]
    have h16 : (16 : UInt8).toNat = 16 := rfl
    have h31 : (31 : UInt8).toNat = 31 := rfl
    omega
  have hblocks : InternalV4 ip.value ↔
      ip.a = 127 ∨ ip.a = 10 ∨ (ip.a = 172 ∧ ip.b.toNat / 16 = 1) ∨ (ip.a = 192 ∧ ip.b = 168) ∨
        (ip.a = 169 ∧ ip.b = 254) ∨ ip = ⟨0, 0, 0, 0⟩ ∨ ip = ⟨255, 255, 255, 255⟩ ∨ ip.a = 0 := by
    simp only [InternalV4, internalBlocks, List.exists_mem_cons_iff, List.not_mem_nil, false_and,
      exists_false, or_false, inBlock_eight, inBlock_twelve, inBlock_sixteen, inBlock_thirtyTwo]
    rfl
  rw [hblocks, hb]
  simp only [v4IsInternal, Ipv4Addr.isLoopback, Ipv4Addr.isPrivate, Ipv4Addr.isLinkLocal,
    Ipv4Addr.isUnspecified, Ipv4Addr.isBroadcast, Bool.or_eq_true, decide_eq_true_eq, or_assoc]

theorem v6IsInternal_iff {ip : Ipv6Addr} : ipIsInternal (.v6 ip) = true ↔ InternalV6 ip.value := by
  unfold ipIsInternal InternalV6
  dsimp only
  have hfirst := value_div ip
  have hula : ip.segment 0 &&& 0xfe00 = 0xfc00 ↔ InBlock 128 (0xfc00 * 2 ^ 112) 7 ip.value := by
    rw [@and_mask_eq_iff _ 9 7 0x7e _ _ rfl (by decide) rfl rfl, ← hfirst, InBlock]
    omega
  have hlocal : ip.segment 0 &&& 0xffc0 = 0xfe80 ↔ InBlock 128 (0xfe80 * 2 ^ 112) 10 ip.value := by
    rw [@and_mask_eq_iff _ 6 10 0x3fa _ _ rfl (by decide) rfl rfl, ← hfirst, InBlock]
    omega
  cases hv4 : ip.toIpv4 with
  | some v4 =>
    have hembeds := toIpv4_eq_some_iff.mp hv4
    dsimp only
    rw [v4IsInternal_iff]
    constructor
    · exact fun h => .inr (.inr (.inr (.inr ⟨v4.value, hembeds, h⟩)))
    · rintro (h | h | h | h | ⟨w, hw, hint⟩)
      · rw [hembeds.eq_mod, h]
        decide
      · rw [hembeds.eq_mod, h]
        decide
      · exfalso
        obtain ⟨hlt, hor⟩ := hembeds
        unfold InBlock at h
        omega
      · exfalso
        obtain ⟨hlt, hor⟩ := hembeds
        unfold InBlock at h
        omega
      · rwa [hembeds.eq_mod, ← hw.eq_mod]
  | none =>
    have hnone : ¬ ∃ w, Embeds ip.value w ∧ InternalV4 w := by
      rintro ⟨w, hw, -⟩
      obtain ⟨v4, rfl⟩ := exists_value hw.1
      rw [toIpv4_eq_some_iff.mpr hw] at hv4
      cases hv4
    simp only [Bool.or_eq_true, decide_eq_true_eq, hula, hlocal, isLoopback_iff, isUnspecified_iff,
      hnone, or_false, or_assoc]

end Blocks

/-! What the guard says of the spellings, with and without a dot at the end. -/
section Verdicts

theorem isNumericLabel_of_digits {l : List Char} (hne : l ≠ []) (hall : ∀ c ∈ l, c.isDigit = true) :
    isNumericLabel l = true := by
  unfold isNumericLabel
  split
  · exact absurd rfl hne
  · exact absurd (hall 'x' (by simp)) (by decide)
  · exact absurd (hall 'X' (by simp)) (by decide)
  · exact List.all_eq_true.mpr hall

theorem isNumericLabel_of_atonPart {l : List Char} {n : ℕ} (h : atonPart l = some n) :
    isNumericLabel l = true ∧ ∃ c ∈ l, c.isDigit = true := by
  have hdigits {radix : ℕ} {ds : List Char} (hd : digits? radix ds = some n) :
      ds ≠ [] ∧ ∀ c ∈ ds, isDigitOf radix c = true := by
    unfold digits? at hd
    split_ifs at hd with hcond
    exact hcond.imp_right List.all_eq_true.mp
  have hdec {radix : ℕ} (hr : radix ≤ 10) {ds : List Char} (hd : digits? radix ds = some n) :
      ds ≠ [] ∧ ∀ c ∈ ds, c.isDigit = true := by
    obtain ⟨hne, hall⟩ := hdigits hd
    exact ⟨hne, fun c hc => isDigitOf_ten_iff.mp (isDigitOf_mono hr (hall c hc))⟩
  unfold atonPart at h
  split at h
  · obtain ⟨hne, hall⟩ := hdigits h
    exact ⟨by simpa [isNumericLabel, hne] using hall, '0', List.mem_cons_self, rfl⟩
  · obtain ⟨hne, hall⟩ := hdigits h
    exact ⟨by simpa [isNumericLabel, hne] using hall, '0', List.mem_cons_self, rfl⟩
  · obtain ⟨-, hall⟩ := hdec (by decide) h
    refine ⟨isNumericLabel_of_digits (List.cons_ne_nil _ _) ?_, '0', List.mem_cons_self, rfl⟩
    intro c hc
    rcases List.mem_cons.mp hc with rfl | hc
    · rfl
    · exact hall c hc
  · obtain ⟨hne, hall⟩ := hdec (by decide) h
    obtain ⟨c, hc⟩ := List.exists_mem_of_ne_nil _ hne
    exact ⟨isNumericLabel_of_digits hne hall, c, hc, hall c hc⟩

theorem isNumericIpHost_of_inetAton {host : List Char} {n : ℕ} (h : inetAton host = some n) :
    isNumericIpHost host = true := by
  obtain ⟨parts, hparts, -⟩ := Option.bind_eq_some_iff.mp h
  have hpart := exists_of_mapM_eq_some hparts
  obtain ⟨first, pieces, hsplit⟩ := List.exists_cons_of_ne_nil (List.splitOn_ne_nil '.' host)
  have hfirst : first ∈ host.splitOn '.' := hsplit ▸ List.mem_cons_self
  obtain ⟨n, hn⟩ := hpart first hfirst
  obtain ⟨c, hc, hdigit⟩ := (isNumericLabel_of_atonPart hn).2
  rw [isNumericIpHost, Bool.and_eq_true, List.all_eq_true, List.any_eq_true]
  refine ⟨?_, c, subset_of_mem_splitOn hfirst hc, hdigit⟩
  intro l hl
  obtain ⟨m, hm⟩ := hpart l hl
  exact (isNumericLabel_of_atonPart hm).1

/-- Every character of a numeric host is a digit, a dot, or the `x` in front of hexadecimal. -/
theorem char_of_isNumericIpHost {host : List Char} (h : isNumericIpHost host = true) {c : Char}
    (hc : c ∈ host) : isDigitOf 16 c = true ∨ c = '.' ∨ c = 'x' ∨ c = 'X' := by
  rw [isNumericIpHost, Bool.and_eq_true, List.all_eq_true] at h
  by_cases hdot : c = '.'
  · exact .inr (.inl hdot)
  · obtain ⟨l, hl, hcl⟩ := mem_splitOn_of_ne hc hdot
    have hnum := h.1 l hl
    have hhex {ds : List Char} (hds : (decide (ds ≠ []) && ds.all (isDigitOf 16)) = true)
        (hcds : c ∈ ds) : isDigitOf 16 c = true :=
      List.all_eq_true.mp (Bool.and_eq_true_iff.mp hds).2 c hcds
    unfold isNumericLabel at hnum
    split at hnum
    · cases hnum
    · rcases List.mem_cons.mp hcl with rfl | hcl
      · exact .inl (by decide)
      · rcases List.mem_cons.mp hcl with rfl | hcl
        · exact .inr (.inr (.inl rfl))
        · exact .inl (hhex hnum hcl)
    · rcases List.mem_cons.mp hcl with rfl | hcl
      · exact .inl (by decide)
      · rcases List.mem_cons.mp hcl with rfl | hcl
        · exact .inr (.inr (.inr rfl))
        · exact .inl (hhex hnum hcl)
    · have hdigit := List.all_eq_true.mp hnum c hcl
      exact .inl (isDigitOf_mono (by decide) (isDigitOf_ten_iff.mpr hdigit))

theorem judgeHost_ipv4 {host : List Char} {n : ℕ} (h : inetAton host = some n)
    (hint : InternalV4 n) : judgeHost host = .error .avatarUrlUnsafe := by
  have hnum := isNumericIpHost_of_inetAton h
  unfold judgeHost
  cases hparse : parseIpAddr host with
  | none =>
    dsimp only
    rw [if_pos hnum]
  | some ip =>
    dsimp only
    cases ip with
    | v4 v4 =>
      rw [inetAton_of_parseIpAddr hparse] at h
      rw [← Option.some.inj h] at hint
      rw [ipIsInternal, if_pos (v4IsInternal_iff.mpr hint)]
    | v6 v6 =>
      exfalso
      rcases char_of_isNumericIpHost hnum (colon_mem_of_parseIpAddr hparse) with h | h | h | h
      · rw [isDigitOf_colon le_rfl] at h
        cases h
      all_goals exact absurd h (by decide)

theorem judgeHost_ipv6 {host : List Char} {ip : Ipv6Addr} (h : Ipv6Text host ip)
    (hint : InternalV6 ip.value) : judgeHost host = .error .avatarUrlUnsafe := by
  rw [judgeHost, parseIpAddr_ipv6 h]
  exact if_pos (v6IsInternal_iff.mpr hint)

/-- A host that is no address and not numeric is judged by its name. -/
theorem judgeHost_of_char {host : List Char} {c : Char} (hc : c ∈ host) (hip : isIpChar c = false)
    (hx : c ≠ 'x') (hX : c ≠ 'X') :
    judgeHost host = if isLocalhost host then .error .avatarUrlUnsafe else .ok () := by
  have hparse : parseIpAddr host = none := by
    cases hparse : parseIpAddr host with
    | none => rfl
    | some ip =>
      have hchar := (consumable_of_parseIpAddr hparse).chars c hc
      rw [hip] at hchar
      cases hchar
  have hnum : ¬ isNumericIpHost host = true := by
    intro hnum
    rcases char_of_isNumericIpHost hnum hc with h | h | h | h
    · rw [isIpChar, h] at hip
      cases hip
    · rw [h] at hip
      cases hip
    · exact hx h
    · exact hX h
  rw [judgeHost, hparse]
  dsimp only
  rw [if_neg hnum]

/-- `localhost`, or a name under it. -/
def NamedLocalhost (host : List Char) : Prop :=
  host.map Char.toLower = "localhost".toList ∨ ".localhost".toList <:+ host.map Char.toLower

theorem isLocalhost_iff {host : List Char} : isLocalhost host = true ↔ NamedLocalhost host := by
  rw [isLocalhost, Bool.or_eq_true, decide_eq_true_eq, decide_eq_true_eq]
  rfl

theorem NamedLocalhost.exists_char {host : List Char} (h : NamedLocalhost host) :
    ∃ c ∈ host, c.toLower = 'o' := by
  have hmem : 'o' ∈ host.map Char.toLower := by
    rcases h with h | h
    · rw [h]
      decide
    · exact h.subset (by decide)
  exact List.mem_map.mp hmem

theorem judgeHost_localhost {host : List Char} (h : NamedLocalhost host) :
    judgeHost host = .error .avatarUrlUnsafe := by
  obtain ⟨c, hc, hlower⟩ := h.exists_char
  have hascii : c.toNat < 128 := by
    apply toNat_lt_of_toLower
    rw [hlower]
    decide
  have hall : ∀ n < 128, (Char.ofNat n).toLower = 'o' →
      isIpChar (Char.ofNat n) = false ∧ Char.ofNat n ≠ 'x' ∧ Char.ofNat n ≠ 'X' := by
    decide
  have hchar := hall c.toNat hascii
  rw [Char.ofNat_toNat] at hchar
  obtain ⟨hip, hx, hX⟩ := hchar hlower
  rw [judgeHost_of_char hc hip hx hX, if_pos (isLocalhost_iff.mpr h)]

theorem suffix_append_cons_iff {s a b : List Char} {p : Char} (hp : p ∉ s) :
    s <:+ a ++ p :: b ↔ s <:+ b := by
  have htail : p :: b <:+ a ++ p :: b := List.suffix_append a (p :: b)
  constructor
  · intro h
    rcases List.suffix_or_suffix_of_suffix h htail with h | h
    · rcases List.suffix_cons_iff.mp h with rfl | h
      · exact absurd List.mem_cons_self hp
      · exact h
    · exact absurd (h.subset List.mem_cons_self) hp
  · intro h
    exact h.trans ((List.suffix_cons p b).trans htail)

/-- Behind a zone, only its own name is looked at. -/
theorem judgeHost_zone {text zone : List Char} :
    judgeHost (text ++ '%' :: zone) = .error .avatarUrlUnsafe ↔
      ".localhost".toList <:+ zone.map Char.toLower := by
  have hmem : '%' ∈ text ++ '%' :: zone := List.mem_append_right _ List.mem_cons_self
  have hnamed : NamedLocalhost (text ++ '%' :: zone) ↔
      ".localhost".toList <:+ zone.map Char.toLower := by
    have hmap : (text ++ '%' :: zone).map Char.toLower =
        text.map Char.toLower ++ '%' :: zone.map Char.toLower := by
      rw [List.map_append, List.map_cons]
      rfl
    rw [NamedLocalhost, hmap, suffix_append_cons_iff (by decide)]
    refine or_iff_right fun h => ?_
    have hpercent : '%' ∈ "localhost".toList := h ▸ List.mem_append_right _ List.mem_cons_self
    exact absurd hpercent (by decide)
  rw [judgeHost_of_char hmem (by decide) (by decide) (by decide), ← hnamed, ← isLocalhost_iff]
  split_ifs with h
  · exact iff_of_true rfl h
  · exact iff_of_false (fun h => nomatch h) h

theorem judgeHost_dot {host : List Char} (h : host.getLast? = some '.') : judgeHost host = .ok () := by
  have hparse : parseIpAddr host = none := by
    cases hparse : parseIpAddr host with
    | none => rfl
    | some ip => exact absurd h (consumable_of_parseIpAddr hparse).last
  have hnum : ¬ isNumericIpHost host = true := by
    intro hnum
    rw [isNumericIpHost, Bool.and_eq_true, List.all_eq_true] at hnum
    exact absurd (hnum.1 [] (nil_mem_splitOn h)) (by decide)
  have hlocal : ¬ isLocalhost host = true := by
    intro hlocal
    have hlast : (host.map Char.toLower).getLast? = some '.' := by
      rw [List.getLast?_map, h]
      rfl
    rcases isLocalhost_iff.mp hlocal with hname | ⟨front, hname⟩
    · rw [hname] at hlast
      exact absurd hlast (by decide)
    · rw [← hname, List.getLast?_append] at hlast
      exact absurd hlast (by simp)
  rw [judgeHost, hparse]
  dsimp only
  rw [if_neg hnum, if_neg hlocal]

end Verdicts
end Dmtap.Identity
