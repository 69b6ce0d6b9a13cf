import Dmtap.Lib.Inet

/-! The strict parser of addresses in the standard library. Each reader takes what it can from the
front of the text and gives back the rest. -/
namespace Dmtap.Lib.Inet

inductive IpAddr
  | v4 (ip : Ipv4Addr)
  | v6 (ip : Ipv6Addr)
  deriving DecidableEq

section Readers

def readNumber (radix maxDigits : ℕ) (allowZeroPrefix : Bool) (cs : List Char) :
    Option (ℕ × List Char) :=
  let digits := cs.takeWhile (isDigitOf radix)
  if digits = [] ∨ maxDigits < digits.length then none
  else if !allowZeroPrefix && cs.head? = some '0' && 1 < digits.length then none
  else some (numeral radix digits, cs.dropWhile (isDigitOf radix))

def readGivenChar (given : Char) : List Char → Option (List Char)
  | [] => none
  | c :: cs => if c = given then some cs else none

def readSeparator {α : Type} (sep : Char) (first : Bool)
    (inner : List Char → Option (α × List Char)) (cs : List Char) : Option (α × List Char) :=
  if first then inner cs else (readGivenChar sep cs).bind inner

def readOctet (cs : List Char) : Option (UInt8 × List Char) :=
  (readNumber 10 3 false cs).bind fun r =>
    if r.1 < 256 then some (UInt8.ofNat r.1, r.2) else none

def readHextet (cs : List Char) : Option (UInt16 × List Char) :=
  (readNumber 16 4 true cs).map fun r => (UInt16.ofNat r.1, r.2)

def readIpv4Addr (cs : List Char) : Option (Ipv4Addr × List Char) :=
  (readSeparator '.' true readOctet cs).bind fun a =>
  (readSeparator '.' false readOctet a.2).bind fun b =>
  (readSeparator '.' false readOctet b.2).bind fun c =>
  (readSeparator '.' false readOctet c.2).map fun d => (⟨a.1, b.1, c.1, d.1⟩, d.2)

/-- What is read of a chunk of groups: the groups, whether a dotted quad ended it, and the rest. -/
structure Chunk where
  groups : List UInt16
  ipv4 : Bool
  rest : List Char

/-- Up to `limit` groups; a dotted quad needs room for two. -/
def readGroups : ℕ → Bool → List Char → Chunk
  | 0, _, cs => ⟨[], false, cs⟩
  | limit + 1, first, cs =>
    match if 0 < limit then readSeparator ':' first readIpv4Addr cs else none with
    | some r => ⟨[pair r.1.a r.1.b, pair r.1.c r.1.d], true, r.2⟩
    | none =>
      match readSeparator ':' first readHextet cs with
      | some r =>
        let more := readGroups limit false r.2
        ⟨r.1 :: more.groups, more.ipv4, more.rest⟩
      | none => ⟨[], false, cs⟩

def readIpv6Addr (cs : List Char) : Option (Ipv6Addr × List Char) :=
  let head := readGroups 8 true cs
  if head.groups.length = 8 then some (.ofGroups head.groups [], head.rest)
  else if head.ipv4 then none
  else ((readGivenChar ':' head.rest).bind (readGivenChar ':')).map fun cs =>
    let tail := readGroups (8 - (head.groups.length + 1)) true cs
    (.ofGroups head.groups tail.groups, tail.rest)

def readIpAddr (cs : List Char) : Option (IpAddr × List Char) :=
  match readIpv4Addr cs with
  | some r => some (.v4 r.1, r.2)
  | none => (readIpv6Addr cs).map fun r => (.v6 r.1, r.2)

/-- An address has to take the whole text. -/
def parseIpAddr (cs : List Char) : Option IpAddr :=
  (readIpAddr cs).bind fun r => if r.2 = [] then some r.1 else none

end Readers

example : parseIpAddr "::ffff:127.0.0.1".toList =
    some (.v6 ⟨[0, 0, 0, 0, 0, 0xffff, 0x7f00, 1], rfl⟩) := by
  decide

/-! What the readers consume. -/
section Consumed

def isIpChar (c : Char) : Bool := isDigitOf 16 c || c = '.' || c = ':'

/-- Characters of an address, of which the last is no dot. -/
structure Consumable (cs : List Char) : Prop where
  chars : ∀ c ∈ cs, isIpChar c = true
  last : cs.getLast? ≠ some '.'

theorem Consumable.append {a b : List Char} (ha : Consumable a) (hb : Consumable b) :
    Consumable (a ++ b) where
  chars c hc := by
    rcases List.mem_append.mp hc with h | h
    · exact ha.chars c h
    · exact hb.chars c h
  last := by
    rw [List.getLast?_append]
    cases hlast : b.getLast? with
    | none => exact ha.last
    | some c =>
      have h := hb.last
      rwa [hlast] at h

theorem consumable_nil : Consumable [] where
  chars c hc := absurd hc List.not_mem_nil
  last := by simp

theorem consumable_colon : Consumable [':'] where
  chars c hc := by
    rw [List.mem_singleton.mp hc]
    decide
  last := by decide

theorem isDigitOf_dot {radix : ℕ} (h : radix ≤ 16) : isDigitOf radix '.' = false := by
  have hdot : digitValue '.' = 16 := by decide
  rw [isDigitOf, decide_eq_false_iff_not, hdot]
  omega

theorem isDigitOf_colon {radix : ℕ} (h : radix ≤ 16) : isDigitOf radix ':' = false := by
  have hcolon : digitValue ':' = 16 := by decide
  rw [isDigitOf, decide_eq_false_iff_not, hcolon]
  omega

theorem consumable_of_digits {ds : List Char} (h : ∀ c ∈ ds, isDigitOf 16 c = true) :
    Consumable ds where
  chars c hc := by
    rw [isIpChar, h c hc]
    rfl
  last hlast := by
    have hdot := h '.' (List.mem_of_getLast? hlast)
    rw [isDigitOf_dot le_rfl] at hdot
    cases hdot

theorem Consumable.dot_cons {cs : List Char} (h : Consumable cs) (hne : cs ≠ []) :
    Consumable ('.' :: cs) where
  chars c hc := by
    rcases List.mem_cons.mp hc with rfl | hc
    · decide
    · exact h.chars c hc
  last := by
    obtain ⟨x, cs, rfl⟩ := List.exists_cons_of_ne_nil hne
    rw [List.getLast?_cons_cons]
    exact h.last

theorem readNumber_eq_some {radix maxDigits : ℕ} {allowZeroPrefix : Bool} {cs : List Char}
    {r : ℕ × List Char} (h : readNumber radix maxDigits allowZeroPrefix cs = some r) :
    ∃ ds, cs = ds ++ r.2 ∧ r.1 = numeral radix ds ∧ ds ≠ [] ∧ ds.length ≤ maxDigits ∧
      (∀ c ∈ ds, isDigitOf radix c = true) ∧
      (allowZeroPrefix = false → ds.head? = some '0' → ds.length ≤ 1) := by
  unfold readNumber at h
  dsimp only at h
  split_ifs at h with hlen hzero
  obtain ⟨hne, hmax⟩ := not_or.mp hlen
  obtain rfl := Option.some.inj h
  refine ⟨cs.takeWhile (isDigitOf radix), List.takeWhile_append_dropWhile.symm, rfl, hne,
    Nat.le_of_not_lt hmax, fun c hc => List.mem_takeWhile_imp hc, ?_⟩
  intro hallow hhead
  have hcs : cs.head? = some '0' := by
    rw [← List.takeWhile_append_dropWhile (p := isDigitOf radix) (l := cs), List.head?_append, hhead]
    rfl
  rw [hallow, hcs] at hzero
  simpa using hzero

theorem readOctet_takes {cs : List Char} {r : UInt8 × List Char} (h : readOctet cs = some r) :
    ∃ ds, IsOctet ds ∧ cs = ds ++ r.2 ∧ r.1 = octet ds := by
  unfold readOctet at h
  obtain ⟨n, hn, h⟩ := Option.bind_eq_some_iff.mp h
  split_ifs at h with hlt
  obtain rfl := Option.some.inj h
  obtain ⟨ds, hcs, hval, hne, hlen, hdigits, hzero⟩ := readNumber_eq_some hn
  refine ⟨ds, ⟨hne, hlen, hdigits, ?_, hval ▸ hlt⟩, hcs, congrArg UInt8.ofNat hval⟩
  intro hhead
  obtain ⟨x, xs, rfl⟩ := List.exists_cons_of_ne_nil hne
  have hxs : xs = [] := by
    have hlen := hzero rfl hhead
    rw [List.length_cons] at hlen
    exact List.length_eq_zero_iff.mp (by omega)
  rw [hxs, Option.some.inj hhead]

theorem readGivenChar_eq_some {given : Char} {cs tl : List Char} :
    readGivenChar given cs = some tl ↔ cs = given :: tl := by
  cases cs with
  | nil => simp [readGivenChar]
  | cons c cs => simp [readGivenChar]

theorem readSeparator_eq_some {α : Type} {sep : Char} {first : Bool}
    {inner : List Char → Option (α × List Char)} {cs : List Char} {r : α × List Char} :
    readSeparator sep first inner cs = some r ↔
      ∃ tl, cs = (if first then tl else sep :: tl) ∧ inner tl = some r := by
  cases first with
  | true => simp [readSeparator]
  | false => simp [readSeparator, Option.bind_eq_some_iff, readGivenChar_eq_some]

theorem readIpv4Addr_takes {cs : List Char} {r : Ipv4Addr × List Char}
    (h : readIpv4Addr cs = some r) : ∃ text, DottedQuad text r.1 ∧ cs = text ++ r.2 := by
  unfold readIpv4Addr at h
  obtain ⟨⟨a, cs₁⟩, ha, h⟩ := Option.bind_eq_some_iff.mp h
  obtain ⟨⟨b, cs₂⟩, hb, h⟩ := Option.bind_eq_some_iff.mp h
  obtain ⟨⟨c, cs₃⟩, hc, h⟩ := Option.bind_eq_some_iff.mp h
  obtain ⟨⟨d, cs₄⟩, hd, h⟩ := Option.map_eq_some_iff.mp h
  subst h
  obtain ⟨tl₀, rfl, ha⟩ := readSeparator_eq_some.mp ha
  obtain ⟨tl₁, rfl, hb⟩ := readSeparator_eq_some.mp hb
  obtain ⟨tl₂, rfl, hc⟩ := readSeparator_eq_some.mp hc
  obtain ⟨tl₃, rfl, hd⟩ := readSeparator_eq_some.mp hd
  obtain ⟨as, has, hcs, rfl⟩ := readOctet_takes ha
  obtain ⟨bs, hbs, rfl, rfl⟩ := readOctet_takes hb
  obtain ⟨cs, hcs', rfl, rfl⟩ := readOctet_takes hc
  obtain ⟨ds, hds, rfl, rfl⟩ := readOctet_takes hd
  refine ⟨_, .mk has hbs hcs' hds, ?_⟩
  simpa using hcs

theorem IsOctet.consumable {ds : List Char} (h : IsOctet ds) : Consumable ds :=
  consumable_of_digits fun c hc => isDigitOf_mono (by decide) (h.digits c hc)

theorem DottedQuad.consumable {cs : List Char} {ip : Ipv4Addr} (h : DottedQuad cs ip) :
    Consumable cs := by
  obtain ⟨ha, hb, hc, hd⟩ := h
  have hb' := hb.consumable.dot_cons hb.ne_nil
  have hc' := hc.consumable.dot_cons hc.ne_nil
  have hd' := hd.consumable.dot_cons hd.ne_nil
  simpa using ha.consumable.append (hb'.append (hc'.append hd'))

theorem readHextet_takes {cs : List Char} {r : UInt16 × List Char} (h : readHextet cs = some r) :
    ∃ used, Consumable used ∧ cs = used ++ r.2 := by
  obtain ⟨n, hn, rfl⟩ := Option.map_eq_some_iff.mp h
  obtain ⟨ds, hcs, -, -, -, hdigits, -⟩ := readNumber_eq_some hn
  exact ⟨ds, consumable_of_digits hdigits, hcs⟩

theorem readSeparator_takes {α : Type} {first : Bool} {inner : List Char → Option (α × List Char)}
    {cs : List Char} {r : α × List Char} (h : readSeparator ':' first inner cs = some r)
    (hinner : ∀ tl, inner tl = some r → ∃ used, Consumable used ∧ tl = used ++ r.2) :
    ∃ used, Consumable used ∧ cs = used ++ r.2 := by
  obtain ⟨tl, rfl, htl⟩ := readSeparator_eq_some.mp h
  obtain ⟨used, hused, rfl⟩ := hinner tl htl
  cases first with
  | true => exact ⟨used, hused, rfl⟩
  | false => exact ⟨':' :: used, consumable_colon.append hused, rfl⟩

theorem readGroups_takes (limit : ℕ) (first : Bool) (cs : List Char) :
    ∃ used, Consumable used ∧ cs = used ++ (readGroups limit first cs).rest := by
  induction limit generalizing first cs with
  | zero => exact ⟨[], consumable_nil, rfl⟩
  | succ limit ih =>
    unfold readGroups
    cases hquad : if 0 < limit then readSeparator ':' first readIpv4Addr cs else none with
    | some r =>
      have hread : readSeparator ':' first readIpv4Addr cs = some r := by
        split_ifs at hquad
        exact hquad
      refine readSeparator_takes hread fun tl htl => ?_
      obtain ⟨text, hq, htl⟩ := readIpv4Addr_takes htl
      exact ⟨text, hq.consumable, htl⟩
    | none =>
      cases hgroup : readSeparator ':' first readHextet cs with
      | none => exact ⟨[], consumable_nil, rfl⟩
      | some r =>
        obtain ⟨used, hused, hcs⟩ := readSeparator_takes hgroup fun tl htl => readHextet_takes htl
        obtain ⟨more, hmore, hrest⟩ := ih false r.2
        refine ⟨used ++ more, hused.append hmore, ?_⟩
        rw [List.append_assoc, ← hrest]
        exact hcs

theorem readIpv6Addr_takes {cs : List Char} {r : Ipv6Addr × List Char}
    (h : readIpv6Addr cs = some r) : ∃ used, Consumable used ∧ cs = used ++ r.2 := by
  unfold readIpv6Addr at h
  obtain ⟨front, hfront, hcs⟩ := readGroups_takes 8 true cs
  dsimp only at h
  split_ifs at h
  · obtain rfl := Option.some.inj h
    exact ⟨front, hfront, hcs⟩
  · obtain ⟨tl, htl, rfl⟩ := Option.map_eq_some_iff.mp h
    obtain ⟨mid, hmid, htl⟩ := Option.bind_eq_some_iff.mp htl
    obtain rfl := readGivenChar_eq_some.mp htl
    obtain ⟨back, hback, htl⟩ :=
      readGroups_takes (8 - ((readGroups 8 true cs).groups.length + 1)) true tl
    refine ⟨front ++ ([':'] ++ ([':'] ++ back)),
      hfront.append (consumable_colon.append (consumable_colon.append hback)), ?_⟩
    rw [readGivenChar_eq_some.mp hmid, htl] at hcs
    simpa using hcs

theorem colon_mem_of_readGroups {limit : ℕ} {cs : List Char}
    (h : (readGroups limit false cs).groups ≠ []) : ':' ∈ cs := by
  cases limit with
  | zero => exact absurd rfl h
  | succ limit =>
    unfold readGroups at h
    split at h
    · rename_i hquad
      split_ifs at hquad
      obtain ⟨tl, rfl, -⟩ := readSeparator_eq_some.mp hquad
      exact List.mem_cons_self
    · split at h
      · rename_i hhex
        obtain ⟨tl, rfl, -⟩ := readSeparator_eq_some.mp hhex
        exact List.mem_cons_self
      · exact absurd rfl h

theorem colon_mem_of_readIpv6Addr {cs : List Char} {r : Ipv6Addr × List Char}
    (h : readIpv6Addr cs = some r) : ':' ∈ cs := by
  unfold readIpv6Addr at h
  dsimp only at h
  split_ifs at h with hlen
  · unfold readGroups at hlen
    split at hlen
    · cases hlen
    · split at hlen
      · rename_i hhex
        obtain ⟨used, -, rfl⟩ := readSeparator_takes hhex fun tl htl => readHextet_takes htl
        apply List.mem_append_right
        apply @colon_mem_of_readGroups 7
        intro hnil
        dsimp only at hlen
        rw [hnil] at hlen
        cases hlen
      · cases hlen
  · obtain ⟨tl, htl, -⟩ := Option.map_eq_some_iff.mp h
    obtain ⟨mid, hmid, -⟩ := Option.bind_eq_some_iff.mp htl
    obtain ⟨front, -, hcs⟩ := readGroups_takes 8 true cs
    rw [hcs, readGivenChar_eq_some.mp hmid]
    exact List.mem_append_right _ List.mem_cons_self

theorem parseIpAddr_cases {cs : List Char} {ip : IpAddr} (h : parseIpAddr cs = some ip) :
    (∃ v4, ip = .v4 v4 ∧ DottedQuad cs v4) ∨
      ∃ v6, ip = .v6 v6 ∧ readIpv6Addr cs = some (v6, []) := by
  obtain ⟨r, hr, hrest⟩ := Option.bind_eq_some_iff.mp h
  split_ifs at hrest with hnil
  obtain rfl := Option.some.inj hrest
  unfold readIpAddr at hr
  cases hquad : readIpv4Addr cs with
  | some q =>
    rw [hquad] at hr
    obtain rfl := Option.some.inj hr
    obtain ⟨text, hq, rfl⟩ := readIpv4Addr_takes hquad
    rw [show q.2 = [] from hnil, List.append_nil]
    exact .inl ⟨q.1, rfl, hq⟩
  | none =>
    rw [hquad] at hr
    obtain ⟨⟨v6, tl⟩, hq, rfl⟩ := Option.map_eq_some_iff.mp hr
    obtain rfl : tl = [] := hnil
    exact .inr ⟨v6, rfl, hq⟩

/-- Only text of an address parses, and none with a dot at its end. -/
theorem consumable_of_parseIpAddr {cs : List Char} {ip : IpAddr} (h : parseIpAddr cs = some ip) :
    Consumable cs := by
  rcases parseIpAddr_cases h with ⟨v4, -, hq⟩ | ⟨v6, -, hread⟩
  · exact hq.consumable
  · obtain ⟨used, hused, rfl⟩ := readIpv6Addr_takes hread
    rwa [List.append_nil]

theorem colon_mem_of_parseIpAddr {cs : List Char} {ip : Ipv6Addr}
    (h : parseIpAddr cs = some (.v6 ip)) : ':' ∈ cs := by
  rcases parseIpAddr_cases h with ⟨v4, hv4, -⟩ | ⟨v6, -, hread⟩
  · cases hv4
  · exact colon_mem_of_readIpv6Addr hread

end Consumed

/-! What the readers make of a text of the grammar. -/
section Complete

theorem takeWhile_dropWhile_append {p : Char → Bool} {ds rest : List Char}
    (hds : ∀ c ∈ ds, p c = true) (hrest : ∀ c ∈ rest.head?, p c = false) :
    (ds ++ rest).takeWhile p = ds ∧ (ds ++ rest).dropWhile p = rest := by
  rw [List.takeWhile_append_of_pos hds, List.dropWhile_append_of_pos hds]
  cases rest with
  | nil => exact ⟨List.append_nil ds, rfl⟩
  | cons c rest =>
    have hc : ¬ p c = true := by
      rw [hrest c rfl]
      exact Bool.false_ne_true
    rw [List.takeWhile_cons_of_neg hc, List.dropWhile_cons_of_neg hc, List.append_nil]
    exact ⟨rfl, rfl⟩

theorem readOctet_append {ds rest : List Char} (h : IsOctet ds)
    (hrest : ∀ c ∈ rest.head?, isDigitOf 10 c = false) :
    readOctet (ds ++ rest) = some (octet ds, rest) := by
  obtain ⟨htake, hdrop⟩ := takeWhile_dropWhile_append h.digits hrest
  obtain ⟨x, xs, hds⟩ := List.exists_cons_of_ne_nil h.ne_nil
  have hzero : ¬ ((!false && (ds ++ rest).head? = some '0' && 1 < ds.length) = true) := by
    intro hz
    have hz' : ds.head? = some '0' ∧ 1 < ds.length := by
      simpa [hds] using hz
    have hone := congrArg List.length (h.no_zero hz'.1)
    rw [List.length_singleton] at hone
    omega
  have hnumber : readNumber 10 3 false (ds ++ rest) = some (numeral 10 ds, rest) := by
    unfold readNumber
    dsimp only
    rw [htake, hdrop, if_neg (not_or.mpr ⟨h.ne_nil, Nat.not_lt.mpr h.length_le⟩),
      if_neg hzero]
  rw [readOctet, hnumber, Option.bind_some, if_pos h.lt]
  rfl

theorem readSeparator_separated {α : Type} {first : Bool}
    {inner : List Char → Option (α × List Char)} {cs : List Char} :
    readSeparator ':' first inner (separated first cs) = inner cs := by
  cases first with
  | true => rfl
  | false => simp [readSeparator, readGivenChar, separated]

theorem separated_append {first : Bool} {cs rest : List Char} :
    separated first cs ++ rest = separated first (cs ++ rest) := by
  cases first with
  | true => rfl
  | false => rfl

theorem dot_mem_separated {first : Bool} {cs : List Char} :
    '.' ∈ separated first cs ↔ '.' ∈ cs := by
  cases first with
  | true => exact Iff.rfl
  | false => exact List.mem_cons.trans (or_iff_right (by decide))

theorem readIpv4Addr_append {text rest : List Char} {ip : Ipv4Addr} (h : DottedQuad text ip)
    (hrest : ∀ c ∈ rest.head?, isDigitOf 10 c = false) :
    readIpv4Addr (text ++ rest) = some (ip, rest) := by
  obtain ⟨ha, hb, hc, hd⟩ := h
  rename_i a b c d
  have hdot (cs : List Char) : ∀ x ∈ ('.' :: cs).head?, isDigitOf 10 x = false := by
    intro x hx
    obtain rfl := Option.some.inj hx
    exact isDigitOf_dot (by decide)
  have htext : a ++ '.' :: b ++ '.' :: c ++ '.' :: d ++ rest =
      a ++ '.' :: (b ++ '.' :: (c ++ '.' :: (d ++ rest))) := by
    simp
  have hnext (cs : List Char) :
      readSeparator '.' false readOctet ('.' :: cs) = readOctet cs := by
    simp [readSeparator, readGivenChar]
  have hfirst (cs : List Char) : readSeparator '.' true readOctet cs = readOctet cs := rfl
  rw [htext, readIpv4Addr, hfirst, readOctet_append ha (hdot _), Option.bind_some, hnext,
    readOctet_append hb (hdot _), Option.bind_some, hnext, readOctet_append hc (hdot _),
    Option.bind_some, hnext, readOctet_append hd hrest, Option.map_some]

theorem readHextet_append {ds rest : List Char} (h : IsHextet ds)
    (hrest : ∀ c ∈ rest.head?, isDigitOf 16 c = false) :
    readHextet (ds ++ rest) = some (hextet ds, rest) := by
  obtain ⟨htake, hdrop⟩ := takeWhile_dropWhile_append h.digits hrest
  have hnumber : readNumber 16 4 true (ds ++ rest) = some (numeral 16 ds, rest) := by
    unfold readNumber
    dsimp only
    rw [htake, hdrop, if_neg (not_or.mpr ⟨h.ne_nil, Nat.not_lt.mpr h.length_le⟩),
      if_neg (by simp)]
  rw [readHextet, hnumber]
  rfl

/-- A group in hexadecimal is no dotted quad: a colon or the end comes before a dot. -/
theorem readIpv4Addr_hextet {ds rest : List Char} (hds : ∀ c ∈ ds, isDigitOf 16 c = true)
    (hrest : ∀ c ∈ rest.head?, c = ':') : readIpv4Addr (ds ++ rest) = none := by
  cases hread : readIpv4Addr (ds ++ rest) with
  | none => rfl
  | some r =>
    obtain ⟨ip, tl⟩ := r
    obtain ⟨text, ⟨ha, hb, hc, hd⟩, htext⟩ := readIpv4Addr_takes hread
    rename_i a b c d
    have hcut : ds ++ rest = a ++ '.' :: (b ++ '.' :: (c ++ '.' :: (d ++ tl))) := by
      simpa using htext
    have hcolon : ∀ x ∈ rest.head?, isDigitOf 16 x = false := by
      intro x hx
      rw [hrest x hx]
      exact isDigitOf_colon le_rfl
    have hdot : ∀ x ∈ ('.' :: (b ++ '.' :: (c ++ '.' :: (d ++ tl)))).head?,
        isDigitOf 16 x = false := by
      intro x hx
      obtain rfl := Option.some.inj hx
      exact isDigitOf_dot le_rfl
    have ha16 : ∀ x ∈ a, isDigitOf 16 x = true := fun x hx =>
      isDigitOf_mono (by decide) (ha.digits x hx)
    have hrest' : rest = '.' :: (b ++ '.' :: (c ++ '.' :: (d ++ tl))) := by
      rw [← (takeWhile_dropWhile_append hds hcolon).2, hcut,
        (takeWhile_dropWhile_append ha16 hdot).2]
    rw [hrest'] at hrest
    exact absurd (hrest '.' rfl) (by decide)

theorem Groups.head?_eq {cs : List Char} {gs : List UInt16} (h : Groups false cs gs) :
    ∀ c ∈ cs.head?, c = ':' := by
  intro c hc
  cases h with
  | nil => cases hc
  | quad => exact (Option.some.inj hc).symm
  | cons => exact (Option.some.inj hc).symm

theorem head?_append_colon {cs rest : List Char} (hcs : ∀ c ∈ cs.head?, c = ':')
    (hrest : ∀ c ∈ rest.head?, c = ':') : ∀ c ∈ (cs ++ rest).head?, c = ':' := by
  intro c hc
  cases cs with
  | nil => exact hrest c hc
  | cons x cs => exact hcs c hc

/-- Nothing, or two colons: no further group follows. -/
def EndsGroups (rest : List Char) : Prop := rest = [] ∨ ∃ tl, rest = ':' :: ':' :: tl

theorem EndsGroups.head?_eq {rest : List Char} (h : EndsGroups rest) :
    ∀ c ∈ rest.head?, c = ':' := by
  intro c hc
  rcases h with rfl | ⟨tl, rfl⟩
  · cases hc
  · exact (Option.some.inj hc).symm

theorem readGroups_stop {limit : ℕ} {first : Bool} {rest : List Char} (h : EndsGroups rest) :
    readGroups limit first rest = ⟨[], false, rest⟩ := by
  have hquad : readSeparator ':' first readIpv4Addr rest = none := by
    rcases h with rfl | ⟨tl, rfl⟩ <;> cases first <;> rfl
  have hhex : readSeparator ':' first readHextet rest = none := by
    rcases h with rfl | ⟨tl, rfl⟩ <;> cases first <;> rfl
  cases limit with
  | zero => rfl
  | succ limit =>
    rw [readGroups, hquad, ite_self]
    dsimp only
    rw [hhex]

theorem DottedQuad.dot_mem {cs : List Char} {ip : Ipv4Addr} (h : DottedQuad cs ip) : '.' ∈ cs := by
  obtain ⟨ha, hb, hc, hd⟩ := h
  simp

theorem IsHextet.dot_not_mem {ds : List Char} (h : IsHextet ds) : '.' ∉ ds := by
  intro hdot
  have hdigit := h.digits '.' hdot
  rw [isDigitOf_dot le_rfl] at hdigit
  cases hdigit

/-- The groups of a text are read as they stand, and a dot says that a quad is among them. -/
theorem readGroups_append {first : Bool} {cs rest : List Char} {gs : List UInt16}
    (h : Groups first cs gs) (hrest : EndsGroups rest) {limit : ℕ} (hlimit : gs.length ≤ limit) :
    readGroups limit first (cs ++ rest) = ⟨gs, decide ('.' ∈ cs), rest⟩ := by
  have hnot (r : ℕ) (hr : r ≤ 16) (tl : List Char) (htl : ∀ c ∈ tl.head?, c = ':') :
      ∀ c ∈ tl.head?, isDigitOf r c = false := by
    intro c hc
    rw [htl c hc]
    exact isDigitOf_colon hr
  induction h generalizing limit with
  | nil => exact readGroups_stop hrest
  | @quad first cs ip hq =>
    rw [List.length_cons, List.length_singleton] at hlimit
    obtain ⟨limit, rfl⟩ : ∃ n, limit = n + 1 := ⟨limit - 1, by omega⟩
    have hread : readSeparator ':' first readIpv4Addr (separated first cs ++ rest) =
        some (ip, rest) := by
      rw [separated_append, readSeparator_separated]
      exact readIpv4Addr_append hq (hnot 10 (by decide) rest hrest.head?_eq)
    have hmem : '.' ∈ separated first cs := dot_mem_separated.mpr hq.dot_mem
    rw [readGroups, if_pos (by omega), hread]
    simp [hmem]
  | @cons first ds cs gs hd hg ih =>
    rw [List.length_cons] at hlimit
    obtain ⟨limit, rfl⟩ : ∃ n, limit = n + 1 := ⟨limit - 1, by omega⟩
    have htl := head?_append_colon hg.head?_eq hrest.head?_eq
    have hquad : readSeparator ':' first readIpv4Addr (separated first (ds ++ cs) ++ rest) =
        none := by
      rw [separated_append, readSeparator_separated, List.append_assoc]
      exact readIpv4Addr_hextet hd.digits htl
    have hread : readSeparator ':' first readHextet (separated first (ds ++ cs) ++ rest) =
        some (hextet ds, cs ++ rest) := by
      rw [separated_append, readSeparator_separated, List.append_assoc]
      exact readHextet_append hd (hnot 16 le_rfl _ htl)
    have hmem : '.' ∈ separated first (ds ++ cs) ↔ '.' ∈ cs := by
      rw [dot_mem_separated, List.mem_append]
      exact or_iff_right hd.dot_not_mem
    rw [readGroups, hquad, ite_self]
    dsimp only
    rw [hread]
    dsimp only
    rw [ih (by omega)]
    simp [hmem]

/-- An address in its text representation is read back, whatever groups it leaves out. -/
theorem readIpv6Addr_text {cs : List Char} {ip : Ipv6Addr} (h : Ipv6Text cs ip) :
    readIpv6Addr cs = some (ip, []) := by
  cases h with
  | @full cs gs hg hlen =>
    have hread : readGroups 8 true (cs ++ []) = ⟨gs, decide ('.' ∈ cs), []⟩ :=
      readGroups_append hg (.inl rfl) (Nat.le_of_eq hlen)
    rw [List.append_nil] at hread
    rw [readIpv6Addr, hread]
    exact if_pos hlen
  | @compressed front back gs hs hf hdot hb hlen =>
    have hread : readGroups 8 true (front ++ ':' :: ':' :: back) =
        ⟨gs, decide ('.' ∈ front), ':' :: ':' :: back⟩ :=
      readGroups_append hf (.inr ⟨back, rfl⟩) (by omega)
    have hback : readGroups (8 - (gs.length + 1)) true (back ++ []) =
        ⟨hs, decide ('.' ∈ back), []⟩ :=
      readGroups_append hb (.inl rfl) (by omega)
    rw [List.append_nil] at hback
    rw [readIpv6Addr, hread]
    dsimp only
    rw [if_neg (by omega), decide_eq_false hdot, if_neg Bool.false_ne_true,
      readGivenChar_eq_some.mpr rfl, Option.bind_some, readGivenChar_eq_some.mpr rfl,
      Option.map_some, hback]

theorem readIpv4Addr_groups {cs rest : List Char} {gs : List UInt16} (h : Groups true cs gs)
    (hquad : gs.length ≠ 2 ∨ '.' ∉ cs) (hrest : ∀ c ∈ rest.head?, c = ':') :
    readIpv4Addr (cs ++ rest) = none := by
  cases h with
  | nil => exact @readIpv4Addr_hextet [] rest (fun c hc => absurd hc List.not_mem_nil) hrest
  | quad hq =>
    rcases hquad with hlen | hdot
    · exact absurd rfl hlen
    · exact absurd (dot_mem_separated.mpr hq.dot_mem) hdot
  | cons hd hg =>
    rw [separated_append, List.append_assoc]
    exact readIpv4Addr_hextet hd.digits (head?_append_colon hg.head?_eq hrest)

theorem parseIpAddr_ipv6 {cs : List Char} {ip : Ipv6Addr} (h : Ipv6Text cs ip) :
    parseIpAddr cs = some (.v6 ip) := by
  have hquad : readIpv4Addr cs = none := by
    cases h with
    | full hg hlen =>
      rw [← List.append_nil cs]
      exact readIpv4Addr_groups hg (.inl (by omega)) (fun c hc => nomatch hc)
    | @compressed front back gs hs hf hdot hb hlen =>
      exact readIpv4Addr_groups hf (.inr hdot) (EndsGroups.head?_eq (.inr ⟨back, rfl⟩))
  rw [parseIpAddr, readIpAddr, hquad]
  dsimp only
  rw [readIpv6Addr_text h]
  rfl

theorem atonPart_octet {ds : List Char} (h : IsOctet ds) : atonPart ds = some (numeral 10 ds) := by
  have hten : digits? 10 ds = some (numeral 10 ds) := 
    if_pos ⟨h.ne_nil, List.all_eq_true.mpr h.digits⟩
  unfold atonPart
  split
  · exact absurd (h.no_zero rfl) (by simp)
  · exact absurd (h.no_zero rfl) (by simp)
  · exact absurd (h.no_zero rfl) (by simp)
  · exact hten

theorem toNat_octet {ds : List Char} (h : IsOctet ds) : (octet ds).toNat = numeral 10 ds :=
  UInt8.toNat_ofNat_of_lt' h.lt

theorem IsOctet.dot_not_mem {ds : List Char} (h : IsOctet ds) : '.' ∉ ds := by
  intro hdot
  have hdigit := h.digits '.' hdot
  rw [isDigitOf_dot (by decide)] at hdigit
  cases hdigit

theorem inetAton_dottedQuad {cs : List Char} {ip : Ipv4Addr} (h : DottedQuad cs ip) :
    inetAton cs = some ip.value := by
  obtain ⟨ha, hb, hc, hd⟩ := h
  rename_i a b c d
  have hsplit : (a ++ '.' :: b ++ '.' :: c ++ '.' :: d).splitOn '.' = [a, b, c, d] := by
    rw [List.append_assoc, List.append_assoc, List.cons_append, List.cons_append,
      List.splitOn_append_cons_self_of_not_mem ha.dot_not_mem,
      List.splitOn_append_cons_self_of_not_mem hb.dot_not_mem,
      List.splitOn_append_cons_self_of_not_mem hc.dot_not_mem,
      List.splitOn_eq_singleton hd.dot_not_mem]
  have hparts : [a, b, c, d].mapM atonPart =
      some [numeral 10 a, numeral 10 b, numeral 10 c, numeral 10 d] := by
    simp [atonPart_octet, ha, hb, hc, hd]
  rw [inetAton, hsplit, hparts, Option.bind_some, joinParts,
    if_pos ⟨ha.lt, hb.lt, hc.lt, hd.lt⟩, Ipv4Addr.value, toNat_octet ha, toNat_octet hb,
    toNat_octet hc, toNat_octet hd]
  refine congrArg some ?_
  omega

/-- What parses as IPv4 is the address that `inet_aton` reads there. -/
theorem inetAton_of_parseIpAddr {cs : List Char} {ip : Ipv4Addr}
    (h : parseIpAddr cs = some (.v4 ip)) : inetAton cs = some ip.value := by
  rcases parseIpAddr_cases h with ⟨v4, hv4, hq⟩ | ⟨v6, hv6, -⟩
  · obtain rfl := IpAddr.v4.inj hv4
    exact inetAton_dottedQuad hq
  · cases hv6

end Complete
end Dmtap.Lib.Inet
