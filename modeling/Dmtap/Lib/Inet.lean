import Mathlib.Data.List.TakeWhile
import Mathlib.Tactic.NormNum
import Dmtap.Lib.AsciiCode

/-! Internet addresses, and the texts that stand for them: the forms that `inet_aton` reads, and the
text representation of IPv6. -/
namespace Dmtap.Lib.Inet

structure Ipv4Addr where
  a : UInt8
  b : UInt8
  c : UInt8
  d : UInt8
  deriving DecidableEq

def Ipv4Addr.value (ip : Ipv4Addr) : ℕ :=
  ((ip.a.toNat * 256 + ip.b.toNat) * 256 + ip.c.toNat) * 256 + ip.d.toNat

/-- Eight groups of 16 bits. -/
structure Ipv6Addr where
  segments : List UInt16
  length_segments : segments.length = 8
  deriving DecidableEq

def Ipv6Addr.value (ip : Ipv6Addr) : ℕ := ip.segments.foldl (fun n s => n * 65536 + s.toNat) 0

/-- The groups at the front and at the back, with zeros between them. -/
def Ipv6Addr.ofGroups (front back : List UInt16) : Ipv6Addr where
  segments := (front ++ List.replicate (8 - front.length - back.length) 0 ++ back).take 8
  length_segments := by
    rw [List.length_take, List.length_append, List.length_append, List.length_replicate]
    omega

/-! The predicates of the standard library. -/
section Predicates

def Ipv4Addr.isLoopback (ip : Ipv4Addr) : Bool := ip.a = 127

def Ipv4Addr.isPrivate (ip : Ipv4Addr) : Bool :=
  ip.a = 10 ∨ ip.a = 172 ∧ 16 ≤ ip.b ∧ ip.b ≤ 31 ∨ ip.a = 192 ∧ ip.b = 168

def Ipv4Addr.isLinkLocal (ip : Ipv4Addr) : Bool := ip.a = 169 ∧ ip.b = 254

def Ipv4Addr.isUnspecified (ip : Ipv4Addr) : Bool := ip = ⟨0, 0, 0, 0⟩

def Ipv4Addr.isBroadcast (ip : Ipv4Addr) : Bool := ip = ⟨255, 255, 255, 255⟩

/-- The group at an index below eight. -/
def Ipv6Addr.segment (ip : Ipv6Addr) (i : ℕ) : UInt16 := ip.segments.getD i 0

def Ipv6Addr.isLoopback (ip : Ipv6Addr) : Bool := ip.segments = [0, 0, 0, 0, 0, 0, 0, 1]

def Ipv6Addr.isUnspecified (ip : Ipv6Addr) : Bool := ip.segments = [0, 0, 0, 0, 0, 0, 0, 0]

def highByte (w : UInt16) : UInt8 := UInt8.ofNat (w.toNat / 256)

def lowByte (w : UInt16) : UInt8 := UInt8.ofNat (w.toNat % 256)

/-- The address that an IPv4-compatible or IPv4-mapped one embeds. -/
def Ipv6Addr.toIpv4 (ip : Ipv6Addr) : Option Ipv4Addr :=
  if ip.segments.take 5 = [0, 0, 0, 0, 0] ∧ (ip.segment 5 = 0 ∨ ip.segment 5 = 0xffff) then
    some ⟨highByte (ip.segment 6), lowByte (ip.segment 6), highByte (ip.segment 7),
      lowByte (ip.segment 7)⟩
  else none

end Predicates

section Numerals

/-- A hexadecimal digit's value, and 16 where there is none. -/
def digitValue (c : Char) : ℕ :=
  if '0' ≤ c ∧ c ≤ '9' then c.toNat - '0'.toNat
  else if 'a' ≤ c ∧ c ≤ 'f' then c.toNat - 'a'.toNat + 10
  else if 'A' ≤ c ∧ c ≤ 'F' then c.toNat - 'A'.toNat + 10
  else 16

def isDigitOf (radix : ℕ) (c : Char) : Bool := digitValue c < radix

def numeral (radix : ℕ) (ds : List Char) : ℕ := ds.foldl (fun n c => n * radix + digitValue c) 0

theorem isDigitOf_mono {r s : ℕ} (hrs : r ≤ s) {c : Char} (h : isDigitOf r c = true) :
    isDigitOf s c = true := by
  rw [isDigitOf, decide_eq_true_eq] at h ⊢
  omega

theorem isDigitOf_ten_iff {c : Char} : isDigitOf 10 c = true ↔ c.isDigit = true := by
  have hdigit : c.isDigit = true ↔ '0' ≤ c ∧ c ≤ '9' := by
    rw [Char.isDigit, Bool.and_eq_true, decide_eq_true_eq, decide_eq_true_eq]
    rfl
  rw [isDigitOf, decide_eq_true_eq, hdigit, digitValue]
  constructor
  · intro h
    split_ifs at h with h₀
    · exact h₀
    all_goals omega
  · intro h
    rw [if_pos h]
    have hle : c.toNat ≤ '9'.toNat := h.2
    have hnine : '9'.toNat = 57 := rfl
    have hzero : '0'.toNat = 48 := rfl
    omega

end Numerals

section InetAton

def digits? (radix : ℕ) (ds : List Char) : Option ℕ :=
  if ds ≠ [] ∧ ds.all (isDigitOf radix) = true then some (numeral radix ds) else none

/-- One part: hexadecimal behind `0x`, octal behind `0`, else decimal. -/
def atonPart : List Char → Option ℕ
  | '0' :: 'x' :: ds => digits? 16 ds
  | '0' :: 'X' :: ds => digits? 16 ds
  | '0' :: d :: ds => digits? 8 (d :: ds)
  | ds => digits? 10 ds

/-- The last part fills the bytes that the parts in front of it leave. -/
def joinParts : List ℕ → Option ℕ
  | [d] => if d < 2 ^ 32 then some d else none
  | [a, d] => if a < 2 ^ 8 ∧ d < 2 ^ 24 then some (a * 2 ^ 24 + d) else none
  | [a, b, d] =>
    if a < 2 ^ 8 ∧ b < 2 ^ 8 ∧ d < 2 ^ 16 then some (a * 2 ^ 24 + b * 2 ^ 16 + d) else none
  | [a, b, c, d] =>
    if a < 2 ^ 8 ∧ b < 2 ^ 8 ∧ c < 2 ^ 8 ∧ d < 2 ^ 8 then
      some (a * 2 ^ 24 + b * 2 ^ 16 + c * 2 ^ 8 + d)
    else none
  | _ => none

/-- The address a numeric text stands for, of one to four parts. -/
def inetAton (cs : List Char) : Option ℕ :=
  ((cs.splitOn '.').mapM atonPart).bind joinParts

theorem exists_of_mapM_eq_some {α β : Type} {f : α → Option β} {l : List α} {r : List β}
    (h : l.mapM f = some r) : ∀ x ∈ l, ∃ y, f x = some y := by
  induction l generalizing r with
  | nil => exact fun x hx => absurd hx List.not_mem_nil
  | cons a l ih =>
    rw [List.mapM_cons] at h
    obtain ⟨b, hb, h⟩ := Option.bind_eq_some_iff.mp h
    obtain ⟨bs, hbs, -⟩ := Option.bind_eq_some_iff.mp h
    intro x hx
    rcases List.mem_cons.mp hx with rfl | hx
    · exact ⟨b, hb⟩
    · exact ih hbs x hx

end InetAton

section Ipv6Text

structure IsHextet (ds : List Char) : Prop where
  ne_nil : ds ≠ []
  length_le : ds.length ≤ 4
  digits : ∀ c ∈ ds, isDigitOf 16 c = true

/-- A decimal number below 256, without zeros in front. -/
structure IsOctet (ds : List Char) : Prop where
  ne_nil : ds ≠ []
  length_le : ds.length ≤ 3
  digits : ∀ c ∈ ds, isDigitOf 10 c = true
  no_zero : ds.head? = some '0' → ds = ['0']
  lt : numeral 10 ds < 256

def octet (ds : List Char) : UInt8 := UInt8.ofNat (numeral 10 ds)

def hextet (ds : List Char) : UInt16 := UInt16.ofNat (numeral 16 ds)

def pair (hi lo : UInt8) : UInt16 := UInt16.ofNat (hi.toNat * 256 + lo.toNat)

inductive DottedQuad : List Char → Ipv4Addr → Prop
  | mk {a b c d : List Char} (ha : IsOctet a) (hb : IsOctet b) (hc : IsOctet c) (hd : IsOctet d) :
      DottedQuad (a ++ '.' :: b ++ '.' :: c ++ '.' :: d) ⟨octet a, octet b, octet c, octet d⟩

/-- A colon in front of all but the first group. -/
def separated (first : Bool) (cs : List Char) : List Char := if first then cs else ':' :: cs

/-- Groups between colons, of which the last two may be in dotted decimal. -/
inductive Groups : Bool → List Char → List UInt16 → Prop
  | nil {first : Bool} : Groups first [] []
  | quad {first : Bool} {cs : List Char} {ip : Ipv4Addr} (hq : DottedQuad cs ip) :
      Groups first (separated first cs) [pair ip.a ip.b, pair ip.c ip.d]
  | cons {first : Bool} {ds cs : List Char} {gs : List UInt16} (hd : IsHextet ds)
      (hg : Groups false cs gs) : Groups first (separated first (ds ++ cs)) (hextet ds :: gs)

inductive Ipv6Text : List Char → Ipv6Addr → Prop
  | full {cs : List Char} {gs : List UInt16} (hg : Groups true cs gs) (hlen : gs.length = 8) :
      Ipv6Text cs (.ofGroups gs [])
  | compressed {front back : List Char} {gs hs : List UInt16} (hf : Groups true front gs)
      (hdot : '.' ∉ front) (hb : Groups true back hs) (hlen : gs.length + hs.length ≤ 7) :
      Ipv6Text (front ++ ':' :: ':' :: back) (.ofGroups gs hs)

end Ipv6Text

example : inetAton "0177.1".toList = some (127 * 2 ^ 24 + 1) := by decide

end Dmtap.Lib.Inet
