import Dmtap.Lib.Bytes

/-! Base64 with padding. The decoder drops white space and padding wherever they stand. -/
namespace Dmtap.Mail
open Lib

def base64Alphabet : List Char :=
  "ABCDEFGHIJKLMNOPQRSTUVWXYZabcdefghijklmnopqrstuvwxyz0123456789+/".toList

def base64Char (n : ℕ) : Char := base64Alphabet.getD (n % 64) '='

def base64Chars : Bytes → List Char
  | [] => []
  | [b₀] =>
    let n := b₀.toNat * 65536
    [base64Char (n / 2 ^ 18), base64Char (n / 2 ^ 12), '=', '=']
  | [b₀, b₁] =>
    let n := b₀.toNat * 65536 + b₁.toNat * 256
    [base64Char (n / 2 ^ 18), base64Char (n / 2 ^ 12), base64Char (n / 2 ^ 6), '=']
  | b₀ :: b₁ :: b₂ :: rest =>
    let n := b₀.toNat * 65536 + b₁.toNat * 256 + b₂.toNat
    base64Char (n / 2 ^ 18) :: base64Char (n / 2 ^ 12) :: base64Char (n / 2 ^ 6) ::
      base64Char n :: base64Chars rest

def base64Encode (input : Bytes) : String := String.ofList (base64Chars input)

def base64Value (c : UInt8) : Option ℕ :=
  if 65 ≤ c && c ≤ 90 then some (c.toNat - 65)
  else if 97 ≤ c && c ≤ 122 then some (c.toNat - 97 + 26)
  else if 48 ≤ c && c ≤ 57 then some (c.toNat - 48 + 52)
  else if c = 43 then some 62
  else if c = 47 then some 63
  else none

def isAsciiWhitespace (c : UInt8) : Bool :=
  c == 0x20 || c == 0x09 || c == 0x0A || c == 0x0C || c == 0x0D

/-- The decoder's loop: `bits` is a 32-bit register of which `nbits` bits are not yet written. -/
def base64Loop (bits nbits : ℕ) : Bytes → Option Bytes
  | [] => some []
  | c :: input =>
    if c = 61 || isAsciiWhitespace c then base64Loop bits nbits input
    else
      match base64Value c with
      | none => none
      | some v =>
        let bits := (bits * 64 + v) % 2 ^ 32
        let nbits := nbits + 6
        if 8 ≤ nbits then
          (base64Loop bits (nbits - 8) input).map fun out =>
            UInt8.ofNat (bits / 2 ^ (nbits - 8)) :: out
        else base64Loop bits nbits input

def base64Decode (input : String) : Option Bytes := base64Loop 0 0 (utf8 input)

theorem utf8_ofList (cs : List Char) :
    utf8 (String.ofList cs) = cs.flatMap String.utf8EncodeChar := by
  simp [utf8, String.ofList, List.utf8Encode]

private theorem base64Char_bytes : ∀ n < 64, (String.utf8EncodeChar (base64Char n)).map
    (fun c => ((c = 61 || isAsciiWhitespace c : Bool), base64Value c)) = [(false, some n)] := by
  decide +kernel

/-- One character of the alphabet shifts six bits in. -/
theorem base64Loop_char (bits nbits n : ℕ) (cs : List Char) :
    base64Loop bits nbits ((base64Char n :: cs).flatMap String.utf8EncodeChar) =
      let bits := (bits * 64 + n % 64) % 2 ^ 32
      let nbits := nbits + 6
      if 8 ≤ nbits then
        (base64Loop bits (nbits - 8) (cs.flatMap String.utf8EncodeChar)).map fun out =>
          UInt8.ofNat (bits / 2 ^ (nbits - 8)) :: out
      else base64Loop bits nbits (cs.flatMap String.utf8EncodeChar) := by
  have hmod : base64Char n = base64Char (n % 64) := by simp [base64Char]
  have hbytes := base64Char_bytes (n % 64) (Nat.mod_lt n (by omega))
  obtain ⟨c, hc, hread⟩ := List.map_eq_singleton_iff.mp hbytes
  obtain ⟨hskip, hvalue⟩ := Prod.mk.inj hread
  rw [List.flatMap_cons, hmod, hc, List.singleton_append, base64Loop, hskip, hvalue]
  rfl

theorem base64Loop_padding (bits nbits : ℕ) (cs : List Char) :
    base64Loop bits nbits (('=' :: cs).flatMap String.utf8EncodeChar) =
      base64Loop bits nbits (cs.flatMap String.utf8EncodeChar) := by
  have hpad : String.utf8EncodeChar '=' = [61] := by decide
  rw [List.flatMap_cons, hpad, List.singleton_append, base64Loop]
  simp

private theorem ofNat_eq_of_mod {n : ℕ} {b : UInt8} (h : n % 256 = b.toNat) :
    UInt8.ofNat n = b := by
  apply UInt8.toNat_inj.mp
  rw [UInt8.toNat_ofNat']
  exact h

/-- Whatever the register held, decoding what the encoder wrote gives the bytes back. -/
theorem base64Loop_base64Chars (b : Bytes) (bits : ℕ) :
    base64Loop bits 0 ((base64Chars b).flatMap String.utf8EncodeChar) = some b := by
  induction b using base64Chars.induct generalizing bits with
  | case1 => rfl
  | case2 b₀ =>
    have h₀ := b₀.toNat_lt
    simp only [base64Chars, base64Loop_char, base64Loop_padding]
    simp only [List.flatMap_nil, base64Loop, Nat.reduceAdd, Nat.reduceLeDiff, Nat.reduceSub,
      ↓reduceIte, Option.map_some, Option.some.injEq, List.cons.injEq, and_true]
    apply ofNat_eq_of_mod
    omega
  | case3 b₀ b₁ =>
    have h₀ := b₀.toNat_lt
    have h₁ := b₁.toNat_lt
    simp only [base64Chars, base64Loop_char, base64Loop_padding]
    simp only [List.flatMap_nil, base64Loop, Nat.reduceAdd, Nat.reduceLeDiff, Nat.reduceSub,
      ↓reduceIte, Option.map_some, Option.some.injEq, List.cons.injEq, and_true]
    constructor
    · apply ofNat_eq_of_mod
      omega
    · apply ofNat_eq_of_mod
      omega
  | case4 b₀ b₁ b₂ rest ih =>
    have h₀ := b₀.toNat_lt
    have h₁ := b₁.toNat_lt
    have h₂ := b₂.toNat_lt
    simp only [base64Chars, base64Loop_char]
    simp only [Nat.reduceAdd, Nat.reduceLeDiff, Nat.reduceSub, ↓reduceIte, ih, Option.map_some,
      Option.some.injEq, List.cons.injEq, and_true]
    refine ⟨?_, ?_, ?_⟩
    · apply ofNat_eq_of_mod
      omega
    · apply ofNat_eq_of_mod
      omega
    · apply ofNat_eq_of_mod
      omega

theorem base64Decode_base64Encode (b : Bytes) : base64Decode (base64Encode b) = some b := by
  unfold base64Decode base64Encode
  rw [utf8_ofList]
  exact base64Loop_base64Chars b 0

end Dmtap.Mail
