import Dmtap.Lib.AsciiCode
import Dmtap.Mail.Base64
import Dmtap.Mail.Text

/-! ASCII text takes a byte for each character, and so do numbers written out. -/
namespace Dmtap.Mail
open Lib

def asciiByte (c : Char) : UInt8 := UInt8.ofNat c.toNat

theorem utf8_ascii {cs : List Char} (h : ∀ c ∈ cs, c.toNat < 128) :
    utf8 (String.ofList cs) = cs.map asciiByte := by
  rw [utf8_ofList]
  induction cs with
  | nil => rfl
  | cons c cs ih =>
    rw [List.flatMap_cons, keepsAscii_utf8.ascii c (h c List.mem_cons_self),
      ih fun d hd => h d (List.mem_cons_of_mem c hd)]
    rfl

theorem toNat_asciiByte {c : Char} (h : c.toNat < 128) : (asciiByte c).toNat = c.toNat := by
  unfold asciiByte
  rw [UInt8.toNat_ofNat']
  omega

theorem utf8_toList (s : String) : utf8 s = s.toList.flatMap String.utf8EncodeChar := by
  rw [← utf8_ofList, String.ofList_toList]

theorem utf8_append (s t : String) : utf8 (s ++ t) = utf8 s ++ utf8 t := by
  rw [utf8_toList, utf8_toList, utf8_toList, String.toList_append, List.flatMap_append]

theorem lossyChars_utf8 (cs : List Char) {fuel : ℕ}
    (hfuel : (cs.flatMap String.utf8EncodeChar).length ≤ fuel) :
    lossyChars fuel (cs.flatMap String.utf8EncodeChar) = cs := by
  induction cs generalizing fuel with
  | nil => cases fuel <;> rfl
  | cons c cs ih =>
    obtain ⟨b, bs, hbytes, hfirst⟩ :=
      decodeLossy_utf8EncodeChar c (cs.flatMap String.utf8EncodeChar)
    rw [List.flatMap_cons, hbytes] at hfuel ⊢
    cases fuel with
    | zero => exact absurd hfuel (Nat.not_succ_le_zero _)
    | succ fuel =>
      have hrest : (cs.flatMap String.utf8EncodeChar).length ≤ fuel := by
        simp only [List.cons_append, List.length_cons, List.length_append] at hfuel
        omega
      rw [List.cons_append, lossyChars]
      rw [hfirst, Nat.add_sub_cancel, List.drop_left, ih hrest]

/-- The lossy reading of a text is the text. -/
theorem fromUtf8Lossy_utf8 (s : String) : fromUtf8Lossy (utf8 s) = s := by
  rw [fromUtf8Lossy, utf8_toList, lossyChars_utf8 _ (Nat.le_refl _), String.ofList_toList]

section Numbers

theorem toList_toString (n : ℕ) : (toString n).toList = Nat.toDigits 10 n := by
  simp

theorem toNat_of_isDigit {c : Char} (h : c.isDigit = true) : 48 ≤ c.toNat ∧ c.toNat ≤ 57 := by
  simp only [Char.isDigit, Bool.and_eq_true, decide_eq_true_eq] at h
  exact ⟨UInt32.le_iff_toNat_le.mp h.1, UInt32.le_iff_toNat_le.mp h.2⟩

theorem digit_ne {c : Char} (h : c.isDigit = true) :
    isWhitespace c = false ∧ c ≠ '"' ∧ c ≠ ' ' ∧ c ≠ '-' ∧ c ≠ ':' := by
  obtain ⟨hlo, hhi⟩ := toNat_of_isDigit h
  refine ⟨?_, ?_, ?_, ?_, ?_⟩
  · simp only [isWhitespace, Bool.or_eq_false_iff, Bool.and_eq_false_iff, decide_eq_false_iff_not,
      beq_eq_false_iff_ne]
    omega
  all_goals
    rintro rfl
    revert hlo hhi
    decide

theorem isDigit_of_mem_toDigits {n : ℕ} {c : Char} (h : c ∈ Nat.toDigits 10 n) :
    c.isDigit = true :=
  Nat.isDigit_of_mem_toDigits (by decide) (by decide) h

theorem notMem_toDigits {c : Char} (hc : c.isDigit = false) (n : ℕ) : c ∉ Nat.toDigits 10 n := by
  intro hmem
  rw [isDigit_of_mem_toDigits hmem] at hc
  cases hc

theorem utf8_toString (n : ℕ) : utf8 (toString n) = (Nat.toDigits 10 n).map asciiByte := by
  rw [← String.ofList_toList (s := toString n), toList_toString]
  refine utf8_ascii fun c hc => ?_
  have hdigit := toNat_of_isDigit (isDigit_of_mem_toDigits hc)
  omega

theorem foldl_toDigits (n : ℕ) :
    (Nat.toDigits 10 n).foldl (fun n c => n * 10 + (c.toNat - 48)) 0 = n := by
  have hstep : (fun (n : ℕ) (c : Char) => n * 10 + (c.toNat - 48)) =
      fun sofar c => 10 * sofar + (c.toNat - '0'.toNat) := by
    funext n c
    rw [Nat.mul_comm]
    rfl
  rw [hstep, ← Nat.ofDigitChars_eq_foldl, Nat.ofDigitChars_ten_toDigits]

theorem toDigits_injective : Function.Injective (Nat.toDigits 10) := by
  intro m n h
  rw [← foldl_toDigits m, h, foldl_toDigits]

theorem parseUnsigned_toString {bound n : ℕ} (h : n < bound) :
    parseUnsigned bound (toString n) = some n := by
  have hall : (Nat.toDigits 10 n).all Char.isDigit = true :=
    List.all_eq_true.mpr fun c hc => isDigit_of_mem_toDigits hc
  have hvalue := foldl_toDigits n
  unfold parseUnsigned
  rw [toList_toString]
  split
  next cs heq =>
    rw [heq] at hall
    exact absurd (List.all_eq_true.mp hall '+' List.mem_cons_self) (by decide)
  next cs =>
    dsimp only
    rw [hvalue, hall]
    cases hdigits : Nat.toDigits 10 n with
    | nil => exact absurd hdigits Nat.toDigits_ne_nil
    | cons c cs => exact if_pos h

end Numbers

end Dmtap.Mail
