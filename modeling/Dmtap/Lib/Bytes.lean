import Mathlib.Data.List.Sort
import Mathlib.Data.List.Induction
import Mathlib.Tactic.Ring

/-! Byte strings, fixed-width big-endian words and UTF-8 text. -/
namespace Dmtap.Lib

abbrev Bytes := List UInt8

instance : LawfulBEq Bytes := inferInstance

instance : Std.LawfulOrderLT Bytes := inferInstance

/-- The `w` low bytes of `n`, most significant byte first. -/
def toBe : ℕ → ℕ → Bytes
  | 0, _ => []
  | w + 1, n => toBe w (n / 256) ++ [UInt8.ofNat n]

/-- The number a byte string spells, most significant byte first. -/
def ofBe (b : Bytes) : ℕ := b.foldl (fun n x => n * 256 + x.toNat) 0

@[simp] theorem length_toBe (w n : ℕ) : (toBe w n).length = w := by
  induction w generalizing n with
  | zero => rfl
  | succ w ih => simp [toBe, ih]

@[simp] theorem ofBe_nil : ofBe [] = 0 := rfl

@[simp] theorem ofBe_append_singleton (b : Bytes) (x : UInt8) :
    ofBe (b ++ [x]) = ofBe b * 256 + x.toNat := by
  simp [ofBe]

theorem ofBe_lt (b : Bytes) : ofBe b < 256 ^ b.length := by
  induction b using List.reverseRecOn with
  | nil => simp
  | append_singleton b x ih =>
    have hx := x.toNat_lt
    rw [ofBe_append_singleton, List.length_append, List.length_singleton, pow_succ]
    omega

theorem ofBe_toBe (w n : ℕ) (h : n < 256 ^ w) : ofBe (toBe w n) = n := by
  induction w generalizing n with
  | zero => simp_all [toBe]
  | succ w ih =>
    have hd : n / 256 < 256 ^ w := by
      rw [pow_succ] at h
      omega
    rw [toBe, ofBe_append_singleton, ih _ hd, UInt8.toNat_ofNat']
    omega

theorem toBe_ofBe (b : Bytes) : toBe b.length (ofBe b) = b := by
  induction b using List.reverseRecOn with
  | nil => rfl
  | append_singleton b x ih =>
    have hx := x.toNat_lt
    have hd : (ofBe b * 256 + x.toNat) / 256 = ofBe b := by omega
    have hm : UInt8.ofNat (ofBe b * 256 + x.toNat) = x := by
      apply UInt8.toNat_inj.mp
      rw [UInt8.toNat_ofNat']
      omega
    rw [List.length_append, List.length_singleton, toBe, ofBe_append_singleton, hd, hm, ih]

/-- The sum of the bytes and of their number: a measure that appending adds up. -/
def weight (b : Bytes) : ℕ := (b.map (fun x => x.toNat + 1)).sum

@[simp] theorem weight_append (a b : Bytes) : weight (a ++ b) = weight a + weight b := by
  simp [weight]

theorem weight_flatMap {α : Type} (l : List α) (f : α → Bytes) :
    weight (l.flatMap f) = (l.map (fun x => weight (f x))).sum := by
  induction l with
  | nil => rfl
  | cons x l ih => simp [ih]

theorem forall_getD {α : Type} {P : α → Prop} {l : List α} {d : α} (h : ∀ x ∈ l, P x) (hd : P d)
    (n : ℕ) : P (l.getD n d) := by
  rw [List.getD_eq_getElem?_getD]
  cases hn : l[n]? with
  | none => exact hd
  | some x => exact h x (List.mem_of_getElem? hn)

theorem getD_ne {α : Type} {l : List α} {d a : α} (h : a ∉ l) (hd : d ≠ a) (n : ℕ) :
    l.getD n d ≠ a :=
  forall_getD (P := (· ≠ a)) (fun _ hx heq => h (heq ▸ hx)) hd n

/-- The first `x` of a text lies in its front part, or that part has none. -/
theorem split_first_cases {α : Type} {x : α} {buf later line rest : List α} (hline : x ∉ line)
    (h : buf ++ later = line ++ x :: rest) :
    (∃ more, buf = line ++ x :: more ∧ rest = more ++ later) ∨
      x ∉ buf ∧ ∃ more, line = buf ++ more ∧ later = more ++ x :: rest := by
  obtain ⟨more, rfl, hlater⟩ | ⟨more, hbuf, hrest⟩ := List.append_eq_append_iff.mp h
  · exact Or.inr ⟨fun hmem => hline (List.mem_append_left _ hmem), more, rfl, hlater⟩
  · cases more with
    | nil =>
      rw [List.append_nil] at hbuf
      rw [hbuf]
      exact Or.inr ⟨hline, [], (List.append_nil _).symm, hrest.symm⟩
    | cons c more =>
      obtain ⟨rfl, rfl⟩ := List.cons.inj hrest
      exact Or.inl ⟨more, hbuf, rfl⟩

/-- The UTF-8 bytes of a string. -/
def utf8 (s : String) : Bytes := s.toByteArray.data.toList

/-- Strict UTF-8 validation: no overlong forms, no surrogates, nothing past U+10FFFF. -/
def fromUtf8 (b : Bytes) : Option String := String.fromUTF8? ⟨b.toArray⟩

@[simp] theorem fromUtf8_utf8 (s : String) : fromUtf8 (utf8 s) = some s := by
  have hs : (⟨(utf8 s).toArray⟩ : ByteArray) = s.toByteArray := by simp [utf8]
  rw [fromUtf8, hs, String.fromUTF8?, dif_pos s.isValidUTF8]
  rfl

theorem utf8_of_fromUtf8 {b : Bytes} {s : String} (h : fromUtf8 b = some s) : utf8 s = b := by
  simp only [fromUtf8, String.fromUTF8?] at h
  split_ifs at h with hv
  have hs := Option.some.inj h
  subst hs
  simp [utf8, String.fromUTF8]

end Dmtap.Lib
