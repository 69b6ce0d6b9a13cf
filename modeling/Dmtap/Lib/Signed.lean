import Mathlib.Algebra.Order.Ring.Int
import Mathlib.Data.Option.Basic

/-! Signed words of 64 bits, with arithmetic that stops where a result does not fit. Division rounds
towards zero, and rounds down after a shift of the numbers below zero. -/
namespace Dmtap.Lib

/-- The numbers of a signed word of 64 bits. -/
def InI64 (n : ℤ) : Prop := -9223372036854775808 ≤ n ∧ n ≤ 9223372036854775807

instance (n : ℤ) : Decidable (InI64 n) := inferInstanceAs (Decidable (_ ∧ _))

/-- A result, or nothing where it does not fit. -/
def i64 (n : ℤ) : Option ℤ := if InI64 n then some n else none

def addI64 (a b : ℤ) : Option ℤ := i64 (a + b)
def subI64 (a b : ℤ) : Option ℤ := i64 (a - b)
def mulI64 (a b : ℤ) : Option ℤ := i64 (a * b)

theorem i64_of_le {n : ℤ} (h : -9223372036854775808 ≤ n) (h' : n ≤ 9223372036854775807) :
    i64 n = some n := if_pos ⟨h, h'⟩

theorem addI64_of_le {a b : ℤ} (h : -9223372036854775808 ≤ a + b)
    (h' : a + b ≤ 9223372036854775807) : addI64 a b = some (a + b) := i64_of_le h h'

theorem subI64_of_le {a b : ℤ} (h : -9223372036854775808 ≤ a - b)
    (h' : a - b ≤ 9223372036854775807) : subI64 a b = some (a - b) := i64_of_le h h'

theorem mulI64_of_le {a b : ℤ} (h : -9223372036854775808 ≤ a * b)
    (h' : a * b ≤ 9223372036854775807) : mulI64 a b = some (a * b) := i64_of_le h h'

theorem i64_eq_some_iff {n k : ℤ} : i64 n = some k ↔ InI64 n ∧ n = k := by
  unfold i64
  split_ifs with h
  · simp [h]
  · simp [h]

theorem addI64_eq_some_iff {a b k : ℤ} : addI64 a b = some k ↔ InI64 (a + b) ∧ a + b = k :=
  i64_eq_some_iff

theorem subI64_eq_some_iff {a b k : ℤ} : subI64 a b = some k ↔ InI64 (a - b) ∧ a - b = k :=
  i64_eq_some_iff

theorem mulI64_eq_some_iff {a b k : ℤ} : mulI64 a b = some k ↔ InI64 (a * b) ∧ a * b = k :=
  i64_eq_some_iff

theorem tdiv_shifted {y k : ℤ} (hk : 0 < k) :
    (if 0 ≤ y then y else y - (k - 1)).tdiv k = y / k := by
  by_cases h : 0 ≤ y
  · rw [if_pos h]
    exact Int.tdiv_eq_ediv_of_nonneg h
  · have hlt := Int.emod_lt_of_pos y hk
    have hle := Int.emod_nonneg y hk.ne'
    have hsplit := Int.mul_ediv_add_emod y k
    have hsum : k - 1 - y = k - 1 - y % k + k * -(y / k) := by
      rw [mul_neg]
      omega
    have hquotient : (k - 1 - y) / k = -(y / k) := by
      rw [hsum, Int.add_mul_ediv_left _ _ hk.ne', Int.ediv_eq_zero_of_lt (by omega) (by omega),
        zero_add]
    rw [if_neg h, ← neg_sub, Int.neg_tdiv, Int.tdiv_eq_ediv_of_nonneg (by omega), hquotient, neg_neg]

end Dmtap.Lib
