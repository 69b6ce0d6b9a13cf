import Mathlib.Algebra.BigOperators.Group.List.Basic
import Mathlib.Data.UInt

/-! Machine words with arithmetic that stops at the largest word. A figure that stopped anywhere on
the way is the largest word in the end, so it compares with a smaller bound as the exact one does. -/
namespace Dmtap.Lib

/-- The numbers up to a largest one. -/
class Word (α : Type) where
  toNat : α → ℕ
  ofNat : ℕ → α
  largest : ℕ
  toNat_le (a : α) : toNat a ≤ largest
  toNat_ofNat {n : ℕ} (h : n ≤ largest) : toNat (ofNat n) = n

instance : Word UInt32 where
  toNat := UInt32.toNat
  ofNat := UInt32.ofNat
  largest := 2 ^ 32 - 1
  toNat_le a := Nat.le_sub_one_of_lt a.toNat_lt
  toNat_ofNat h := UInt32.toNat_ofNat_of_lt (Nat.lt_of_le_sub_one (by decide) h)

instance : Word UInt64 where
  toNat := UInt64.toNat
  ofNat := UInt64.ofNat
  largest := 2 ^ 64 - 1
  toNat_le a := Nat.le_sub_one_of_lt a.toNat_lt
  toNat_ofNat h := UInt64.toNat_ofNat_of_lt (Nat.lt_of_le_sub_one (by decide) h)

namespace Word
variable {α : Type} [Word α]

/-- The word nearest to a number. -/
def clamp (n : ℕ) : α := ofNat (min n (largest α))

def saturatingAdd (a b : α) : α := clamp (toNat a + toNat b)

def saturatingSub (a b : α) : α := clamp (toNat a - toNat b)

def saturatingMul (a b : α) : α := clamp (toNat a * toNat b)

theorem toNat_clamp (n : ℕ) : toNat (clamp n : α) = min n (largest α) :=
  toNat_ofNat (Nat.min_le_right _ _)

theorem toNat_saturatingAdd (a b : α) :
    toNat (saturatingAdd a b) = min (toNat a + toNat b) (largest α) := toNat_clamp _

theorem toNat_saturatingMul (a b : α) :
    toNat (saturatingMul a b) = min (toNat a * toNat b) (largest α) := toNat_clamp _

theorem toNat_saturatingSub (a b : α) : toNat (saturatingSub a b) = toNat a - toNat b := by
  have hle := toNat_le a
  rw [saturatingSub, toNat_clamp]
  omega

/-- No grouping of saturating additions changes the total, by induction on the terms. -/
theorem toNat_foldl_saturatingAdd {ι : Type} (f : ι → α) (l : List ι) (a : α) :
    toNat (l.foldl (fun s i => saturatingAdd s (f i)) a) =
      min (toNat a + (l.map fun i => toNat (f i)).sum) (largest α) := by
  induction l generalizing a with
  | nil =>
    have hle := toNat_le a
    rw [List.foldl_nil, List.map_nil, List.sum_nil]
    omega
  | cons i l ih =>
    rw [List.foldl_cons, ih, toNat_saturatingAdd, List.map_cons, List.sum_cons]
    omega

end Word

section Widths

@[simp] theorem word_toNat_uint32 (a : UInt32) : Word.toNat a = a.toNat := rfl

@[simp] theorem word_toNat_uint64 (a : UInt64) : Word.toNat a = a.toNat := rfl

@[simp] theorem largest_uint32 : Word.largest UInt32 = 2 ^ 32 - 1 := rfl

@[simp] theorem largest_uint64 : Word.largest UInt64 = 2 ^ 64 - 1 := rfl

theorem toNat_min_uint32 (a b : UInt32) : (min a b).toNat = min a.toNat b.toNat := by
  change (if a ≤ b then a else b).toNat = _
  split_ifs with h
  · exact (Nat.min_eq_left (UInt32.le_iff_toNat_le.mp h)).symm
  · have hlt := UInt32.lt_iff_toNat_lt.mp (UInt32.not_le.mp h)
    exact (Nat.min_eq_right hlt.le).symm

theorem toNat_min_uint64 (a b : UInt64) : (min a b).toNat = min a.toNat b.toNat := by
  change (if a ≤ b then a else b).toNat = _
  split_ifs with h
  · exact (Nat.min_eq_left (UInt64.le_iff_toNat_le.mp h)).symm
  · have hlt := UInt64.lt_iff_toNat_lt.mp (UInt64.not_le.mp h)
    exact (Nat.min_eq_right hlt.le).symm

theorem toNat_max_uint64 (a b : UInt64) : (max a b).toNat = max a.toNat b.toNat := by
  change (if a ≤ b then b else a).toNat = _
  split_ifs with h
  · exact (Nat.max_eq_right (UInt64.le_iff_toNat_le.mp h)).symm
  · have hlt := UInt64.lt_iff_toNat_lt.mp (UInt64.not_le.mp h)
    exact (Nat.max_eq_left hlt.le).symm

end Widths
end Dmtap.Lib
