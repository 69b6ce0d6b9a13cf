import Mathlib.Data.List.Dedup
import Mathlib.Data.List.Sort

/-! Stable sorting by a key. Where the keys are distinct the sorted list depends on
the entries only, not on the order in which they came. A list sorted without its duplicates ascends
strictly. -/
namespace Dmtap.Lib

section
variable {α β κ : Type} [LE κ] [DecidableLE κ]

def sortByKey (key : α → κ) (l : List α) : List α :=
  l.insertionSort (fun a b => key a ≤ key b)

theorem sortByKey_perm (key : α → κ) (l : List α) : (sortByKey key l).Perm l :=
  List.perm_insertionSort _ l

@[simp] theorem length_sortByKey (key : α → κ) (l : List α) :
    (sortByKey key l).length = l.length :=
  (sortByKey_perm key l).length_eq

@[simp] theorem mem_sortByKey {key : α → κ} {l : List α} {a : α} :
    a ∈ sortByKey key l ↔ a ∈ l :=
  (sortByKey_perm key l).mem_iff

theorem map_sortByKey (key : α → κ) (f : α → β) (key' : β → κ) (hk : ∀ a, key' (f a) = key a)
    (l : List α) : (sortByKey key l).map f = sortByKey key' (l.map f) :=
  List.map_insertionSort _ _ f l (fun a _ b _ => by simp [hk])

variable [Std.IsLinearOrder κ]

theorem sortByKey_pairwise (key : α → κ) (l : List α) :
    (sortByKey key l).Pairwise (fun a b => key a ≤ key b) := by
  have : Std.Total (fun a b : α => key a ≤ key b) := ⟨fun a b => Std.le_total⟩
  have : IsTrans α (fun a b : α => key a ≤ key b) := ⟨fun a b c => Std.le_trans⟩
  exact List.pairwise_insertionSort _ l

/-- Sorting forgets the order of the input when no two entries share a key. -/
theorem sortByKey_congr {key : α → κ} {l m : List α} (h : l.Perm m)
    (hn : (l.map key).Nodup) : sortByKey key l = sortByKey key m := by
  have hp : (sortByKey key l).Perm (sortByKey key m) :=
    (sortByKey_perm key l).trans (h.trans (sortByKey_perm key m).symm)
  refine hp.eq_of_pairwise (fun a b ha hb hab hba => ?_) (sortByKey_pairwise key l)
    (sortByKey_pairwise key m)
  have ha' : a ∈ l := mem_sortByKey.mp ha
  have hb' : b ∈ l := h.mem_iff.mpr (mem_sortByKey.mp hb)
  exact List.inj_on_of_nodup_map hn ha' hb' (Std.le_antisymm hab hba)

end

section
variable {α κ : Type} [LE κ] [DecidableLE κ] [LT κ] [Std.LawfulOrderLT κ]

theorem sortByKey_eq_self {key : α → κ} {l : List α}
    (h : l.Pairwise (fun a b => key a < key b)) : sortByKey key l = l :=
  List.Pairwise.insertionSort_eq (h.imp (fun h => Std.le_of_lt h))

theorem sortByKey_strict [Std.IsLinearOrder κ] {key : α → κ} {l : List α}
    (hn : (l.map key).Nodup) : (sortByKey key l).Pairwise (fun a b => key a < key b) := by
  have hs : ((sortByKey key l).map key).Nodup := ((sortByKey_perm key l).map key).nodup_iff.mpr hn
  have hne : (sortByKey key l).Pairwise (fun a b => key a ≠ key b) := List.pairwise_map.mp hs
  refine ((sortByKey_pairwise key l).and hne).imp (fun h => ?_)
  exact Std.lt_of_le_of_ne h.1 h.2

/-- Neighbours in sorted order have ascending keys exactly when no key comes twice. -/
theorem sortByKey_isChain [Std.IsLinearOrder κ] {key : α → κ} {l : List α} :
    ((sortByKey key l).map key).IsChain (· < ·) ↔ (l.map key).Nodup := by
  have : Trans (fun a b : κ => a < b) (fun a b : κ => a < b) (fun a b : κ => a < b) :=
    ⟨Std.lt_trans⟩
  rw [List.isChain_iff_pairwise]
  constructor
  · intro h
    have hs : ((sortByKey key l).map key).Nodup := h.imp (fun hlt => Std.ne_of_lt hlt)
    exact ((sortByKey_perm key l).map key).nodup_iff.mp hs
  · intro h
    exact List.pairwise_map.mpr (sortByKey_strict h)

end

theorem pairwise_dedup_insertionSort {α : Type} [LinearOrder α] (l : List α) :
    (l.insertionSort (· ≤ ·)).dedup.Pairwise (· < ·) := by
  have hle := (List.pairwise_insertionSort (· ≤ ·) l).sublist (List.dedup_sublist _)
  exact (hle.and (List.nodup_dedup _)).imp fun h => lt_of_le_of_ne h.1 h.2

theorem mem_dedup_insertionSort {α : Type} [LinearOrder α] {l : List α} {a : α} :
    a ∈ (l.insertionSort (· ≤ ·)).dedup ↔ a ∈ l := by
  rw [List.mem_dedup, List.mem_insertionSort]

end Dmtap.Lib
