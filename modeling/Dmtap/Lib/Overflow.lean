import Mathlib.Algebra.Order.BigOperators.Group.Finset
import Mathlib.Data.UInt

/-! Addition of 64-bit words in the two kinds of builds: one wraps around, the other one stops where
the sum does not fit. A run of steps that may stop is the run that does not, up to the first step
that stops. Sums of capped terms fit under the cap when the terms do, or when all but one vanish. -/
namespace Dmtap.Lib

/-- The sum, or nothing where it does not fit. -/
def checkedAdd (a b : UInt64) : Option UInt64 :=
  if a.toNat + b.toNat < 2 ^ 64 then some (a + b) else none

theorem checkedAdd_of_lt {a b : UInt64} (h : a.toNat + b.toNat < 2 ^ 64) :
    checkedAdd a b = some (a + b) := if_pos h

theorem checkedAdd_eq_none_iff {a b : UInt64} :
    checkedAdd a b = none ↔ 2 ^ 64 ≤ a.toNat + b.toNat := by
  unfold checkedAdd
  split_ifs with h
  · constructor
    · intro hsome
      cases hsome
    · intro hle
      omega
  · constructor
    · intro _
      omega
    · intro _
      rfl

theorem eq_add_of_checkedAdd {a b c : UInt64} (h : checkedAdd a b = some c) : c = a + b := by
  unfold checkedAdd at h
  split_ifs at h
  exact (Option.some.inj h).symm

theorem toNat_add_of_lt {a b : UInt64} (h : a.toNat + b.toNat < 2 ^ 64) :
    (a + b).toNat = a.toNat + b.toNat := by
  rw [UInt64.toNat_add]
  exact Nat.mod_eq_of_lt h

section Runs
variable {σ α : Type} {step : σ → α → σ} {stepChecked : σ → α → Option σ} {stops : σ → α → Prop}

/-- Splits of a list at one element. -/
theorem forall_split_cons {P : List α → α → Prop} {a : α} {l : List α} :
    (∀ before x after, a :: l = before ++ x :: after → P before x) ↔
      P [] a ∧ ∀ before x after, l = before ++ x :: after → P (a :: before) x := by
  constructor
  · intro h
    refine ⟨h [] a l rfl, fun before x after hl => h (a :: before) x after ?_⟩
    rw [hl, List.cons_append]
  · rintro ⟨hfirst, hrest⟩ before x after hl
    cases before with
    | nil =>
      obtain ⟨rfl, -⟩ := List.cons.inj hl
      exact hfirst
    | cons b before =>
      rw [List.cons_append] at hl
      obtain ⟨rfl, htail⟩ := List.cons.inj hl
      exact hrest before x after htail

/-- By induction on the steps. -/
theorem foldlM_eq_some_iff (hruns : ∀ s a, ¬ stops s a → stepChecked s a = some (step s a))
    (hstops : ∀ s a, stops s a → stepChecked s a = none) {s : σ} {l : List α} :
    l.foldlM stepChecked s = some (l.foldl step s) ↔
      ∀ before a after, l = before ++ a :: after → ¬ stops (before.foldl step s) a := by
  induction l generalizing s with
  | nil =>
    constructor
    · intro _ before a after h
      exact absurd h.symm (List.append_ne_nil_of_right_ne_nil _ (List.cons_ne_nil _ _))
    · intro _
      rfl
  | cons a l ih =>
    rw [forall_split_cons, List.foldlM_cons, List.foldl_cons, List.foldl_nil]
    by_cases h : stops s a
    · rw [hstops s a h]
      constructor
      · intro hnone
        cases hnone
      · rintro ⟨hnot, -⟩
        exact absurd h hnot
    · rw [hruns s a h]
      constructor
      · intro hrun
        exact ⟨h, ih.mp hrun⟩
      · rintro ⟨-, hrest⟩
        exact ih.mpr hrest

end Runs

section Capped
variable {ι : Type} {s : Finset ι} {f : ι → ℕ} {cap : ℕ}

theorem sum_min_eq_of_le (h : ∀ i ∈ s, f i ≤ cap) : ∑ i ∈ s, min (f i) cap = ∑ i ∈ s, f i :=
  Finset.sum_congr rfl fun i hi => min_eq_left (h i hi)

theorem cap_le_sum_min {i : ι} (hi : i ∈ s) (h : cap < f i) : cap ≤ ∑ i ∈ s, min (f i) cap := by
  have hle := Finset.single_le_sum (fun j _ => Nat.zero_le (min (f j) cap)) hi
  rw [min_eq_right h.le] at hle
  exact hle

/-- A sum of capped terms that stays under the cap is the capped sum. -/
theorem sum_min_eq_min (h : ∑ i ∈ s, min (f i) cap ≤ cap) :
    ∑ i ∈ s, min (f i) cap = min (∑ i ∈ s, f i) cap := by
  by_cases hall : ∀ i ∈ s, f i ≤ cap
  · rw [sum_min_eq_of_le hall] at h ⊢
    exact (min_eq_left h).symm
  · obtain ⟨i, hi, hlarge⟩ := not_forall₂.mp hall
    have hlt : cap < f i := Nat.lt_of_not_le hlarge
    have hterm := Finset.single_le_sum (fun j _ => Nat.zero_le (f j)) hi
    rw [min_eq_right (by omega)]
    exact le_antisymm h (cap_le_sum_min hi hlt)

theorem sum_min_le_iff (hcap : 0 < cap) :
    ∑ i ∈ s, min (f i) cap ≤ cap ↔
      ∑ i ∈ s, f i ≤ cap ∨ ∀ i ∈ s, ∀ j ∈ s, f i ≠ 0 → f j ≠ 0 → i = j := by
  classical
  constructor
  · intro h
    by_contra hnot
    obtain ⟨hsum, hpair⟩ := not_or.mp hnot
    push Not at hsum hpair
    obtain ⟨i, hi, j, hj, hfi, hfj, hij⟩ := hpair
    by_cases hall : ∀ i ∈ s, f i ≤ cap
    · rw [sum_min_eq_of_le hall] at h
      omega
    · obtain ⟨k, hk, hlarge⟩ := not_forall₂.mp hall
      have hother : ∃ l ∈ s, l ≠ k ∧ f l ≠ 0 := by
        by_cases hik : i = k
        · exact ⟨j, hj, fun hjk => hij (hik.trans hjk.symm), hfj⟩
        · exact ⟨i, hi, hik, hfi⟩
      obtain ⟨l, hl, hne, hfl⟩ := hother
      have hpos : 0 < min (f l) cap := lt_min (Nat.pos_of_ne_zero hfl) hcap
      have hk' : min (f k) cap = cap := min_eq_right (by omega)
      have hsplit := Finset.add_sum_erase s (fun i => min (f i) cap) hk
      have hterm := Finset.single_le_sum (fun j _ => Nat.zero_le (min (f j) cap))
        (Finset.mem_erase.mpr ⟨hne, hl⟩)
      omega
  · rintro (hsum | hone)
    · exact (Finset.sum_le_sum fun i _ => min_le_left (f i) cap).trans hsum
    · by_cases hzero : ∀ i ∈ s, f i = 0
      · have hsum : ∑ i ∈ s, min (f i) cap = 0 := by
          refine Finset.sum_eq_zero fun i hi => ?_
          rw [hzero i hi, Nat.zero_min]
        omega
      · obtain ⟨i, hi, hfi⟩ := not_forall₂.mp hzero
        have hsum : ∑ i ∈ s, min (f i) cap = min (f i) cap := by
          refine Finset.sum_eq_single_of_mem i hi fun j hj hji => ?_
          have hfj : f j = 0 := by
            by_contra hfj
            exact hji (hone j hj i hi hfj hfi)
          rw [hfj, Nat.zero_min]
        rw [hsum]
        exact min_le_right _ _

end Capped
end Dmtap.Lib
