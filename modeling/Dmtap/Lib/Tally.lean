import Mathlib.Data.Finset.Dedup
import Mathlib.Data.Finset.Card

/-! Tallies: how many distinct keys have an entry that counts. The loop remembers the keys it
has counted and skips their later entries; its result depends on the set of entries alone. -/
namespace Dmtap.Lib

section
variable {α κ : Type} [DecidableEq κ] (key : α → κ) (counts : α → Bool)

/-- The keys counted so far, extended by the entries of the list. -/
def tally (counted : List κ) : List α → List κ
  | [] => counted
  | a :: l =>
    if key a ∈ counted then tally counted l
    else if counts a then tally (counted ++ [key a]) l
    else tally counted l

variable {key counts}

theorem tally_nodup {counted : List κ} (h : counted.Nodup) (l : List α) :
    (tally key counts counted l).Nodup := by
  induction l generalizing counted with
  | nil => exact h
  | cons a l ih =>
    unfold tally
    split_ifs with hmem hcounts
    · exact ih h
    · have hnew : (counted ++ [key a]).Nodup := by
        rw [List.nodup_append]
        refine ⟨h, List.nodup_singleton _, ?_⟩
        intro x hx y hy hxy
        rw [List.mem_singleton] at hy
        exact hmem (by rw [← hy, ← hxy]; exact hx)
      exact ih hnew
    · exact ih h

theorem mem_tally {counted : List κ} {l : List α} {k : κ} :
    k ∈ tally key counts counted l ↔
      k ∈ counted ∨ ∃ a ∈ l, key a = k ∧ counts a = true := by
  induction l generalizing counted with
  | nil => simp [tally]
  | cons a l ih =>
    unfold tally
    split_ifs with hmem hcounts
    · rw [ih]
      constructor
      · rintro (h | ⟨b, hb, h⟩)
        · exact Or.inl h
        · exact Or.inr ⟨b, List.mem_cons_of_mem a hb, h⟩
      · rintro (h | ⟨b, hb, hk, hc⟩)
        · exact Or.inl h
        · rcases List.mem_cons.mp hb with rfl | hb
          · exact Or.inl (hk ▸ hmem)
          · exact Or.inr ⟨b, hb, hk, hc⟩
    · rw [ih]
      have hsplit : (k ∈ counted ++ [key a]) ↔ k ∈ counted ∨ key a = k := by
        rw [List.mem_append, List.mem_singleton, eq_comm]
      rw [hsplit]
      simp only [List.exists_mem_cons_iff, hcounts, and_true, or_assoc]
    · rw [ih]
      simp [hcounts]

/-- The loop counts the distinct keys of the entries that count. -/
theorem length_tally {l : List α} {s : Finset κ}
    (hs : ∀ k, k ∈ s ↔ ∃ a ∈ l, key a = k ∧ counts a = true) :
    (tally key counts [] l).length = s.card := by
  have hset : (tally key counts [] l).toFinset = s := by
    ext k
    rw [List.mem_toFinset, mem_tally, hs]
    simp
  rw [← hset, List.toFinset_card_of_nodup (tally_nodup List.nodup_nil l)]

end
end Dmtap.Lib
