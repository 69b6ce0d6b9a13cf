import Mathlib.Data.List.Forall2
import Mathlib.Data.List.Infix

/-! Patterns whose symbols stand for words. A word matches a pattern when it is cut into one part for
each symbol, and a table finds this row by row, from the end of the pattern. A row has an entry for
each suffix of the word. -/
namespace Dmtap.Lib

variable {σ α : Type}

/-- A word cut into one part for each symbol of a pattern. -/
def Matches (R : σ → List α → Prop) (p : List σ) (w : List α) : Prop :=
  ∃ parts, List.Forall₂ R p parts ∧ parts.flatten = w

section Cuts
variable {R : σ → List α → Prop} {c : σ} {p : List σ} {w : List α}

@[simp] theorem matches_nil_iff : Matches R [] w ↔ w = [] := by
  constructor
  · rintro ⟨parts, hparts, hw⟩
    cases hparts
    exact hw.symm
  · intro hw
    exact ⟨[], .nil, hw.symm⟩

/-- The part of the first symbol comes first. -/
theorem matches_cons_iff : Matches R (c :: p) w ↔ ∃ u v, R c u ∧ Matches R p v ∧ u ++ v = w := by
  constructor
  · rintro ⟨parts, hparts, hw⟩
    obtain ⟨u, rest, hu, hrest, rfl⟩ := List.forall₂_cons_left_iff.mp hparts
    rw [List.flatten_cons] at hw
    exact ⟨u, rest.flatten, hu, ⟨rest, hrest, rfl⟩, hw⟩
  · rintro ⟨u, v, hu, ⟨rest, hrest, rfl⟩, hw⟩
    exact ⟨u :: rest, .cons hu hrest, hw⟩

/-- The part of the first symbol by its length. -/
theorem matches_cons_iff_take :
    Matches R (c :: p) w ↔ ∃ k ≤ w.length, R c (w.take k) ∧ Matches R p (w.drop k) := by
  rw [matches_cons_iff]
  constructor
  · rintro ⟨u, v, hu, hv, rfl⟩
    refine ⟨u.length, ?_, ?_, ?_⟩
    · simp
    · rwa [List.take_left]
    · rwa [List.drop_left]
  · rintro ⟨k, -, hu, hv⟩
    exact ⟨w.take k, w.drop k, hu, hv, List.take_append_drop k w⟩

end Cuts

section Symbols
variable {R : σ → List α → Prop} {c : σ} {p : List σ} {a x : α} {w : List α}

theorem matches_literal_nil (hc : ∀ u, R c u ↔ u = [x]) : ¬ Matches R (c :: p) [] := by
  rw [matches_cons_iff]
  rintro ⟨u, v, hu, -, hnil⟩
  rw [(hc u).mp hu] at hnil
  cases hnil

theorem matches_literal_cons (hc : ∀ u, R c u ↔ u = [x]) :
    Matches R (c :: p) (a :: w) ↔ a = x ∧ Matches R p w := by
  rw [matches_cons_iff]
  constructor
  · rintro ⟨u, v, hu, hv, hsplit⟩
    rw [(hc u).mp hu, List.singleton_append] at hsplit
    obtain ⟨rfl, rfl⟩ := List.cons.inj hsplit
    exact ⟨rfl, hv⟩
  · rintro ⟨rfl, hw⟩
    exact ⟨[a], w, (hc [a]).mpr rfl, hw, rfl⟩

variable {ok : α → Prop}

theorem matches_run_nil (hc : ∀ u, R c u ↔ ∀ b ∈ u, ok b) :
    Matches R (c :: p) [] ↔ Matches R p [] := by
  rw [matches_cons_iff]
  constructor
  · rintro ⟨u, v, -, hv, hnil⟩
    rwa [(List.append_eq_nil_iff.mp hnil).2] at hv
  · intro hp
    exact ⟨[], [], (hc []).mpr (List.forall_mem_nil ok), hp, rfl⟩

/-- A symbol that stands for any run of allowed elements is done, or takes one more. -/
theorem matches_run_cons (hc : ∀ u, R c u ↔ ∀ b ∈ u, ok b) :
    Matches R (c :: p) (a :: w) ↔ Matches R p (a :: w) ∨ ok a ∧ Matches R (c :: p) w := by
  constructor
  · intro h
    obtain ⟨u, v, hu, hv, hsplit⟩ := matches_cons_iff.mp h
    cases u with
    | nil =>
      left
      rwa [← hsplit]
    | cons b u =>
      right
      obtain ⟨rfl, hw⟩ := List.cons.inj hsplit
      obtain ⟨hb, hrest⟩ := List.forall_mem_cons.mp ((hc _).mp hu)
      exact ⟨hb, matches_cons_iff.mpr ⟨u, v, (hc u).mpr hrest, hv, hw⟩⟩
  · rintro (hdone | ⟨ha, hmore⟩)
    · exact matches_cons_iff.mpr ⟨[], a :: w, (hc []).mpr (List.forall_mem_nil ok), hdone, rfl⟩
    · obtain ⟨u, v, hu, hv, hw⟩ := matches_cons_iff.mp hmore
      have hrun : R c (a :: u) := (hc _).mpr (List.forall_mem_cons.mpr ⟨ha, (hc u).mp hu⟩)
      refine matches_cons_iff.mpr ⟨a :: u, v, hrun, hv, ?_⟩
      rw [List.cons_append, hw]

end Symbols

section Rows
variable {P : List α → Prop} {a : α} {w : List α} {b : Bool} {row : List Bool}

/-- The answers for all suffixes of a word, the longest suffix first. -/
def IsRow (P : List α → Prop) (w : List α) (row : List Bool) : Prop :=
  List.Forall₂ (fun v b => b = true ↔ P v) w.tails row

theorem isRow_nil_iff : IsRow P [] row ↔ ∃ b, (b = true ↔ P []) ∧ row = [b] := by
  have hrow : IsRow P [] row ↔ List.Forall₂ (fun v b => b = true ↔ P v) [[]] row := Iff.rfl
  rw [hrow, List.forall₂_cons_left_iff]
  simp only [List.forall₂_nil_left_iff]
  constructor
  · rintro ⟨b, rest, hb, rfl, h⟩
    exact ⟨b, hb, h⟩
  · rintro ⟨b, hb, h⟩
    exact ⟨b, [], hb, rfl, h⟩

theorem isRow_cons_iff :
    IsRow P (a :: w) row ↔ ∃ b rest, (b = true ↔ P (a :: w)) ∧ IsRow P w rest ∧ row = b :: rest := by
  unfold IsRow
  rw [List.tails_cons, List.forall₂_cons_left_iff]

theorem IsRow.nil (hb : b = true ↔ P []) : IsRow P [] [b] := isRow_nil_iff.mpr ⟨b, hb, rfl⟩

theorem IsRow.cons (hb : b = true ↔ P (a :: w)) (hrow : IsRow P w row) :
    IsRow P (a :: w) (b :: row) := isRow_cons_iff.mpr ⟨b, row, hb, hrow, rfl⟩

/-- The first entry answers for the whole word. -/
theorem IsRow.headD_iff (h : IsRow P w row) : row.headD false = true ↔ P w := by
  cases w with
  | nil =>
    obtain ⟨b, hb, rfl⟩ := isRow_nil_iff.mp h
    exact hb
  | cons a w =>
    obtain ⟨b, rest, hb, -, rfl⟩ := isRow_cons_iff.mp h
    exact hb

theorem IsRow.tail (h : IsRow P (a :: w) row) : IsRow P w row.tail := by
  obtain ⟨b, rest, -, hrest, rfl⟩ := isRow_cons_iff.mp h
  exact hrest

/-- Under an exhausted pattern only the empty suffix is marked. -/
theorem isRow_last (R : σ → List α → Prop) (w : List α) :
    IsRow (Matches R []) w (List.replicate w.length false ++ [true]) := by
  induction w with
  | nil => exact .nil (by simp)
  | cons a w ih => exact .cons (by simp) ih

/-- A table filled from the last symbol to the first. -/
theorem isRow_foldr {R : σ → List α → Prop} {step : σ → List Bool → List Bool} {last : List Bool}
    (hlast : IsRow (Matches R []) w last)
    (hstep : ∀ c p below, IsRow (Matches R p) w below → IsRow (Matches R (c :: p)) w (step c below))
    (p : List σ) : IsRow (Matches R p) w (p.foldr step last) := by
  induction p with
  | nil => exact hlast
  | cons c p ih => exact hstep c p _ ih

end Rows

end Dmtap.Lib
