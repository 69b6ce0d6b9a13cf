import Mathlib.Data.List.InsertIdx
import Mathlib.Data.List.Sort

/-! Positions in a list that a predicate picks, and removing the items there, the last one first:
whoever hears each position as it is removed ends up with the items that stay. -/
namespace Dmtap.Lib
variable {α β : Type}

/-- The positions of the items that `q` picks, ascending. -/
def positions (q : α × ℕ → Bool) (l : List α) : List ℕ := (l.zipIdx.filter q).map Prod.snd

/-- The items that `q` picks, in order. -/
def picked (q : α × ℕ → Bool) (l : List α) : List α := (l.zipIdx.filter q).map Prod.fst

/-- The items that stay when those that `q` picks go. -/
def unpicked (q : α × ℕ → Bool) (l : List α) : List α := picked (fun p => !q p) l

section
variable {q : α × ℕ → Bool} {l : List α} {i : ℕ} {x : α}

theorem mem_filter_zipIdx : (x, i) ∈ l.zipIdx.filter q ↔ l[i]? = some x ∧ q (x, i) = true := by
  rw [List.mem_filter, List.mem_zipIdx_iff_getElem?]

theorem mem_positions : i ∈ positions q l ↔ ∃ x, l[i]? = some x ∧ q (x, i) = true := by
  unfold positions
  rw [List.mem_map]
  constructor
  · rintro ⟨⟨x, j⟩, hmem, rfl⟩
    exact ⟨x, mem_filter_zipIdx.mp hmem⟩
  · rintro ⟨x, hx⟩
    exact ⟨(x, i), mem_filter_zipIdx.mpr hx, rfl⟩

theorem mem_picked : x ∈ picked q l ↔ ∃ i, l[i]? = some x ∧ q (x, i) = true := by
  unfold picked
  rw [List.mem_map]
  constructor
  · rintro ⟨⟨y, i⟩, hmem, rfl⟩
    exact ⟨i, mem_filter_zipIdx.mp hmem⟩
  · rintro ⟨i, hx⟩
    exact ⟨(x, i), mem_filter_zipIdx.mpr hx, rfl⟩

theorem positions_ascending (q : α × ℕ → Bool) (l : List α) :
    (positions q l).Pairwise (· < ·) := by
  have hsnd : (l.zipIdx.map Prod.snd).Pairwise (· < ·) := by
    rw [List.zipIdx_map_snd]
    exact List.pairwise_lt_range'
  exact List.Pairwise.sublist (List.filter_sublist.map Prod.snd) hsnd

/-- The positions are the one ascending list of them. -/
theorem eq_positions {indices : List ℕ} (hasc : indices.Pairwise (· < ·))
    (h : ∀ i, i ∈ indices ↔ ∃ x, l[i]? = some x ∧ q (x, i) = true) : indices = positions q l := by
  refine List.Perm.eq_of_pairwise (fun a b _ _ hab hba => absurd hab (Nat.lt_asymm hba)) hasc
    (positions_ascending q l) ?_
  refine (List.perm_ext_iff_of_nodup hasc.nodup (positions_ascending q l).nodup).mpr ?_
  exact fun i => (h i).trans mem_positions.symm

theorem picked_sublist (q : α × ℕ → Bool) (l : List α) : (picked q l).Sublist l := by
  have hsub : (picked q l).Sublist (l.zipIdx.map Prod.fst) := List.filter_sublist.map Prod.fst
  rw [List.zipIdx_map_fst] at hsub
  exact hsub

theorem positions_congr {q' : α × ℕ → Bool}
    (h : ∀ x i, l[i]? = some x → q (x, i) = q' (x, i)) : positions q l = positions q' l := by
  unfold positions
  rw [List.filter_congr]
  rintro ⟨x, i⟩ hp
  exact h x i (List.mem_zipIdx_iff_getElem?.mp hp)

theorem picked_congr {q' : α × ℕ → Bool}
    (h : ∀ x i, l[i]? = some x → q (x, i) = q' (x, i)) : picked q l = picked q' l := by
  unfold picked
  rw [List.filter_congr]
  rintro ⟨x, i⟩ hp
  exact h x i (List.mem_zipIdx_iff_getElem?.mp hp)

/-- A predicate that looks only at the items filters them. -/
theorem picked_of_item (p : α → Bool) (l : List α) : picked (fun x => p x.1) l = l.filter p := by
  unfold picked
  rw [show (fun x : α × ℕ => p x.1) = p ∘ Prod.fst from rfl, ← List.filter_map,
    List.zipIdx_map_fst]

theorem picked_eq_filterMap (q : α × ℕ → Bool) (l : List α) :
    picked q l = (positions q l).filterMap fun i => l[i]? := by
  unfold picked positions
  rw [List.filterMap_map]
  have hget : ∀ p ∈ l.zipIdx.filter q, ((fun i => l[i]?) ∘ Prod.snd) p = some p.1 := by
    rintro ⟨x, i⟩ hp
    exact (mem_filter_zipIdx.mp hp).1
  rw [List.filterMap_congr hget, List.filterMap_eq_map']

theorem picked_cons (q : α × ℕ → Bool) (x : α) (l : List α) :
    picked q (x :: l) =
      (if q (x, 0) then [x] else []) ++ picked (fun p => q (p.1, p.2 + 1)) l := by
  unfold picked
  rw [List.zipIdx_cons, List.zipIdx_succ, List.filter_cons, List.filter_map]
  split_ifs
  · simp [Function.comp_def]
  · simp [Function.comp_def]

theorem positions_cons (q : α × ℕ → Bool) (x : α) (l : List α) :
    positions q (x :: l) =
      (if q (x, 0) then [0] else []) ++
        (positions (fun p => q (p.1, p.2 + 1)) l).map (· + 1) := by
  unfold positions
  rw [List.zipIdx_cons, List.zipIdx_succ, List.filter_cons, List.filter_map]
  split_ifs
  · simp [Function.comp_def]
  · simp [Function.comp_def]

end

/-- Remove the items at some ascending positions, the last one first. -/
def eraseAll (indices : List ℕ) (l : List α) : List α := indices.foldr (fun i l => l.eraseIdx i) l

section
variable {indices : List ℕ} {l : List α}

theorem eraseAll_cons (i : ℕ) (indices : List ℕ) (l : List α) :
    eraseAll (i :: indices) l = (eraseAll indices l).eraseIdx i := rfl

theorem eraseAll_succ (indices : List ℕ) (x : α) (l : List α) :
    eraseAll (indices.map (· + 1)) (x :: l) = x :: eraseAll indices l := by
  induction indices with
  | nil => rfl
  | cons i indices ih =>
    rw [List.map_cons, eraseAll_cons, ih, List.eraseIdx_cons_succ]
    rfl

/-- In front of the positions nothing moves. -/
theorem getElem?_eraseAll {i : ℕ} (h : ∀ j ∈ indices, i < j) :
    (eraseAll indices l)[i]? = l[i]? := by
  induction indices with
  | nil => rfl
  | cons j indices ih =>
    rw [eraseAll_cons, List.getElem?_eraseIdx_of_lt (h j List.mem_cons_self)]
    exact ih fun k hk => h k (List.mem_cons_of_mem _ hk)

theorem eraseAll_map (f : α → β) (indices : List ℕ) (l : List α) :
    eraseAll indices (l.map f) = (eraseAll indices l).map f := by
  induction indices with
  | nil => rfl
  | cons i indices ih => rw [eraseAll_cons, ih, List.eraseIdx_map, eraseAll_cons]

/-- What is left when the picked items are removed by their positions. -/
theorem eraseAll_positions (q : α × ℕ → Bool) (l : List α) :
    eraseAll (positions q l) l = unpicked q l := by
  induction l generalizing q with
  | nil => rfl
  | cons x l ih =>
    have hrest := ih fun p => q (p.1, p.2 + 1)
    unfold unpicked at hrest ⊢
    rw [positions_cons, picked_cons]
    cases q (x, 0) with
    | true =>
      rw [if_pos rfl, List.singleton_append, eraseAll_cons, eraseAll_succ, hrest]
      rfl
    | false =>
      rw [if_neg Bool.false_ne_true, List.nil_append, eraseAll_succ, hrest]
      rfl

end
end Dmtap.Lib
