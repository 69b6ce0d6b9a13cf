import Dmtap.Lib.SortedMap

/-! Entries of maps: the first value under a key stays, and items go into the buckets of their
keys, where they keep the order they came in. -/
namespace Dmtap.Lib.SortedMap

section Values
variable {κ ν : Type} [LT κ]

/-- The values in the order of their keys. -/
def values (m : SortedMap κ ν) : List ν := m.entries.map Prod.snd

theorem mem_values [DecidableEq κ] [LE κ] [Std.IsLinearOrder κ] [Std.LawfulOrderLT κ]
    {m : SortedMap κ ν} {v : ν} : v ∈ m.values ↔ ∃ k, m.get? k = some v := by
  unfold values
  rw [List.mem_map]
  constructor
  · rintro ⟨⟨k, v⟩, hmem, rfl⟩
    exact ⟨k, get?_eq_some_iff.mpr hmem⟩
  · rintro ⟨k, hk⟩
    exact ⟨(k, v), get?_eq_some_iff.mp hk, rfl⟩

end Values

section First
variable {κ ν : Type} [LT κ] [DecidableEq κ] [DecidableLT κ] [LE κ] [Std.IsLinearOrder κ]
  [Std.LawfulOrderLT κ]

/-- Insert unless the key is there. -/
def orInsert (m : SortedMap κ ν) (k : κ) (v : ν) : SortedMap κ ν :=
  if (m.get? k).isSome then m else m.insert k v

theorem get?_orInsert (m : SortedMap κ ν) (k : κ) (v : ν) (k' : κ) :
    (m.orInsert k v).get? k' = (m.get? k').or (if k' = k then some v else none) := by
  unfold orInsert
  by_cases hk : k' = k
  · subst hk
    cases hold : m.get? k' with
    | some w => simp [hold]
    | none => simp [get?_insert]
  · rw [if_neg hk, Option.or_none]
    split_ifs
    · rfl
    · rw [get?_insert, if_neg hk]

end First

section Push
variable {κ α : Type} [LT κ] [DecidableEq κ] [DecidableLT κ] [LE κ] [Std.IsLinearOrder κ]
  [Std.LawfulOrderLT κ]

/-- Add an item to the bucket of its key. -/
def push (m : SortedMap κ (List α)) (k : κ) (x : α) : SortedMap κ (List α) :=
  m.insert k ((m.get? k).getD [] ++ [x])

omit [DecidableLT κ] [Std.IsLinearOrder κ] in
theorem lookup_eq_none_of_lt {k : κ} {l : List (κ × List α)} (h : ∀ p ∈ l, k < p.1) :
    l.lookup k = none := by
  rw [List.lookup_eq_none_iff]
  intro p hp
  have hne : k ≠ p.1 := Std.ne_of_lt (h p hp)
  simpa using hne

theorem flatten_insertEntry_perm (k : κ) (x : α) {l : List (κ × List α)}
    (h : l.Pairwise fun p q => p.1 < q.1) :
    ((insertEntry k ((l.lookup k).getD [] ++ [x]) l).map Prod.snd).flatten.Perm
      (x :: (l.map Prod.snd).flatten) := by
  induction l with
  | nil => exact List.Perm.refl _
  | cons q l ih =>
    obtain ⟨hq, hl⟩ := List.pairwise_cons.mp h
    obtain ⟨k₀, g⟩ := q
    unfold insertEntry
    by_cases hlt : k < k₀
    · have hnone : ((k₀, g) :: l).lookup k = none := by
        refine lookup_eq_none_of_lt fun p hp => ?_
        cases List.mem_cons.mp hp with
        | inl hp => exact hp ▸ hlt
        | inr hp => exact Std.lt_trans hlt (hq p hp)
      rw [if_pos hlt, hnone]
      exact List.Perm.refl _
    · rw [if_neg hlt]
      by_cases heq : k = k₀
      · subst heq
        rw [if_pos rfl, List.lookup_cons_self, Option.getD_some]
        rw [List.map_cons, List.flatten_cons, List.map_cons, List.flatten_cons]
        dsimp only
        rw [List.append_assoc]
        exact List.perm_middle
      · have hb : (k == k₀) = false := by simpa using heq
        rw [if_neg heq, List.lookup_cons, hb]
        rw [List.map_cons, List.flatten_cons, List.map_cons, List.flatten_cons]
        exact ((ih hl).append_left g).trans List.perm_middle

theorem flatten_values_push (m : SortedMap κ (List α)) (k : κ) (x : α) :
    (m.push k x).values.flatten.Perm (x :: m.values.flatten) :=
  flatten_insertEntry_perm k x m.ascending

/-- The buckets hold the items of `l` under their keys, in order. -/
structure Holds (l : List (κ × α)) (m : SortedMap κ (List α)) : Prop where
  bucket : ∀ k g, m.get? k = some g ↔
    g ≠ [] ∧ g = (l.filter fun p => p.1 = k).map Prod.snd
  all : m.values.flatten.Perm (l.map Prod.snd)

omit [DecidableLT κ] [LE κ] [Std.IsLinearOrder κ] [Std.LawfulOrderLT κ] in
theorem holds_empty : Holds ([] : List (κ × α)) (empty : SortedMap κ (List α)) where
  bucket := by
    intro k g
    constructor
    · intro h
      cases h
    · rintro ⟨hne, hg⟩
      exact absurd hg hne
  all := List.Perm.refl _

variable {l : List (κ × α)} {m : SortedMap κ (List α)}

omit [DecidableLT κ] [LE κ] [Std.IsLinearOrder κ] [Std.LawfulOrderLT κ] in
theorem Holds.getD (h : Holds l m) (k : κ) :
    (m.get? k).getD [] = (l.filter fun p => p.1 = k).map Prod.snd := by
  cases hk : m.get? k with
  | some g => exact ((h.bucket k g).mp hk).2
  | none =>
    by_contra hne
    have hsome := (h.bucket k _).mpr ⟨Ne.symm hne, rfl⟩
    rw [hk] at hsome
    cases hsome

theorem Holds.push (h : Holds l m) (k : κ) (x : α) : Holds (l ++ [(k, x)]) (m.push k x) where
  bucket := by
    intro k' g
    unfold SortedMap.push
    rw [get?_insert, h.getD, List.filter_append, List.map_append]
    by_cases hk : k' = k
    · subst hk
      rw [if_pos rfl, List.filter_cons_of_pos (by simp), List.filter_nil]
      constructor
      · intro hg
        obtain rfl := Option.some.inj hg
        exact ⟨by simp, rfl⟩
      · rintro ⟨-, rfl⟩
        rfl
    · rw [if_neg hk, List.filter_cons_of_neg (by simpa using Ne.symm hk), List.filter_nil,
        List.map_nil, List.append_nil]
      exact h.bucket k' g
  all := by
    rw [List.map_append]
    refine (flatten_values_push m k x).trans ((h.all.cons x).trans ?_)
    exact (List.perm_append_singleton x _).symm

omit [DecidableLT κ] in
theorem Holds.ne_nil (h : Holds l m) {g : List α} (hg : g ∈ m.values) : g ≠ [] := by
  obtain ⟨k, hk⟩ := mem_values.mp hg
  exact ((h.bucket k g).mp hk).1

omit [DecidableLT κ] in
/-- Two items share a bucket when they came under one key. -/
theorem Holds.share_iff (h : Holds l m) (x y : α) :
    (∃ g ∈ m.values, x ∈ g ∧ y ∈ g) ↔ ∃ k, (k, x) ∈ l ∧ (k, y) ∈ l := by
  have hmem : ∀ {k : κ} {z : α}, z ∈ (l.filter fun p => p.1 = k).map Prod.snd ↔ (k, z) ∈ l := by
    intro k z
    simp
  constructor
  · rintro ⟨g, hg, hx, hy⟩
    obtain ⟨k, hk⟩ := mem_values.mp hg
    rw [((h.bucket k g).mp hk).2] at hx hy
    exact ⟨k, hmem.mp hx, hmem.mp hy⟩
  · rintro ⟨k, hx, hy⟩
    refine ⟨(l.filter fun p => p.1 = k).map Prod.snd, ?_, hmem.mpr hx, hmem.mpr hy⟩
    exact mem_values.mpr ⟨k, (h.bucket k _).mpr ⟨List.ne_nil_of_mem (hmem.mpr hx), rfl⟩⟩

end Push
end Dmtap.Lib.SortedMap
