import Mathlib.Data.List.Sort

/-! Maps with ascending keys. A map carries the proof that its keys ascend, so that its
entries are a function of what was inserted and can be listed in key order. -/
namespace Dmtap.Lib

section Entries
variable {κ ν : Type} [LT κ] [DecidableLT κ] [DecidableEq κ]

/-- Insert in key order, replacing the value at an equal key. -/
def insertEntry (k : κ) (v : ν) : List (κ × ν) → List (κ × ν)
  | [] => [(k, v)]
  | p :: l =>
    if k < p.1 then (k, v) :: p :: l
    else if k = p.1 then (k, v) :: l
    else p :: insertEntry k v l

theorem mem_insertEntry {k : κ} {v : ν} {l : List (κ × ν)} {p : κ × ν}
    (h : p ∈ insertEntry k v l) : p = (k, v) ∨ p ∈ l := by
  induction l with
  | nil => exact Or.inl (List.mem_singleton.mp h)
  | cons q l ih =>
    unfold insertEntry at h
    split_ifs at h with hlt heq
    · exact List.mem_cons.mp h
    · rcases List.mem_cons.mp h with h | h
      · exact Or.inl h
      · exact Or.inr (List.mem_cons_of_mem _ h)
    · rcases List.mem_cons.mp h with h | h
      · exact Or.inr (h ▸ List.mem_cons_self)
      · rcases ih h with h | h
        · exact Or.inl h
        · exact Or.inr (List.mem_cons_of_mem _ h)

/-- A new key adds exactly one entry. -/
theorem insertEntry_perm {k : κ} {v : ν} {l : List (κ × ν)} (h : k ∉ l.map Prod.fst) :
    (insertEntry k v l).Perm ((k, v) :: l) := by
  induction l with
  | nil => exact List.Perm.refl _
  | cons q l ih =>
    have hq : k ≠ q.1 := fun heq => h (by simp [heq])
    have hl : k ∉ l.map Prod.fst := fun hmem => h (List.mem_cons_of_mem _ hmem)
    unfold insertEntry
    split_ifs with hlt
    · exact List.Perm.refl _
    · exact ((ih hl).cons q).trans (List.Perm.swap _ _ _)

theorem lookup_insertEntry (k : κ) (v : ν) (l : List (κ × ν)) (k' : κ) :
    (insertEntry k v l).lookup k' = if k' = k then some v else l.lookup k' := by
  induction l with
  | nil =>
    by_cases hk : k' = k
    · simp [insertEntry, hk]
    · have hb : (k' == k) = false := by simpa using hk
      simp [insertEntry, List.lookup_cons, hk, hb]
  | cons q l ih =>
    obtain ⟨k₀, v₀⟩ := q
    unfold insertEntry
    by_cases hk : k' = k
    · subst hk
      rw [if_pos rfl] at ih ⊢
      split_ifs with hlt heq
      · simp
      · simp
      · have hb : (k' == k₀) = false := by simpa using heq
        simp [List.lookup_cons, hb, ih]
    · have hb : (k' == k) = false := by simpa using hk
      rw [if_neg hk] at ih ⊢
      split_ifs with hlt heq
      · simp [List.lookup_cons, hb]
      · have heq : k = k₀ := heq
        simp [List.lookup_cons, hb, ← heq]
      · simp [List.lookup_cons, ih]

variable [LE κ] [Std.IsLinearOrder κ] [Std.LawfulOrderLT κ]

theorem insertEntry_ascending (k : κ) (v : ν) {l : List (κ × ν)}
    (h : l.Pairwise (fun p q => p.1 < q.1)) :
    (insertEntry k v l).Pairwise (fun p q => p.1 < q.1) := by
  induction l with
  | nil => exact List.pairwise_singleton _ _
  | cons q l ih =>
    obtain ⟨hq, hl⟩ := List.pairwise_cons.mp h
    unfold insertEntry
    split_ifs with hlt heq
    · refine List.pairwise_cons.mpr ⟨fun p hp => ?_, h⟩
      rcases List.mem_cons.mp hp with rfl | hp
      · exact hlt
      · exact Std.lt_trans hlt (hq p hp)
    · exact List.pairwise_cons.mpr ⟨fun p hp => heq ▸ hq p hp, hl⟩
    · refine List.pairwise_cons.mpr ⟨fun p hp => ?_, ih hl⟩
      rcases mem_insertEntry hp with rfl | hp
      · exact Std.lt_of_le_of_ne (Std.not_lt.mp hlt) (Ne.symm heq)
      · exact hq p hp

end Entries

variable {κ ν : Type} [DecidableEq κ] in
theorem lookup_filter_ne (k k' : κ) (l : List (κ × ν)) :
    (l.filter fun p => p.1 ≠ k).lookup k' = if k' = k then none else l.lookup k' := by
  induction l with
  | nil => simp
  | cons p l ih =>
    obtain ⟨k₀, v₀⟩ := p
    by_cases hk₀ : k₀ = k
    · subst hk₀
      rw [List.filter_cons_of_neg (by simp), ih]
      by_cases hk : k' = k₀
      · rw [if_pos hk, if_pos hk]
      · have hb : (k' == k₀) = false := by simpa using hk
        rw [if_neg hk, if_neg hk, List.lookup_cons, hb]
    · rw [List.filter_cons_of_pos (by simpa using hk₀), List.lookup_cons, List.lookup_cons, ih]
      by_cases hk : k' = k₀
      · have hne : k' ≠ k := fun h => hk₀ (hk.symm.trans h)
        have hb : (k' == k₀) = true := by simpa using hk
        simp [hb, hne]
      · have hb : (k' == k₀) = false := by simpa using hk
        simp [hb]

/-- A map whose entries are listed with ascending keys. -/
structure SortedMap (κ ν : Type) [LT κ] where
  entries : List (κ × ν)
  ascending : entries.Pairwise (fun p q => p.1 < q.1)
  deriving DecidableEq

namespace SortedMap
variable {κ ν : Type} [LT κ]

def empty : SortedMap κ ν := ⟨[], List.Pairwise.nil⟩

variable [DecidableEq κ]

def get? (m : SortedMap κ ν) (k : κ) : Option ν := m.entries.lookup k

@[simp] theorem get?_empty (k : κ) : (empty : SortedMap κ ν).get? k = none := rfl

/-- Distinct keys: a listed entry is what a look-up finds. -/
theorem get?_eq_some_iff [LE κ] [Std.IsLinearOrder κ] [Std.LawfulOrderLT κ] {m : SortedMap κ ν}
    {k : κ} {v : ν} : m.get? k = some v ↔ (k, v) ∈ m.entries := by
  unfold get?
  have hasc := m.ascending
  generalize m.entries = entries at hasc
  induction entries with
  | nil => simp
  | cons p l ih =>
    obtain ⟨hp, hl⟩ := List.pairwise_cons.mp hasc
    obtain ⟨k₀, v₀⟩ := p
    rw [List.lookup_cons]
    by_cases hk : k = k₀
    · subst hk
      have hnew : (k, v) ∉ l := fun hmem => Std.lt_irrefl (hp (k, v) hmem)
      simp [hnew, eq_comm]
    · have hb : (k == k₀) = false := by simpa using hk
      have htail := ih hl
      rw [hb, List.mem_cons, Prod.mk.injEq]
      simp [hk, htail]

/-- A map is determined by what it answers. -/
theorem ext_get? [LE κ] [Std.IsLinearOrder κ] [Std.LawfulOrderLT κ] {m m' : SortedMap κ ν}
    (h : ∀ k, m.get? k = m'.get? k) : m = m' := by
  have hmem : ∀ p, p ∈ m.entries ↔ p ∈ m'.entries := by
    rintro ⟨k, v⟩
    rw [← get?_eq_some_iff, ← get?_eq_some_iff, h]
  have hnodup : ∀ m : SortedMap κ ν, m.entries.Nodup := by
    intro m
    refine m.ascending.imp ?_
    intro p q hlt heq
    rw [heq] at hlt
    exact Std.lt_irrefl hlt
  have hperm : m.entries.Perm m'.entries :=
    (List.perm_ext_iff_of_nodup (hnodup m) (hnodup m')).mpr hmem
  have hentries : m.entries = m'.entries := by
    refine hperm.eq_of_pairwise ?_ m.ascending m'.ascending
    intro p q _ _ hpq hqp
    exact absurd (Std.lt_trans hpq hqp) Std.lt_irrefl
  cases m
  cases m'
  cases hentries
  rfl

def erase (m : SortedMap κ ν) (k : κ) : SortedMap κ ν :=
  ⟨m.entries.filter fun p => p.1 ≠ k, m.ascending.sublist List.filter_sublist⟩

theorem get?_erase (m : SortedMap κ ν) (k k' : κ) :
    (m.erase k).get? k' = if k' = k then none else m.get? k' :=
  lookup_filter_ne k k' m.entries

variable [DecidableLT κ] [LE κ] [Std.IsLinearOrder κ] [Std.LawfulOrderLT κ]

def insert (m : SortedMap κ ν) (k : κ) (v : ν) : SortedMap κ ν :=
  ⟨insertEntry k v m.entries, insertEntry_ascending k v m.ascending⟩

theorem get?_insert (m : SortedMap κ ν) (k : κ) (v : ν) (k' : κ) :
    (m.insert k v).get? k' = if k' = k then some v else m.get? k' :=
  lookup_insertEntry k v m.entries k'

section InsertAll
variable {α : Type} (key : α → κ) (val : α → ν)

/-- Insert the items of a list one by one. -/
def insertAll (m : SortedMap κ ν) (l : List α) : SortedMap κ ν :=
  l.foldl (fun m x => m.insert (key x) (val x)) m

variable {key val}

theorem get?_insertAll_of_forall_ne (m : SortedMap κ ν) {l : List α} {k : κ}
    (h : ∀ x ∈ l, key x ≠ k) : (m.insertAll key val l).get? k = m.get? k := by
  induction l generalizing m with
  | nil => rfl
  | cons x l ih =>
    obtain ⟨hx, hl⟩ := List.forall_mem_cons.mp h
    have hstep := ih (m.insert (key x) (val x)) hl
    rw [get?_insert, if_neg (Ne.symm hx)] at hstep
    exact hstep

/-- Items with equal keys must have equal values, or the last of them would win. -/
theorem get?_insertAll_of_mem (m : SortedMap κ ν) {l : List α}
    (h : ∀ x ∈ l, ∀ y ∈ l, key x = key y → val x = val y) {x : α} (hx : x ∈ l) :
    (m.insertAll key val l).get? (key x) = some (val x) := by
  induction l generalizing m x with
  | nil => cases hx
  | cons y l ih =>
    have hl : ∀ u ∈ l, ∀ w ∈ l, key u = key w → val u = val w := by
      intro u hu w hw
      exact h u (List.mem_cons_of_mem _ hu) w (List.mem_cons_of_mem _ hw)
    change ((m.insert (key y) (val y)).insertAll key val l).get? (key x) = _
    by_cases hlater : ∃ z ∈ l, key z = key x
    · obtain ⟨z, hz, hkey⟩ := hlater
      rw [← hkey, ← h z (List.mem_cons_of_mem _ hz) x hx hkey]
      exact ih _ hl hz
    · have hne : ∀ z ∈ l, key z ≠ key x := fun z hz hkey => hlater ⟨z, hz, hkey⟩
      have hxy : x = y := by
        rcases List.mem_cons.mp hx with hxy | hmem
        · exact hxy
        · exact absurd rfl (hne x hmem)
      rw [get?_insertAll_of_forall_ne _ hne, get?_insert, hxy, if_pos rfl]

end InsertAll
end SortedMap
end Dmtap.Lib
