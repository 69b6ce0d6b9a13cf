import Mathlib.Data.List.Basic
import Mathlib.Data.List.Nodup
import Mathlib.Logic.Relation

/-! Ledgers: numbered records under a clock. Every edit advances the clock and stamps what it
touches, and a dropped record leaves its number and the time behind. From that alone a reader that
knows the ledger as of some time can be brought up to date. -/
namespace Dmtap.Lib

structure Entry (ν : Type) where
  key : ℕ
  value : ν
  born : ℕ
  stamp : ℕ

structure Ledger (ν : Type) where
  nextKey : ℕ
  clock : ℕ
  live : List (Entry ν)
  gone : List (ℕ × ℕ)

namespace Ledger
variable {ν : Type}

def start : Ledger ν := ⟨1, 1, [], []⟩

def add (L : Ledger ν) (v : ν) : Ledger ν where
  nextKey := L.nextKey + 1
  clock := L.clock + 1
  live := L.live ++ [⟨L.nextKey, v, L.clock + 1, L.clock + 1⟩]
  gone := L.gone

def drop (L : Ledger ν) (i : ℕ) (e : Entry ν) : Ledger ν where
  nextKey := L.nextKey
  clock := L.clock + 1
  live := L.live.eraseIdx i
  gone := L.gone ++ [(e.key, L.clock + 1)]

def revise (L : Ledger ν) (i : ℕ) (v : ν) : Ledger ν where
  nextKey := L.nextKey
  clock := L.clock + 1
  live := L.live.modify i fun e => { e with value := v, stamp := L.clock + 1 }
  gone := L.gone

/-- One edit; `rel` says what a revision may do to a value. -/
inductive Edit (rel : ν → ν → Prop) (L : Ledger ν) : Ledger ν → Prop
  | add (v : ν) : Edit rel L (L.add v)
  | drop (i : ℕ) (e : Entry ν) (h : L.live[i]? = some e) : Edit rel L (L.drop i e)
  | revise (i : ℕ) (e : Entry ν) (v : ν) (h : L.live[i]? = some e) (hrel : rel e.value v) :
    Edit rel L (L.revise i v)

abbrev Edits (rel : ν → ν → Prop) : Ledger ν → Ledger ν → Prop :=
  Relation.ReflTransGen (Edit rel)

/-- What every ledger keeps that grew from the start by edits. -/
structure WellFormed (L : Ledger ν) : Prop where
  ascending : L.live.Pairwise fun e e' => e.key < e'.key
  bounds : ∀ e ∈ L.live, 1 ≤ e.key ∧ e.key < L.nextKey ∧ 1 < e.born ∧ e.born ≤ e.stamp ∧
    e.stamp ≤ L.clock
  goneAscending : L.gone.Pairwise fun p p' => p.2 < p'.2
  goneBounds : ∀ p ∈ L.gone, 1 ≤ p.1 ∧ p.1 < L.nextKey ∧ 1 < p.2 ∧ p.2 ≤ L.clock
  goneDistinct : L.gone.Pairwise fun p p' => p.1 ≠ p'.1
  apart : ∀ p ∈ L.gone, ∀ e ∈ L.live, p.1 ≠ e.key
  count : L.nextKey = 1 + L.live.length + L.gone.length
  clock_pos : 1 ≤ L.clock

theorem wellFormed_start : (start : Ledger ν).WellFormed where
  ascending := List.Pairwise.nil
  bounds := by simp [start]
  goneAscending := List.Pairwise.nil
  goneBounds := by simp [start]
  goneDistinct := List.Pairwise.nil
  apart := by simp [start]
  count := rfl
  clock_pos := Nat.le_refl 1

/-- A revised list holds the old entries, except for the revised one. -/
theorem mem_revise {L : Ledger ν} {i : ℕ} {v : ν} {e' : Entry ν}
    (h : e' ∈ (L.revise i v).live) : e' ∈ L.live ∨
      ∃ e, L.live[i]? = some e ∧ e' = { e with value := v, stamp := L.clock + 1 } := by
  obtain ⟨j, hj⟩ := List.mem_iff_getElem?.mp h
  change (L.live.modify i _)[j]? = some e' at hj
  rw [List.getElem?_modify] at hj
  obtain ⟨e, he, heq⟩ := Option.map_eq_some_iff.mp hj
  by_cases hij : i = j
  · subst hij
    rw [if_pos rfl] at heq
    exact Or.inr ⟨e, he, heq.symm⟩
  · rw [if_neg hij] at heq
    subst heq
    exact Or.inl (List.mem_of_getElem? he)

/-- The keys of a revised list are the old ones. -/
theorem map_key_revise (L : Ledger ν) (i : ℕ) (v : ν) :
    (L.revise i v).live.map Entry.key = L.live.map Entry.key := by
  apply List.ext_getElem?
  intro j
  change ((L.live.modify i _).map _)[j]? = _
  rw [List.getElem?_map, List.getElem?_modify, List.getElem?_map]
  cases L.live[j]? with
  | none => rfl
  | some e =>
    by_cases hij : i = j
    · simp [hij]
    · simp [hij]

section Step
variable {rel : ν → ν → Prop} {L L' : Ledger ν}

/-- Records at different positions have different keys. -/
theorem WellFormed.key_ne (hL : L.WellFormed) {i j : ℕ} {e e' : Entry ν}
    (hi : L.live[i]? = some e) (hj : L.live[j]? = some e') (hij : i ≠ j) : e.key ≠ e'.key := by
  obtain ⟨hilen, rfl⟩ := List.getElem?_eq_some_iff.mp hi
  obtain ⟨hjlen, rfl⟩ := List.getElem?_eq_some_iff.mp hj
  have hasc := List.pairwise_iff_getElem.mp hL.ascending
  rcases Nat.lt_or_gt_of_ne hij with hlt | hgt
  · exact Nat.ne_of_lt (hasc i j hilen hjlen hlt)
  · exact Nat.ne_of_gt (hasc j i hjlen hilen hgt)

theorem WellFormed.add (hL : L.WellFormed) (v : ν) : (L.add v).WellFormed where
  ascending := by
    change (L.live ++ [_]).Pairwise _
    rw [List.pairwise_append]
    refine ⟨hL.ascending, List.pairwise_singleton _ _, ?_⟩
    intro e he e' he'
    rw [List.mem_singleton.mp he']
    exact (hL.bounds e he).2.1
  bounds := by
    intro e he
    have hclock := hL.clock_pos
    have hcount := hL.count
    change e.key ≥ 1 ∧ e.key < L.nextKey + 1 ∧ 1 < e.born ∧ e.born ≤ e.stamp ∧
      e.stamp ≤ L.clock + 1
    rcases List.mem_append.mp he with he | he
    · have hb := hL.bounds e he
      omega
    · rw [List.mem_singleton.mp he]
      dsimp only
      omega
  goneAscending := hL.goneAscending
  goneBounds := by
    intro p hp
    have hb := hL.goneBounds p hp
    change 1 ≤ p.1 ∧ p.1 < L.nextKey + 1 ∧ 1 < p.2 ∧ p.2 ≤ L.clock + 1
    omega
  goneDistinct := hL.goneDistinct
  apart := by
    intro p hp e he
    rcases List.mem_append.mp he with he | he
    · exact hL.apart p hp e he
    · rw [List.mem_singleton.mp he]
      exact Nat.ne_of_lt (hL.goneBounds p hp).2.1
  count := by
    have hcount := hL.count
    change L.nextKey + 1 = 1 + (L.live ++ [_]).length + L.gone.length
    rw [List.length_append, List.length_singleton]
    omega
  clock_pos := Nat.le_add_left 1 L.clock

theorem WellFormed.drop (hL : L.WellFormed) {i : ℕ} {e : Entry ν} (h : L.live[i]? = some e) :
    (L.drop i e).WellFormed where
  ascending := hL.ascending.sublist (List.eraseIdx_sublist _ _)
  bounds := by
    intro x hx
    have hb := hL.bounds x (List.mem_of_mem_eraseIdx hx)
    change 1 ≤ x.key ∧ x.key < L.nextKey ∧ 1 < x.born ∧ x.born ≤ x.stamp ∧ x.stamp ≤ L.clock + 1
    omega
  goneAscending := by
    change (L.gone ++ [_]).Pairwise _
    rw [List.pairwise_append]
    refine ⟨hL.goneAscending, List.pairwise_singleton _ _, ?_⟩
    intro p hp p' hp'
    rw [List.mem_singleton.mp hp']
    exact Nat.lt_succ_of_le (hL.goneBounds p hp).2.2.2
  goneBounds := by
    intro p hp
    have hclock := hL.clock_pos
    change 1 ≤ p.1 ∧ p.1 < L.nextKey ∧ 1 < p.2 ∧ p.2 ≤ L.clock + 1
    rcases List.mem_append.mp hp with hp | hp
    · have hb := hL.goneBounds p hp
      omega
    · have hb := hL.bounds e (List.mem_of_getElem? h)
      rw [List.mem_singleton.mp hp]
      dsimp only
      omega
  goneDistinct := by
    change (L.gone ++ [_]).Pairwise _
    rw [List.pairwise_append]
    refine ⟨hL.goneDistinct, List.pairwise_singleton _ _, ?_⟩
    intro p hp p' hp'
    rw [List.mem_singleton.mp hp']
    exact hL.apart p hp e (List.mem_of_getElem? h)
  apart := by
    intro p hp x hx
    rcases List.mem_append.mp hp with hp | hp
    · exact hL.apart p hp x (List.mem_of_mem_eraseIdx hx)
    · rw [List.mem_singleton.mp hp]
      obtain ⟨j, hji, hj⟩ := List.mem_eraseIdx_iff_getElem?.mp hx
      exact hL.key_ne h hj hji.symm
  count := by
    have hcount := hL.count
    obtain ⟨hi, -⟩ := List.getElem?_eq_some_iff.mp h
    change L.nextKey = 1 + (L.live.eraseIdx i).length + (L.gone ++ [_]).length
    rw [List.length_eraseIdx_of_lt hi, List.length_append, List.length_singleton]
    omega
  clock_pos := Nat.le_add_left 1 L.clock

theorem WellFormed.revise (hL : L.WellFormed) (i : ℕ) (v : ν) : (L.revise i v).WellFormed where
  ascending := by
    have hasc : (L.live.map Entry.key).Pairwise (· < ·) := List.pairwise_map.mpr hL.ascending
    rw [← map_key_revise L i v] at hasc
    exact List.pairwise_map.mp hasc
  bounds := by
    intro x hx
    change 1 ≤ x.key ∧ x.key < L.nextKey ∧ 1 < x.born ∧ x.born ≤ x.stamp ∧ x.stamp ≤ L.clock + 1
    rcases mem_revise hx with hx | ⟨e, he, rfl⟩
    · have hb := hL.bounds x hx
      omega
    · have hb := hL.bounds e (List.mem_of_getElem? he)
      dsimp only
      omega
  goneAscending := hL.goneAscending
  goneBounds := by
    intro p hp
    have hb := hL.goneBounds p hp
    change 1 ≤ p.1 ∧ p.1 < L.nextKey ∧ 1 < p.2 ∧ p.2 ≤ L.clock + 1
    omega
  goneDistinct := hL.goneDistinct
  apart := by
    intro p hp x hx
    rcases mem_revise hx with hx | ⟨e, he, rfl⟩
    · exact hL.apart p hp x hx
    · exact hL.apart p hp e (List.mem_of_getElem? he)
  count := by
    have hcount := hL.count
    change L.nextKey = 1 + (L.live.modify i _).length + L.gone.length
    rw [List.length_modify]
    exact hcount
  clock_pos := Nat.le_add_left 1 L.clock

theorem Edit.wellFormed (h : Edit rel L L') (hL : L.WellFormed) : L'.WellFormed := by
  cases h with
  | add v => exact hL.add v
  | drop i e h => exact hL.drop h
  | revise i e v h hrel => exact hL.revise i v

theorem Edits.wellFormed (h : Edits rel L L') (hL : L.WellFormed) : L'.WellFormed := by
  induction h with
  | refl => exact hL
  | tail _ hstep ih => exact hstep.wellFormed ih

end Step

/-- How a later ledger stands to an earlier one. -/
structure Since (rel : ν → ν → Prop) (L L' : Ledger ν) : Prop where
  nextKey_le : L.nextKey ≤ L'.nextKey
  clock_le : L.clock ≤ L'.clock
  kept : ∀ e ∈ L'.live, e.stamp ≤ L.clock → e ∈ L.live
  accounted : ∀ e ∈ L.live,
    (∃ e' ∈ L'.live, e'.key = e.key ∧ e'.born = e.born ∧ rel e.value e'.value) ∨
      ∃ t, (e.key, t) ∈ L'.gone ∧ L.clock < t
  origin : ∀ e' ∈ L'.live, e'.born ≤ L.clock → ∃ e ∈ L.live, e.key = e'.key ∧ e.born = e'.born
  remembered : ∀ p ∈ L'.gone, p ∈ L.gone ∨ L.clock < p.2

section Since
variable {rel : ν → ν → Prop} {L L' L'' : Ledger ν}

theorem Since.refl [Std.Refl rel] (L : Ledger ν) : Since rel L L where
  nextKey_le := Nat.le_refl _
  clock_le := Nat.le_refl _
  kept := fun _ he _ => he
  accounted := fun e he => Or.inl ⟨e, he, rfl, rfl, Std.Refl.refl e.value⟩
  origin := fun e he _ => ⟨e, he, rfl, rfl⟩
  remembered := fun _ hp => Or.inl hp

theorem Since.add (h : Since rel L L') (v : ν) : Since rel L (L'.add v) where
  nextKey_le := Nat.le_succ_of_le h.nextKey_le
  clock_le := Nat.le_succ_of_le h.clock_le
  kept := by
    intro e he hstamp
    rcases List.mem_append.mp he with he | he
    · exact h.kept e he hstamp
    · have hclock := h.clock_le
      rw [List.mem_singleton.mp he] at hstamp
      dsimp only at hstamp
      omega
  accounted := by
    intro e he
    rcases h.accounted e he with ⟨e', he', hrest⟩ | hgone
    · exact Or.inl ⟨e', List.mem_append_left _ he', hrest⟩
    · exact Or.inr hgone
  origin := by
    intro e he hborn
    rcases List.mem_append.mp he with he | he
    · exact h.origin e he hborn
    · have hclock := h.clock_le
      rw [List.mem_singleton.mp he] at hborn
      dsimp only at hborn
      omega
  remembered := h.remembered

theorem Since.drop (h : Since rel L L') {i : ℕ} {e : Entry ν} (hi : L'.live[i]? = some e) :
    Since rel L (L'.drop i e) where
  nextKey_le := h.nextKey_le
  clock_le := Nat.le_succ_of_le h.clock_le
  kept := fun x hx hstamp => h.kept x (List.mem_of_mem_eraseIdx hx) hstamp
  accounted := by
    intro x hx
    rcases h.accounted x hx with ⟨x', hx', hkey, hborn, hrel⟩ | ⟨t, ht, hlt⟩
    · obtain ⟨j, hj⟩ := List.mem_iff_getElem?.mp hx'
      by_cases hji : j = i
      · subst hji
        have hxe : x' = e := Option.some.inj (hj.symm.trans hi)
        right
        refine ⟨L'.clock + 1, ?_, Nat.lt_succ_of_le h.clock_le⟩
        rw [← hkey, hxe]
        exact List.mem_append_right _ (List.mem_singleton_self _)
      · exact Or.inl ⟨x', List.mem_eraseIdx_iff_getElem?.mpr ⟨j, hji, hj⟩, hkey, hborn, hrel⟩
    · exact Or.inr ⟨t, List.mem_append_left _ ht, hlt⟩
  origin := fun x hx hborn => h.origin x (List.mem_of_mem_eraseIdx hx) hborn
  remembered := by
    intro p hp
    rcases List.mem_append.mp hp with hp | hp
    · exact h.remembered p hp
    · rw [List.mem_singleton.mp hp]
      exact Or.inr (Nat.lt_succ_of_le h.clock_le)

theorem Since.revise [IsTrans ν rel] (h : Since rel L L') {i : ℕ} {e : Entry ν} {v : ν}
    (hi : L'.live[i]? = some e) (hrel : rel e.value v) : Since rel L (L'.revise i v) where
  nextKey_le := h.nextKey_le
  clock_le := Nat.le_succ_of_le h.clock_le
  kept := by
    intro x hx hstamp
    rcases mem_revise hx with hx | ⟨x', hx', rfl⟩
    · exact h.kept x hx hstamp
    · have hclock := h.clock_le
      dsimp only at hstamp
      omega
  accounted := by
    intro x hx
    rcases h.accounted x hx with ⟨x', hx', hkey, hborn, hx'rel⟩ | hgone
    · left
      obtain ⟨j, hj⟩ := List.mem_iff_getElem?.mp hx'
      by_cases hij : i = j
      · subst hij
        have hxe : x' = e := Option.some.inj (hj.symm.trans hi)
        subst hxe
        refine ⟨{ x' with value := v, stamp := L'.clock + 1 }, ?_, hkey, hborn,
          IsTrans.trans _ _ _ hx'rel hrel⟩
        apply List.mem_of_getElem? (i := i)
        change (L'.live.modify i _)[i]? = _
        simp [hj]
      · refine ⟨x', ?_, hkey, hborn, hx'rel⟩
        apply List.mem_of_getElem? (i := j)
        change (L'.live.modify i _)[j]? = _
        simp [hj, hij]
    · exact Or.inr hgone
  origin := by
    intro x hx hborn
    rcases mem_revise hx with hx | ⟨x', hx', rfl⟩
    · exact h.origin x hx hborn
    · exact h.origin x' (List.mem_of_getElem? hx') hborn
  remembered := h.remembered

theorem Since.edit [IsTrans ν rel] (h : Since rel L L') (hstep : Edit rel L' L'') :
    Since rel L L'' := by
  cases hstep with
  | add v => exact h.add v
  | drop i e hi => exact h.drop hi
  | revise i e v hi hrel => exact h.revise hi hrel

theorem Edits.since [Std.Refl rel] [IsTrans ν rel] (h : Edits rel L L') : Since rel L L' := by
  induction h with
  | refl => exact Since.refl L
  | tail _ hstep ih => exact ih.edit hstep

end Since

section CatchUp
variable {rel : ν → ν → Prop} {L L' : Ledger ν}

/-- What a reader knows: the value under each key. -/
def view (L : Ledger ν) (k : ℕ) : Option ν := (L.live.find? fun e => e.key = k).map Entry.value

theorem WellFormed.eq_of_key (hL : L.WellFormed) {e e' : Entry ν} (he : e ∈ L.live)
    (he' : e' ∈ L.live) (hkey : e.key = e'.key) : e = e' := by
  obtain ⟨i, hi⟩ := List.mem_iff_getElem?.mp he
  obtain ⟨j, hj⟩ := List.mem_iff_getElem?.mp he'
  by_cases hij : i = j
  · subst hij
    exact Option.some.inj (hi.symm.trans hj)
  · exact absurd hkey (hL.key_ne hi hj hij)

theorem WellFormed.view_of_mem (hL : L.WellFormed) {e : Entry ν} (he : e ∈ L.live) :
    L.view e.key = some e.value := by
  unfold view
  cases hfind : L.live.find? fun x => x.key = e.key with
  | none =>
    have hnone := List.find?_eq_none.mp hfind e he
    simp at hnone
  | some x =>
    have hkey : x.key = e.key := by simpa using List.find?_some hfind
    rw [Option.map_some, hL.eq_of_key (List.mem_of_find?_eq_some hfind) he hkey]

theorem view_eq_none_iff {k : ℕ} : L.view k = none ↔ ∀ e ∈ L.live, e.key ≠ k := by
  unfold view
  rw [Option.map_eq_none_iff, List.find?_eq_none]
  simp

/-- A key whose record went away since then holds nothing now. -/
theorem WellFormed.view_of_gone (hL : L.WellFormed) {p : ℕ × ℕ} (hp : p ∈ L.gone) :
    L.view p.1 = none :=
  view_eq_none_iff.mpr fun e he hkey => hL.apart p hp e he hkey.symm

/-- A key that is neither among the later stamps nor among the later departures holds what it
held. -/
theorem Since.view_eq (h : Since rel L L') (hL : L.WellFormed) {k : ℕ}
    (hchanged : ∀ e ∈ L'.live, L.clock < e.stamp → e.key ≠ k)
    (hgone : ∀ p ∈ L'.gone, L.clock < p.2 → p.1 ≠ k) : L'.view k = L.view k := by
  cases hview : L'.view k with
  | some v =>
    obtain ⟨e, hfind, rfl⟩ := Option.map_eq_some_iff.mp hview
    have hmem := List.mem_of_find?_eq_some hfind
    have hkey : e.key = k := by simpa using List.find?_some hfind
    have hstamp : e.stamp ≤ L.clock := by
      by_contra hlt
      exact hchanged e hmem (by omega) hkey
    have hold := h.kept e hmem hstamp
    rw [← hkey, hL.view_of_mem hold]
  | none =>
    have hnone := view_eq_none_iff.mp hview
    symm
    rw [view_eq_none_iff]
    intro e he hkey
    rcases h.accounted e he with ⟨e', he', hkey', -⟩ | ⟨t, ht, hlt⟩
    · exact hnone e' he' (hkey'.trans hkey)
    · exact hgone _ ht hlt hkey

end CatchUp
end Ledger
end Dmtap.Lib
