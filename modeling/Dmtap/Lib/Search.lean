import Mathlib.Data.List.Sort

/-! Binary search by halving a window of a list. The comparison says where the item looked at
stands, seen from the target; it must not fall back along the list. -/
namespace Dmtap.Lib

variable {α : Type}

/-- Halve a window of `size` items from `base` on until one is left. -/
def searchBase (f : α → Ordering) (xs : List α) : ℕ → ℕ → ℕ → ℕ
  | 0, base, _ => base
  | fuel + 1, base, size =>
    if size ≤ 1 then base
    else
      let half := size / 2
      let mid := base + half
      let base := if xs[mid]?.map f = some .gt then base else mid
      searchBase f xs fuel base (size - half)

/-- The index of an item that compares equal. -/
def binarySearchBy (f : α → Ordering) (xs : List α) : Option ℕ :=
  let base := searchBase f xs xs.length 0 xs.length
  if xs[base]?.map f = some .eq then some base else none

/-- The number of items in front of the first that fails `p`. -/
def partitionPoint (p : α → Bool) (xs : List α) : ℕ :=
  let base := searchBase (fun x => if p x then .lt else .gt) xs xs.length 0 xs.length
  match xs[base]? with
  | none => 0
  | some x => if p x then base + 1 else base

section
variable {f : α → Ordering} {xs : List α}

theorem binarySearchBy_sound {i : ℕ} (h : binarySearchBy f xs = some i) :
    ∃ x, xs[i]? = some x ∧ f x = .eq := by
  unfold binarySearchBy at h
  dsimp only at h
  split_ifs at h with heq
  cases h
  exact Option.map_eq_some_iff.mp heq

/-- The window never loses an item that compares equal when everything behind it compares
greater. -/
theorem searchBase_eq {k : ℕ} (hk : xs[k]?.map f = some .eq)
    (hafter : ∀ j x, k < j → xs[j]? = some x → f x = .gt) (fuel : ℕ) {base size : ℕ}
    (hfuel : size ≤ fuel) (hbase : base ≤ k) (hsize : k < base + size)
    (hlen : base + size ≤ xs.length)
    (hbefore : ∀ j x, j < k → xs[j]? = some x → f x = .lt) :
    searchBase f xs fuel base size = k := by
  induction fuel generalizing base size with
  | zero => omega
  | succ fuel ih =>
    unfold searchBase
    by_cases hone : size ≤ 1
    · rw [if_pos hone]
      omega
    · rw [if_neg hone]
      dsimp only
      have hmid : base + size / 2 < xs.length := by omega
      have hget : xs[base + size / 2]? = some xs[base + size / 2] := List.getElem?_eq_getElem hmid
      rcases Nat.lt_trichotomy (base + size / 2) k with hlt | heq | hgt
      · have hf := hbefore _ _ hlt hget
        rw [hget, Option.map_some, hf, if_neg (by simp)]
        exact ih (by omega) (by omega) (by omega) (by omega)
      · rw [heq, hk, if_neg (by simp)]
        exact ih (by omega) (by omega) (by omega) (by omega)
      · have hf := hafter _ _ hgt hget
        rw [hget, Option.map_some, hf, if_pos rfl]
        exact ih (by omega) (by omega) (by omega) (by omega)

theorem searchBase_lt (f : α → Ordering) (xs : List α) (fuel base size : ℕ) (hsize : 0 < size) :
    searchBase f xs fuel base size < base + size := by
  induction fuel generalizing base size with
  | zero =>
    unfold searchBase
    omega
  | succ fuel ih =>
    unfold searchBase
    by_cases hone : size ≤ 1
    · rw [if_pos hone]
      omega
    · rw [if_neg hone]
      dsimp only
      have hhalf : 0 < size - size / 2 := by omega
      split_ifs
      · have hlt := ih base _ hhalf
        omega
      · have hlt := ih (base + size / 2) _ hhalf
        omega

/-- Where no item compares greater in front of one that does not, the window closes in on the last
one that does not. -/
theorem searchBase_bound
    (hmono : ∀ (i j : ℕ) (x y : α), i < j → xs[i]? = some x → xs[j]? = some y → f x = .gt →
      f y = .gt) (fuel base size : ℕ) (hfuel : size ≤ fuel) (hlen : base + size ≤ xs.length)
    (hbase : base = 0 ∨ ∀ x, xs[base]? = some x → f x ≠ .gt)
    (hafter : ∀ j x, base + size ≤ j → xs[j]? = some x → f x = .gt) :
    (searchBase f xs fuel base size = 0 ∨
      ∀ x, xs[searchBase f xs fuel base size]? = some x → f x ≠ .gt) ∧
    ∀ j x, searchBase f xs fuel base size < j → xs[j]? = some x → f x = .gt := by
  induction fuel generalizing base size with
  | zero => exact ⟨hbase, fun j x hj => hafter j x (by unfold searchBase at hj; omega)⟩
  | succ fuel ih =>
    unfold searchBase
    by_cases hone : size ≤ 1
    · rw [if_pos hone]
      exact ⟨hbase, fun j x hj => hafter j x (by omega)⟩
    · rw [if_neg hone]
      dsimp only
      have hmid : base + size / 2 < xs.length := by omega
      have hget : xs[base + size / 2]? = some xs[base + size / 2] := List.getElem?_eq_getElem hmid
      by_cases hgt : xs[base + size / 2]?.map f = some .gt
      · rw [if_pos hgt]
        rw [hget, Option.map_some] at hgt
        refine ih _ _ (by omega) (by omega) hbase ?_
        intro j x hj hx
        rcases Nat.lt_or_ge (base + size / 2) j with hlt | hge
        · exact hmono _ _ _ _ hlt hget hx (Option.some.inj hgt)
        · have heq : j = base + size / 2 := by omega
          rw [heq, hget] at hx
          rw [← Option.some.inj hx]
          exact Option.some.inj hgt
      · rw [if_neg hgt]
        refine ih _ _ (by omega) (by omega) (Or.inr ?_) fun j x hj => hafter j x (by omega)
        intro x hx hfx
        rw [hx, Option.map_some, hfx] at hgt
        exact hgt rfl

end

/-- In front of the partition point are exactly the items that satisfy `p`, if none does behind
one that does not. -/
theorem lt_partitionPoint_iff {p : α → Bool} {xs : List α}
    (hmono : ∀ (i j : ℕ) (x y : α), i < j → xs[i]? = some x → xs[j]? = some y → p y = true →
      p x = true) {i : ℕ} {x : α} (hx : xs[i]? = some x) : i < partitionPoint p xs ↔ p x = true := by
  have hgt : ∀ y, (if p y then Ordering.lt else .gt) = .gt ↔ p y = false := by
    intro y
    cases p y with
    | true => exact ⟨nofun, nofun⟩
    | false => exact ⟨fun _ => rfl, fun _ => rfl⟩
  obtain ⟨hbase, hafter⟩ := searchBase_bound (f := fun x => if p x then .lt else .gt)
    (fun i j y z hij hy hz hfy => by
      rw [hgt] at hfy ⊢
      cases hpz : p z with
      | false => rfl
      | true => rw [hmono i j y z hij hy hz hpz] at hfy; exact hfy)
    xs.length 0 xs.length (Nat.le_refl _) (by omega) (Or.inl rfl)
    (fun j y hj hy => by rw [List.getElem?_eq_none (by omega)] at hy; cases hy)
  have hi : i < xs.length := (List.getElem?_eq_some_iff.mp hx).1
  have hlt := searchBase_lt (fun x => if p x then .lt else .gt) xs xs.length 0 xs.length (by omega)
  unfold partitionPoint
  dsimp only
  generalize searchBase (fun x => if p x then .lt else .gt) xs xs.length 0 xs.length = base
    at hbase hafter hlt
  have hget : xs[base]? = some xs[base] := List.getElem?_eq_getElem (by omega)
  have hbehind : ∀ j y, base < j → xs[j]? = some y → p y = false := fun j y hj hy =>
    (hgt y).mp (hafter j y hj hy)
  rw [hget]
  dsimp only
  by_cases hp : p xs[base] = true
  · rw [if_pos hp]
    constructor
    · intro hle
      rcases Nat.lt_or_ge i base with hib | hib
      · exact hmono i base x _ hib hx hget hp
      · have heq : i = base := by omega
        rw [heq, hget] at hx
        rw [← Option.some.inj hx]
        exact hp
    · intro hpx
      by_contra hge
      rw [hbehind i x (by omega) hx] at hpx
      cases hpx
  · rw [if_neg hp]
    have hzero : base = 0 := by
      rcases hbase with hzero | hbase
      · exact hzero
      · exact absurd ((hgt _).mpr (Bool.not_eq_true _ ▸ hp)) (hbase _ hget)
    constructor
    · intro hle
      omega
    · intro hpx
      rcases Nat.eq_zero_or_pos i with hi0 | hi0
      · rw [hi0, ← hzero, hget] at hx
        rw [← Option.some.inj hx] at hpx
        exact absurd hpx hp
      · rw [hbehind i x (by omega) hx] at hpx
        cases hpx

/-- A walk along a list stops behind the items that satisfy `p`, if none does behind one that does
not. -/
theorem lt_length_takeWhile_iff {p : α → Bool} {xs : List α}
    (hmono : xs.Pairwise fun x y => p y = true → p x = true) {i : ℕ} :
    i < (xs.takeWhile p).length ↔ ∃ x, xs[i]? = some x ∧ p x = true := by
  induction xs generalizing i with
  | nil => simp
  | cons x xs ih =>
    obtain ⟨hx, hxs⟩ := List.pairwise_cons.mp hmono
    cases hp : p x with
    | true =>
      rw [List.takeWhile_cons_of_pos hp, List.length_cons]
      cases i with
      | zero => simp [hp]
      | succ i =>
        rw [List.getElem?_cons_succ, ← ih hxs]
        omega
    | false =>
      rw [List.takeWhile_cons_of_neg (by rw [hp]; exact Bool.false_ne_true)]
      constructor
      · exact fun h => nomatch h
      · rintro ⟨y, hy, hpy⟩
        rcases List.mem_cons.mp (List.mem_of_getElem? hy) with rfl | hmem
        · rw [hp] at hpy
          cases hpy
        · rw [hx y hmem hpy] at hp
          cases hp

/-- Where the keys ascend, binary search finds exactly the item with the key. -/
theorem binarySearchBy_compare {key : α → ℕ} {xs : List α}
    (hasc : xs.Pairwise (fun a b => key a < key b)) (u i : ℕ) :
    binarySearchBy (fun x => compare (key x) u) xs = some i ↔ xs[i]?.map key = some u := by
  constructor
  · intro h
    obtain ⟨x, hx, heq⟩ := binarySearchBy_sound h
    rw [hx, Option.map_some, Nat.compare_eq_eq.mp heq]
  · intro h
    obtain ⟨x, hx, hkey⟩ := Option.map_eq_some_iff.mp h
    obtain ⟨hi, hxi⟩ := List.getElem?_eq_some_iff.mp hx
    have hk : xs[i]?.map (fun x => compare (key x) u) = some .eq := by
      rw [hx, Option.map_some, Nat.compare_eq_eq.mpr hkey]
    have hafter : ∀ j y, i < j → xs[j]? = some y → compare (key y) u = .gt := by
      intro j y hij hy
      obtain ⟨hj, hyj⟩ := List.getElem?_eq_some_iff.mp hy
      have hlt := List.pairwise_iff_getElem.mp hasc i j hi hj hij
      rw [hxi, hyj, hkey] at hlt
      exact Nat.compare_eq_gt.mpr hlt
    have hbefore : ∀ j y, j < i → xs[j]? = some y → compare (key y) u = .lt := by
      intro j y hji hy
      obtain ⟨hj, hyj⟩ := List.getElem?_eq_some_iff.mp hy
      have hlt := List.pairwise_iff_getElem.mp hasc j i hj hi hji
      rw [hxi, hyj, hkey] at hlt
      exact Nat.compare_eq_lt.mpr hlt
    have hbase := searchBase_eq hk hafter xs.length (Nat.le_refl _) (Nat.zero_le i) (by omega)
      (by omega) hbefore
    unfold binarySearchBy
    dsimp only
    rw [hbase, hk, if_pos rfl]

section Keys
variable {key : α → ℕ} {xs : List α}

/-- Where the keys ascend, removing the item with a key is filtering the key out. -/
theorem eraseIdx_eq_filter (hasc : xs.Pairwise fun a b => key a < key b) {u i : ℕ}
    (h : xs[i]?.map key = some u) : xs.eraseIdx i = xs.filter fun x => key x ≠ u := by
  induction xs generalizing i with
  | nil => exact nomatch h
  | cons x xs ih =>
    obtain ⟨hx, hxs⟩ := List.pairwise_cons.mp hasc
    cases i with
    | zero =>
      have hkey : key x = u := Option.some.inj h
      have hkeep : ∀ y ∈ xs, decide (key y ≠ u) = true := by
        intro y hy
        have hlt := hx y hy
        exact decide_eq_true (by omega)
      rw [List.filter_cons_of_neg (by simp [hkey]), List.filter_eq_self.mpr hkeep]
      rfl
    | succ i =>
      rw [List.getElem?_cons_succ] at h
      obtain ⟨y, hy, hkey⟩ := Option.map_eq_some_iff.mp h
      have hlt := hx y (List.mem_of_getElem? hy)
      have hne : key x ≠ u := by omega
      rw [List.eraseIdx_cons_succ, ih hxs h, List.filter_cons_of_pos (by simp [hne])]

/-- The keys on a list that some item has are the keys of the items that the list names. -/
theorem filter_mem_map_eq (hasc : xs.Pairwise fun a b => key a < key b) {us : List ℕ}
    (hus : us.Pairwise (· < ·)) :
    (us.filter fun u => u ∈ xs.map key) = (xs.filter fun x => key x ∈ us).map key := by
  have hkeys : ((xs.filter fun x => key x ∈ us).map key).Pairwise (· < ·) :=
    List.pairwise_map.mpr (hasc.sublist List.filter_sublist)
  refine List.Perm.eq_of_pairwise (fun a b _ _ hab hba => absurd hab (Nat.lt_asymm hba))
    (hus.sublist List.filter_sublist) hkeys ?_
  refine (List.perm_ext_iff_of_nodup (hus.sublist List.filter_sublist).nodup hkeys.nodup).mpr ?_
  intro u
  rw [List.mem_filter, decide_eq_true_eq, List.mem_map, List.mem_map]
  constructor
  · rintro ⟨hu, x, hx, rfl⟩
    exact ⟨x, List.mem_filter.mpr ⟨hx, decide_eq_true hu⟩, rfl⟩
  · rintro ⟨x, hx, rfl⟩
    obtain ⟨hmem, hu⟩ := List.mem_filter.mp hx
    exact ⟨of_decide_eq_true hu, x, hmem, rfl⟩

end Keys

end Dmtap.Lib
