import Mathlib.Data.List.Nodup
import Mathlib.Data.List.Perm.Subperm
import Mathlib.Logic.Relation

/-! Disjoint sets as a list of parents. Two loops find a root: one climbs to it, the other hangs
what was passed below it. After some links the roots tell the classes of the equivalence that the
linked pairs generate. -/
namespace Dmtap.Lib
namespace UnionFind

/-- Follow the parents up to a root. Leaving the list faults, and so does a climb that is too long. -/
def climb (parent : List ℕ) : ℕ → ℕ → Option ℕ
  | 0, _ => none
  | fuel + 1, x =>
    match parent[x]? with
    | none => none
    | some p => if p = x then some x else climb parent fuel p

/-- Hang what is passed on the way from `x` to its root `r` below the root. -/
def compress (r : ℕ) : ℕ → List ℕ → ℕ → Option (List ℕ)
  | 0, _, _ => none
  | fuel + 1, parent, x =>
    match parent[x]? with
    | none => none
    | some p => if p = r then some parent else compress r fuel (parent.set x r) p

/-- The root of an item, and the parents after the visit. -/
def find (parent : List ℕ) (x : ℕ) : Option (ℕ × List ℕ) := do
  let r ← climb parent parent.length x
  let parent ← compress r parent.length parent x
  some (r, parent)

/-- Link the classes of two items. -/
def link (parent : List ℕ) (x y : ℕ) : Option (List ℕ) := do
  let (rx, parent) ← find parent x
  let (ry, parent) ← find parent y
  some (if rx ≠ ry then parent.set rx ry else parent)

/-- The root of `x` is `r`, and `k` steps away. -/
inductive RootIn (parent : List ℕ) : ℕ → ℕ → ℕ → Prop
  | root {r : ℕ} (h : parent[r]? = some r) : RootIn parent 0 r r
  | step {k x p r : ℕ} (h : parent[x]? = some p) (hne : p ≠ x) (hp : RootIn parent k p r) :
    RootIn parent (k + 1) x r

def HasRoot (parent : List ℕ) (x r : ℕ) : Prop := ∃ k, RootIn parent k x r

section Root
variable {parent : List ℕ} {k x r : ℕ}

theorem RootIn.unique (h : RootIn parent k x r) {j r' : ℕ} (h' : RootIn parent j x r') :
    k = j ∧ r = r' := by
  induction h generalizing j with
  | root h =>
    cases h' with
    | root _ => exact ⟨rfl, rfl⟩
    | step hp hne _ => exact absurd (Option.some.inj (hp.symm.trans h)) hne
  | step h hne _ ih =>
    cases h' with
    | root hr => exact absurd (Option.some.inj (h.symm.trans hr)) hne
    | step hp _ hroot =>
      rw [← Option.some.inj (h.symm.trans hp)] at hroot
      obtain ⟨hk, hr⟩ := ih hroot
      exact ⟨congrArg Nat.succ hk, hr⟩

theorem RootIn.isRoot (h : RootIn parent k x r) : parent[r]? = some r := by
  induction h with
  | root h => exact h
  | step _ _ _ ih => exact ih

theorem RootIn.lt_length (h : RootIn parent k x r) : x < parent.length := by
  cases h with
  | root h => exact (List.getElem?_eq_some_iff.mp h).1
  | step h _ _ => exact (List.getElem?_eq_some_iff.mp h).1

theorem HasRoot.unique {r' : ℕ} (h : HasRoot parent x r) (h' : HasRoot parent x r') : r = r' := by
  obtain ⟨k, h⟩ := h
  obtain ⟨j, h'⟩ := h'
  exact (h.unique h').2

theorem HasRoot.isRoot (h : HasRoot parent x r) : parent[r]? = some r := by
  obtain ⟨k, h⟩ := h
  exact h.isRoot

theorem HasRoot.lt_length (h : HasRoot parent x r) : r < parent.length :=
  (List.getElem?_eq_some_iff.mp h.isRoot).1

theorem hasRoot_step {p : ℕ} (h : parent[x]? = some p) (hne : p ≠ x) (hp : HasRoot parent p r) :
    HasRoot parent x r := by
  obtain ⟨k, hp⟩ := hp
  exact ⟨k + 1, .step h hne hp⟩

/-- The items on a way to a root are distinct: each is nearer to the root than the one before. -/
theorem RootIn.exists_path (h : RootIn parent k x r) : ∃ path : List ℕ,
    path.length = k + 1 ∧ path.Nodup ∧ ∀ y ∈ path, ∃ j, j ≤ k ∧ RootIn parent j y r := by
  induction h with
  | @root r h =>
    refine ⟨[r], rfl, List.nodup_singleton r, ?_⟩
    intro y hy
    rw [List.mem_singleton.mp hy]
    exact ⟨0, Nat.le_refl _, .root h⟩
  | @step k x p r h hne hp ih =>
    obtain ⟨path, hlength, hdistinct, hnear⟩ := ih
    refine ⟨x :: path, by rw [List.length_cons, hlength], ?_, ?_⟩
    · refine List.nodup_cons.mpr ⟨fun hx => ?_, hdistinct⟩
      obtain ⟨j, hj, hroot⟩ := hnear x hx
      have heq := (RootIn.step h hne hp).unique hroot
      omega
    · intro y hy
      cases List.mem_cons.mp hy with
      | inl hyx =>
        rw [hyx]
        exact ⟨k + 1, Nat.le_refl _, .step h hne hp⟩
      | inr hy =>
        obtain ⟨j, hj, hroot⟩ := hnear y hy
        exact ⟨j, by omega, hroot⟩

/-- A way to a root is shorter than the list. -/
theorem RootIn.lt (h : RootIn parent k x r) : k < parent.length := by
  obtain ⟨path, hlength, hdistinct, hnear⟩ := h.exists_path
  have hsub : path ⊆ List.range parent.length := by
    intro y hy
    obtain ⟨j, -, hroot⟩ := hnear y hy
    exact List.mem_range.mpr hroot.lt_length
  have hle := (hdistinct.subperm hsub).length_le
  rw [List.length_range] at hle
  omega

theorem climb_of_rootIn (h : RootIn parent k x r) {fuel : ℕ} (hfuel : k < fuel) :
    climb parent fuel x = some r := by
  induction h generalizing fuel with
  | root h =>
    obtain ⟨fuel, rfl⟩ := Nat.exists_eq_add_one.mpr hfuel
    unfold climb
    rw [h]
    exact if_pos rfl
  | step h hne _ ih =>
    obtain ⟨fuel, rfl⟩ := Nat.exists_eq_add_one.mpr (by omega : 0 < fuel)
    unfold climb
    rw [h]
    exact (if_neg hne).trans (ih (by omega))

/-- A way that starts nearer to the root does not pass a farther item. -/
theorem RootIn.set_of_lt (h : RootIn parent k x r) {j y r' : ℕ} (hy : RootIn parent j y r')
    (hlt : k < j) (v : ℕ) : RootIn (parent.set y v) k x r := by
  induction h with
  | root h =>
    refine .root ?_
    rw [List.getElem?_set_ne, h]
    rintro rfl
    have heq := (RootIn.root h).unique hy
    omega
  | @step k x p r h hne hp ih =>
    refine .step ?_ hne (ih (by omega))
    rw [List.getElem?_set_ne, h]
    rintro rfl
    have heq := (RootIn.step h hne hp).unique hy
    omega

/-- Hanging an item below its own root changes no root. -/
theorem hasRoot_set_root {y r' : ℕ} (hy : HasRoot parent y r') (hx : HasRoot parent x r) :
    HasRoot (parent.set y r') x r := by
  have hroot : (parent.set y r')[r']? = some r' := by
    by_cases hyr : y = r'
    · rw [hyr, List.getElem?_set_self hy.lt_length]
    · rw [List.getElem?_set_ne hyr, hy.isRoot]
  have hself : HasRoot (parent.set y r') y r' := by
    have hlt : y < parent.length := by
      obtain ⟨k, hy⟩ := hy
      exact hy.lt_length
    by_cases hyr : y = r'
    · subst hyr
      exact ⟨0, .root hroot⟩
    · exact ⟨1, .step (List.getElem?_set_self hlt) (Ne.symm hyr) (.root hroot)⟩
  obtain ⟨k, hx⟩ := hx
  induction hx with
  | @root r h =>
    by_cases hry : r = y
    · subst hry
      rw [hy.unique ⟨0, .root h⟩] at hself ⊢
      exact hself
    · exact ⟨0, .root (by rw [List.getElem?_set_ne (Ne.symm hry), h])⟩
  | @step k x p r h hne hp ih =>
    by_cases hxy : x = y
    · subst hxy
      rw [hy.unique ⟨k + 1, .step h hne hp⟩] at hself ⊢
      exact hself
    · exact hasRoot_step (by rw [List.getElem?_set_ne (Ne.symm hxy), h]) hne ih

/-- Hanging a root below another one moves its class there. -/
theorem hasRoot_set_link {a b : ℕ} (ha : parent[a]? = some a) (hb : parent[b]? = some b)
    (hne : a ≠ b) (hx : HasRoot parent x r) :
    HasRoot (parent.set a b) x (if r = a then b else r) := by
  have hroot : ∀ {r}, parent[r]? = some r → r ≠ a → (parent.set a b)[r]? = some r := by
    intro r h hra
    rw [List.getElem?_set_ne (Ne.symm hra), h]
  have hmoved : HasRoot (parent.set a b) a b :=
    ⟨1, .step (List.getElem?_set_self (List.getElem?_eq_some_iff.mp ha).1) (Ne.symm hne)
      (.root (hroot hb (Ne.symm hne)))⟩
  obtain ⟨k, hx⟩ := hx
  induction hx with
  | @root r h =>
    by_cases hra : r = a
    · rw [if_pos hra, hra]
      exact hmoved
    · rw [if_neg hra]
      exact ⟨0, .root (hroot h hra)⟩
  | @step k x p r h hpx hp ih =>
    have hxa : x ≠ a := by
      rintro rfl
      exact hpx (Option.some.inj (h.symm.trans ha))
    exact hasRoot_step (by rw [List.getElem?_set_ne (Ne.symm hxa), h]) hpx ih

theorem compress_spec (h : RootIn parent k x r) {fuel : ℕ} (hfuel : k < fuel) :
    ∃ parent', compress r fuel parent x = some parent' ∧ parent'.length = parent.length ∧
      ∀ y s, HasRoot parent y s → HasRoot parent' y s := by
  induction fuel generalizing parent k x with
  | zero => exact absurd hfuel (Nat.not_lt_zero k)
  | succ fuel ih =>
    cases h with
    | root h =>
      refine ⟨parent, ?_, rfl, fun _ _ hy => hy⟩
      unfold compress
      rw [h]
      exact if_pos rfl
    | @step k x p r h hne hp =>
      unfold compress
      rw [h]
      dsimp only
      by_cases hpr : p = r
      · rw [if_pos hpr]
        exact ⟨parent, rfl, rfl, fun _ _ hy => hy⟩
      · rw [if_neg hpr]
        have hx : RootIn parent (k + 1) x r := .step h hne hp
        obtain ⟨parent', hcompress, hlength, hkeep⟩ :=
          ih (hp.set_of_lt hx (Nat.lt_succ_self k) r) (by omega)
        refine ⟨parent', hcompress, by rw [hlength, List.length_set], fun y s hy => ?_⟩
        exact hkeep y s (hasRoot_set_root ⟨k + 1, hx⟩ hy)

/-- Both loops come to an end, and no root changes. -/
theorem find_spec (h : HasRoot parent x r) :
    ∃ parent', find parent x = some (r, parent') ∧ parent'.length = parent.length ∧
      ∀ y s, HasRoot parent y s → HasRoot parent' y s := by
  obtain ⟨k, h⟩ := h
  obtain ⟨parent', hcompress, hspec⟩ := compress_spec h h.lt
  refine ⟨parent', ?_, hspec⟩
  unfold find
  rw [climb_of_rootIn h h.lt]
  exact congrArg (fun o : Option (List ℕ) => o.bind fun parent => some (r, parent)) hcompress

end Root

/-- The roots of `n` items are `root`, and tell the classes that the pairs of `E` generate. -/
structure Represents (n : ℕ) (E : ℕ → ℕ → Prop) (root : ℕ → ℕ) (parent : List ℕ) : Prop where
  length : parent.length = n
  rooted : ∀ x, x < n → HasRoot parent x (root x)
  same : ∀ x y, root x = root y ↔ Relation.EqvGen E x y

section Classes
variable {n : ℕ} {E : ℕ → ℕ → Prop} {root : ℕ → ℕ} {parent : List ℕ}

theorem represents_range (n : ℕ) : Represents n (fun _ _ => False) id (List.range n) where
  length := List.length_range
  rooted := fun x hx => ⟨0, .root (List.getElem?_range hx)⟩
  same := by
    intro x y
    constructor
    · intro h
      have hxy : x = y := h
      rw [hxy]
      exact .refl y
    · intro h
      induction h with
      | rel _ _ h => exact h.elim
      | refl _ => rfl
      | symm _ _ _ ih => exact ih.symm
      | trans _ _ _ _ _ ih ih' => exact ih.trans ih'

theorem Represents.congr {E' : ℕ → ℕ → Prop} (h : Represents n E root parent)
    (heq : ∀ x y, E x y ↔ E' x y) : Represents n E' root parent := by
  obtain rfl : E = E' := funext fun x => funext fun y => propext (heq x y)
  exact h

theorem Represents.find (h : Represents n E root parent) {x : ℕ} (hx : x < n) :
    ∃ parent', UnionFind.find parent x = some (root x, parent') ∧
      Represents n E root parent' := by
  obtain ⟨parent', hfind, hlength, hkeep⟩ := find_spec (h.rooted x hx)
  exact ⟨parent', hfind, hlength.trans h.length, fun y hy => hkeep y _ (h.rooted y hy), h.same⟩

/-- A map that keeps a relation keeps the equivalence it generates. -/
theorem eqvGen_map {α β : Type} {r : α → α → Prop} {s : β → β → Prop} {f : α → β}
    (h : ∀ x y, r x y → s (f x) (f y)) {x y : α} (hxy : Relation.EqvGen r x y) :
    Relation.EqvGen s (f x) (f y) := by
  induction hxy with
  | rel x y hr => exact .rel _ _ (h x y hr)
  | refl x => exact .refl _
  | symm _ _ _ ih => exact .symm _ _ ih
  | trans _ _ _ _ _ ih ih' => exact .trans _ _ _ ih ih'

theorem eqvGen_insert_iff {root' : ℕ → ℕ} {a b : ℕ}
    (hsame : ∀ x y, root x = root y ↔ Relation.EqvGen E x y)
    (hroot' : ∀ x, root' x = if root x = root a then root b else root x) (x y : ℕ) :
    root' x = root' y ↔ Relation.EqvGen (fun x y => E x y ∨ (x = a ∧ y = b)) x y := by
  have hmono : ∀ {x y}, root x = root y →
      Relation.EqvGen (fun x y => E x y ∨ (x = a ∧ y = b)) x y := fun h =>
    Relation.EqvGen.mono (fun _ _ => Or.inl) _ _ ((hsame _ _).mp h)
  have hedge : Relation.EqvGen (fun x y => E x y ∨ (x = a ∧ y = b)) a b :=
    .rel a b (Or.inr ⟨rfl, rfl⟩)
  constructor
  · intro h
    rw [hroot', hroot'] at h
    by_cases hx : root x = root a
    · by_cases hy : root y = root a
      · exact hmono (hx.trans hy.symm)
      · rw [if_pos hx, if_neg hy] at h
        exact .trans _ _ _ (hmono hx) (.trans _ _ _ hedge (hmono h))
    · by_cases hy : root y = root a
      · rw [if_neg hx, if_pos hy] at h
        exact .trans _ _ _ (hmono h) (.symm _ _ (.trans _ _ _ (hmono hy) hedge))
      · rw [if_neg hx, if_neg hy] at h
        exact hmono h
  · intro h
    induction h with
    | rel x y h =>
      cases h with
      | inl h => rw [hroot', hroot', (hsame x y).mpr (.rel x y h)]
      | inr h =>
        rw [h.1, h.2, hroot', hroot', if_pos rfl]
        split_ifs
        · rfl
        · rfl
    | refl _ => rfl
    | symm _ _ _ ih => exact ih.symm
    | trans _ _ _ _ _ ih ih' => exact ih.trans ih'

/-- A link succeeds and adds its pair. -/
theorem Represents.link (h : Represents n E root parent) {a b : ℕ} (ha : a < n) (hb : b < n) :
    ∃ root' parent', UnionFind.link parent a b = some parent' ∧
      Represents n (fun x y => E x y ∨ (x = a ∧ y = b)) root' parent' := by
  obtain ⟨parent₁, hfinda, h₁⟩ := h.find ha
  obtain ⟨parent₂, hfindb, h₂⟩ := h₁.find hb
  have heq : UnionFind.link parent a b =
      some (if root a ≠ root b then parent₂.set (root a) (root b) else parent₂) := by
    unfold UnionFind.link
    simp only [hfinda, hfindb, Option.bind_eq_bind, Option.bind_some]
  refine ⟨fun x => if root x = root a then root b else root x, _, heq, ?_⟩
  by_cases hab : root a = root b
  · rw [if_neg (not_not.mpr hab)]
    refine ⟨h₂.length, fun x hx => ?_, eqvGen_insert_iff h.same fun _ => rfl⟩
    have hsame : (if root x = root a then root b else root x) = root x := by
      split_ifs with hx
      · rw [hx, hab]
      · rfl
    rw [hsame]
    exact h₂.rooted x hx
  · rw [if_pos hab]
    refine ⟨by rw [List.length_set, h₂.length], fun x hx => ?_, eqvGen_insert_iff h.same fun _ => rfl⟩
    exact hasRoot_set_link (h₂.rooted a ha).isRoot (h₂.rooted b hb).isRoot hab (h₂.rooted x hx)

end Classes
end UnionFind
end Dmtap.Lib
