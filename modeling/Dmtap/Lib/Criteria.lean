import Mathlib.Data.List.Pairwise
import Mathlib.Data.List.Sort

/-! Comparison by several criteria, of which the first that tells two elements apart decides. A
criterion can fail on elements it cannot read. -/
namespace Dmtap.Lib

/-- A comparison that fails on some elements. -/
abbrev Criterion (α : Type) := α → α → Option Ordering

namespace Criterion
variable {α β : Type}

/-- Compare what elements stand for, where they stand for something. -/
def comap (key : β → Option α) (c : Criterion α) : Criterion β := fun a b => do
  let x ← key a
  let y ← key b
  c x y

/-- Compare by a key where both elements have one. -/
def on [Ord β] (key : α → Option β) : Criterion α := comap key fun x y => some (compare x y)

def reversed (c : Criterion α) : Criterion α := fun a b => (c a b).map Ordering.swap

def byFirst : List (Criterion α) → Criterion α
  | [], _, _ => some .eq
  | c :: cs, a, b => do
    let ord ← c a b
    if ord ≠ .eq then some ord else byFirst cs a b

/-- Whether some criterion is reached on which `p` holds, all criteria before it being tied. -/
def Reaches (p : Option Ordering → Prop) (cs : List (Criterion α)) (a b : α) : Prop :=
  ∃ done c left, cs = done ++ c :: left ∧ (∀ d ∈ done, d a b = some .eq) ∧ p (c a b)

/-- A criterion is lawful if it agrees with an order, where it does not fail, and fails on a pair
whichever element comes first. -/
structure Lawful (c : Criterion α) : Prop where
  agrees : ∃ cmp : α → α → Ordering, Std.TransCmp cmp ∧ ∀ a b o, c a b = some o → cmp a b = o
  fails : ∀ a b, c a b = none → c b a = none

section Reaches
variable {p : Option Ordering → Prop} {c : Criterion α} {cs : List (Criterion α)} {a b : α}

theorem not_reaches_nil : ¬Reaches p ([] : List (Criterion α)) a b := by
  rintro ⟨done, c, left, h, -⟩
  exact absurd h (by simp)

theorem reaches_cons_iff :
    Reaches p (c :: cs) a b ↔ p (c a b) ∨ (c a b = some .eq ∧ Reaches p cs a b) := by
  constructor
  · rintro ⟨done, d, left, h, htied, hp⟩
    cases done with
    | nil =>
      obtain ⟨rfl, rfl⟩ := List.cons.inj h
      exact Or.inl hp
    | cons e done =>
      obtain ⟨rfl, hcs⟩ := List.cons.inj h
      exact Or.inr ⟨htied c List.mem_cons_self,
        done, d, left, hcs, fun d hd => htied d (List.mem_cons_of_mem c hd), hp⟩
  · rintro (hp | ⟨htie, done, d, left, rfl, htied, hp⟩)
    · exact ⟨[], c, cs, rfl, fun d hd => (nomatch hd), hp⟩
    · refine ⟨c :: done, d, left, rfl, fun e he => ?_, hp⟩
      rcases List.mem_cons.mp he with rfl | he
      · exact htie
      · exact htied e he

/-- An answer other than a tie is that of the first criterion reached that gives it. -/
theorem byFirst_eq_iff {o : Option Ordering} (ho : o ≠ some .eq) :
    byFirst cs a b = o ↔ Reaches (· = o) cs a b := by
  induction cs with
  | nil => exact iff_of_false ho.symm not_reaches_nil
  | cons c cs ih =>
    rw [reaches_cons_iff, ← ih]
    rw [byFirst]
    cases c a b with
    | none => simp [eq_comm]
    | some ord =>
      by_cases htie : ord = .eq
      · simp [htie, ho.symm]
      · simp [htie]

theorem byFirst_eq_tie_iff : byFirst cs a b = some .eq ↔ ∀ c ∈ cs, c a b = some .eq := by
  induction cs with
  | nil => simp [byFirst]
  | cons c cs ih =>
    rw [List.forall_mem_cons, ← ih]
    rw [byFirst]
    cases c a b with
    | none => simp
    | some ord =>
      by_cases htie : ord = .eq
      · simp [htie]
      · simp [htie]

end Reaches

section Lawful
variable {c : Criterion α}

theorem comap_eq_some_iff {key : β → Option α} {a b : β} {o : Ordering} :
    c.comap key a b = some o ↔ ∃ x y, key a = some x ∧ key b = some y ∧ c x y = some o := by
  unfold comap
  cases key a with
  | none => simp
  | some x => cases key b <;> simp

/-- The default stands in for what is missing. -/
theorem Lawful.comap (h : c.Lawful) [Inhabited α] (key : β → Option α) : (c.comap key).Lawful where
  agrees := by
    obtain ⟨cmp, hcmp, hagrees⟩ := h.agrees
    have htrans : Std.TransCmp fun a b => cmp ((key a).getD default) ((key b).getD default) :=
      { eq_swap := Std.OrientedCmp.eq_swap, isLE_trans := Std.TransCmp.isLE_trans }
    refine ⟨_, htrans, fun a b o ho => ?_⟩
    obtain ⟨x, y, hx, hy, hxy⟩ := comap_eq_some_iff.mp ho
    rw [hx, hy]
    exact hagrees x y o hxy
  fails := by
    intro a b hnone
    unfold Criterion.comap at hnone ⊢
    cases hx : key a with
    | none => cases key b <;> rfl
    | some x =>
      cases hy : key b with
      | none => rfl
      | some y =>
        rw [hx, hy] at hnone
        exact h.fails x y hnone

theorem lawful_on [Ord β] [Std.TransOrd β] [Inhabited β] (key : α → Option β) : (on key).Lawful :=
  Lawful.comap ⟨⟨compare, inferInstance, fun _ _ _ ho => Option.some.inj ho⟩,
    fun _ _ hnone => (nomatch hnone)⟩ key

theorem Lawful.reversed (h : c.Lawful) : c.reversed.Lawful where
  agrees := by
    obtain ⟨cmp, hcmp, hagrees⟩ := h.agrees
    refine ⟨fun a b => cmp b a, Std.TransCmp.opposite, fun a b o ho => ?_⟩
    obtain ⟨ord, hord, rfl⟩ := Option.map_eq_some_iff.mp ho
    rw [← hagrees a b ord hord]
    exact Std.OrientedCmp.eq_swap
  fails := fun a b hnone => Option.map_eq_none_iff.mpr (h.fails a b (Option.map_eq_none_iff.mp hnone))

theorem Lawful.swap (h : c.Lawful) {a b : α} {o : Ordering} (hab : c a b = some o) :
    c b a = some o.swap := by
  obtain ⟨cmp, hcmp, hagrees⟩ := h.agrees
  cases hba : c b a with
  | none =>
    rw [h.fails b a hba] at hab
    cases hab
  | some o' =>
    rw [← hagrees b a o' hba, ← hagrees a b o hab]
    exact congrArg some Std.OrientedCmp.eq_swap

theorem lawful_byFirst {cs : List (Criterion α)} (h : ∀ c ∈ cs, c.Lawful) : (byFirst cs).Lawful := by
  induction cs with
  | nil =>
    have htrans : Std.TransCmp fun _ _ : α => Ordering.eq :=
      { eq_swap := rfl, isLE_trans := fun h _ => h }
    exact ⟨⟨fun _ _ => .eq, htrans, fun a b o ho => Option.some.inj ho⟩, fun a b hnone => (nomatch hnone)⟩
  | cons c cs ih =>
    have hc := h c List.mem_cons_self
    have hcs := ih fun d hd => h d (List.mem_cons_of_mem c hd)
    refine ⟨?_, fun a b hnone => ?_⟩
    · obtain ⟨cmp, hcmp, hagrees⟩ := hc.agrees
      obtain ⟨cmp', hcmp', hagrees'⟩ := hcs.agrees
      refine ⟨compareLex cmp cmp', inferInstance, fun a b o ho => ?_⟩
      obtain ⟨ord, hord, ho⟩ := Option.bind_eq_some_iff.mp ho
      rw [compareLex, hagrees a b ord hord]
      by_cases htie : ord = .eq
      · subst htie
        exact hagrees' a b o ho
      · rw [if_pos htie] at ho
        obtain rfl : ord = o := Option.some.inj ho
        cases ord with
        | lt => rfl
        | eq => exact absurd rfl htie
        | gt => rfl
    · unfold byFirst at hnone ⊢
      cases hab : c a b with
      | none =>
        rw [hc.fails a b hab]
        rfl
      | some ord =>
        rw [hab] at hnone
        rw [hc.swap hab]
        cases ord with
        | lt => cases hnone
        | gt => cases hnone
        | eq => exact hcs.fails a b hnone

end Lawful

section Sorting
variable {c : Criterion α} {l m : List α}

/-- Sort, unless some comparison of two elements fails. -/
def sort (c : Criterion α) (l : List α) : Option (List α) :=
  if l.Pairwise fun a b => (c a b).isSome = true then
    some (l.insertionSort fun a b => c a b ≠ some .gt)
  else none

theorem sort_eq_none_iff : c.sort l = none ↔ ¬l.Pairwise fun a b => (c a b).isSome = true := by
  unfold sort
  split_ifs with h
  · exact iff_of_false (by simp) (not_not.mpr h)
  · exact iff_of_true rfl h

theorem sort_perm (h : c.sort l = some m) : m.Perm l := by
  unfold sort at h
  split_ifs at h
  rw [← Option.some.inj h]
  exact List.perm_insertionSort _ l

/-- There is one order in which each element stands in front of those behind it. -/
theorem eq_of_pairwise_lt (hc : c.Lawful) (hperm : l.Perm m)
    (hl : l.Pairwise fun a b => c a b = some .lt) (hm : m.Pairwise fun a b => c a b = some .lt) :
    l = m := by
  refine hperm.eq_of_pairwise (fun a b ha hb hab hba => ?_) hl hm
  have hswap := hc.swap hab
  rw [hba] at hswap
  cases hswap

/-- Where no two elements tie, each stands in front of those behind it. -/
theorem sort_pairwise_lt (hc : c.Lawful) (hnodup : l.Nodup)
    (htie : ∀ a ∈ l, ∀ b ∈ l, a ≠ b → c a b ≠ some .eq) (h : c.sort l = some m) :
    m.Pairwise fun a b => c a b = some .lt := by
  have hperm := sort_perm h
  unfold sort at h
  split_ifs at h with hpairs
  obtain ⟨cmp, hcmp, hagrees⟩ := hc.agrees
  have hsymm : Std.Symm fun a b => (c a b).isSome = true := by
    refine ⟨fun a b hab => ?_⟩
    obtain ⟨o, ho⟩ := Option.isSome_iff_exists.mp hab
    rw [hc.swap ho]
    rfl
  have hread : ∀ a ∈ l, ∀ b ∈ l, a ≠ b → c a b = some (cmp a b) := by
    intro a ha b hb hne
    obtain ⟨o, ho⟩ := Option.isSome_iff_exists.mp (hpairs.forall ha hb hne)
    rw [ho, hagrees a b o ho]
  have hle : ∀ a ∈ l, ∀ b ∈ l, c a b ≠ some .gt ↔ (cmp a b).isLE = true := by
    intro a ha b hb
    by_cases hab : a = b
    · subst hab
      have hself : cmp a a = .eq := Std.ReflCmp.compare_self
      refine iff_of_true (fun hgt => ?_) (by rw [hself]; rfl)
      rw [hagrees a a .gt hgt] at hself
      cases hself
    · rw [hread a ha b hb hab]
      cases cmp a b <;> simp
  have hsorted := List.map_insertionSort (fun a b => c a b ≠ some .gt)
    (fun a b => (cmp a b).isLE = true) id l hle
  rw [List.map_id, List.map_id] at hsorted
  rw [hsorted] at h
  have htotal : Std.Total fun a b => (cmp a b).isLE = true := by
    refine ⟨fun a b => ?_⟩
    have hswap : cmp b a = (cmp a b).swap := Std.OrientedCmp.eq_swap
    rw [hswap]
    cases cmp a b <;> simp
  have htrans : IsTrans α fun a b => (cmp a b).isLE = true :=
    ⟨fun a b c => Std.TransCmp.isLE_trans⟩
  have hpairwise := List.pairwise_insertionSort (fun a b => (cmp a b).isLE = true) l
  rw [Option.some.inj h] at hpairwise
  refine (hpairwise.and (hperm.nodup_iff.mpr hnodup)).imp_of_mem fun {a b} ha hb hab => ?_
  have ha := hperm.mem_iff.mp ha
  have hb := hperm.mem_iff.mp hb
  have hne := htie a ha b hb hab.2
  rw [hread a ha b hb hab.2] at hne ⊢
  have hisLE := hab.1
  cases hcmp' : cmp a b with
  | lt => rfl
  | eq => rw [hcmp'] at hne; exact absurd rfl hne
  | gt => rw [hcmp'] at hisLE; cases hisLE

end Sorting
end Criterion
end Dmtap.Lib
