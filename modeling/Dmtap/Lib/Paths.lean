import Mathlib.Algebra.BigOperators.Group.Finset.Basic
import Mathlib.Algebra.Order.Ring.Nat
import Mathlib.Data.Finset.Card
import Mathlib.Data.List.Chain
import Mathlib.Data.List.Sigma

/-! Parts that refer to parts. Chains of references may come back to where they were; where none
does, every way down to a leaf is a path of positions with a product of quantities, and the list of
all leaves with their products counts each path once. -/
namespace Dmtap.Lib

section Parts
variable {ρ κ : Type} (ref : κ → ρ) (qty : κ → ℕ) (next : ρ → Option (List κ))

/-- `r'` is referred to by a part of `r`. -/
def ChildOf (r r' : ρ) : Prop := ∃ cs, next r = some cs ∧ ∃ c ∈ cs, ref c = r'

/-- References that lead from one to the next, the first of them from `cs`. -/
structure ChainFrom (cs : List κ) (rs : List ρ) : Prop where
  start : ∀ r, rs.head? = some r → ∃ c ∈ cs, ref c = r
  steps : rs.IsChain (ChildOf ref next)

/-- No chain comes back to itself or to `path`. -/
def Acyclic (path : List ρ) (cs : List κ) : Prop :=
  ∀ rs, ChainFrom ref next cs rs → (path ++ rs).Nodup

/-- A part whose reference is new, with parts below it that do not come back to `path` either. -/
def Fresh (path : List ρ) (c : κ) : Prop :=
  ref c ∉ path ∧ ∀ sub, next (ref c) = some sub → Acyclic ref next (path ++ [ref c]) sub

/-- The way to a leaf through the children at these positions, and the product along it. -/
inductive PartPath : List κ → List ℕ → ρ → ℕ → Prop
  | leaf {cs : List κ} {i : ℕ} {c : κ} (found : cs[i]? = some c) (isLeaf : next (ref c) = none) :
    PartPath cs [i] (ref c) (qty c)
  | step {cs sub : List κ} {i : ℕ} {c : κ} {is : List ℕ} {r : ρ} {p : ℕ} (found : cs[i]? = some c)
    (isSub : next (ref c) = some sub) (tail : PartPath sub is r p) : PartPath cs (i :: is) r (qty c * p)

/-- `total` is the sum of the products over all paths from `cs` to `r`. -/
def PathSum (cs : List κ) (r : ρ) (total : ℕ) : Prop :=
  ∃ ps : Finset (List ℕ × ℕ), (∀ x, x ∈ ps ↔ PartPath ref qty next cs x.1 r x.2) ∧
    total = ∑ x ∈ ps, x.2

/-- The paths through the child `x.1` at position `x.2`, given those from its own children. -/
def pathsThrough (below : List κ → List (List ℕ × ρ × ℕ)) (x : κ × ℕ) : List (List ℕ × ρ × ℕ) :=
  match next (ref x.1) with
  | none => [([x.2], ref x.1, qty x.1)]
  | some sub => (below sub).map fun y => (x.2 :: y.1, y.2.1, qty x.1 * y.2.2)

/-- All paths of at most `n` steps, in the order of a depth-first walk. -/
def paths : ℕ → List κ → List (List ℕ × ρ × ℕ)
  | 0, _ => []
  | n + 1, cs => cs.zipIdx.flatMap (pathsThrough ref qty next (paths n))

def leavesThrough (below : List κ → List (ρ × ℕ)) (c : κ) : List (ρ × ℕ) :=
  match next (ref c) with
  | none => [(ref c, qty c)]
  | some sub => (below sub).map fun x => (x.1, qty c * x.2)

/-- The leaves at the ends of these paths, with the products. -/
def leaves : ℕ → List κ → List (ρ × ℕ)
  | 0, _ => []
  | n + 1, cs => cs.flatMap (leavesThrough ref qty next (leaves n))

variable {ref qty next} {cs : List κ} {path : List ρ} {r : ρ} {n : ℕ}

section Chains

theorem chainFrom_nil : ChainFrom ref next cs [] :=
  ⟨fun _ h => (nomatch h), List.isChain_nil⟩

theorem chainFrom_cons_iff {rs : List ρ} :
    ChainFrom ref next cs (r :: rs) ↔
      (∃ c ∈ cs, ref c = r) ∧ (rs = [] ∨ ∃ sub, next r = some sub ∧ ChainFrom ref next sub rs) := by
  constructor
  · rintro ⟨hstart, hsteps⟩
    refine ⟨hstart r rfl, ?_⟩
    cases rs with
    | nil => exact Or.inl rfl
    | cons r' rs =>
      obtain ⟨⟨sub, hsub, hchild⟩, hrest⟩ := List.isChain_cons_cons.mp hsteps
      refine Or.inr ⟨sub, hsub, fun r'' h => ?_, hrest⟩
      rw [← Option.some.inj h]
      exact hchild
  · rintro ⟨hchild, hrest⟩
    constructor
    · intro r' h
      rw [← Option.some.inj h]
      exact hchild
    · rcases hrest with rfl | ⟨sub, hsub, hstart, hsteps⟩
      · exact List.isChain_singleton r
      · cases rs with
        | nil => exact List.isChain_singleton r
        | cons r' rs =>
          exact List.isChain_cons_cons.mpr ⟨⟨sub, hsub, hstart r' rfl⟩, hsteps⟩

/-- One level of the parts. -/
theorem acyclic_iff :
    Acyclic ref next path cs ↔ path.Nodup ∧ ∀ c ∈ cs, Fresh ref next path c := by
  constructor
  · intro h
    have hpath : path.Nodup := by
      have hnil := h [] chainFrom_nil
      rw [List.append_nil] at hnil
      exact hnil
    refine ⟨hpath, fun c hc => ⟨fun hmem => ?_, fun sub hsub rs hrs => ?_⟩⟩
    · have hone := h [ref c] (chainFrom_cons_iff.mpr ⟨⟨c, hc, rfl⟩, Or.inl rfl⟩)
      exact (List.nodup_append.mp hone).2.2 _ hmem _ List.mem_cons_self rfl
    · rw [List.append_assoc]
      exact h _ (chainFrom_cons_iff.mpr ⟨⟨c, hc, rfl⟩, Or.inr ⟨sub, hsub, hrs⟩⟩)
  · rintro ⟨hpath, hcs⟩ rs hrs
    cases rs with
    | nil =>
      rw [List.append_nil]
      exact hpath
    | cons r rs =>
      obtain ⟨⟨c, hc, rfl⟩, hrest⟩ := chainFrom_cons_iff.mp hrs
      obtain ⟨hnot, hsub⟩ := hcs c hc
      rcases hrest with rfl | ⟨sub, hnext, hrest⟩
      · rw [← List.concat_eq_append]
        exact hpath.concat hnot
      · have hall := hsub sub hnext rs hrest
        rw [List.append_assoc] at hall
        exact hall

end Chains

section Depth

/-- The path holds different inner references, and at least one step is left for every other one. -/
structure RoomFor (S : Finset ρ) (path : List ρ) (n : ℕ) : Prop where
  nodup : path.Nodup
  within : ∀ r ∈ path, r ∈ S
  card : S.card < n + path.length

variable {S : Finset ρ}

theorem roomFor_nil (h : S.card < n) : RoomFor S [] n :=
  ⟨List.nodup_nil, fun _ hr => (nomatch hr), h⟩

theorem RoomFor.pos (h : RoomFor S path n) : 0 < n := by
  classical
  have hsub : path.toFinset ⊆ S := fun r hr => h.within r (List.mem_toFinset.mp hr)
  have hle := Finset.card_le_card hsub
  rw [List.toFinset_card_of_nodup h.nodup] at hle
  have hcard := h.card
  omega

theorem RoomFor.push (h : RoomFor S path (n + 1)) (hr : r ∈ S) (hnot : r ∉ path) :
    RoomFor S (path ++ [r]) n where
  nodup := by
    rw [← List.concat_eq_append]
    exact h.nodup.concat hnot
  within := by
    intro r' hr'
    rcases List.mem_append.mp hr' with hmem | hmem
    · exact h.within r' hmem
    · rw [List.mem_singleton.mp hmem]
      exact hr
  card := by
    have hcard := h.card
    rw [List.length_append, List.length_singleton]
    omega

/-- Where no chain comes back, no path is longer than the room there is. -/
theorem PartPath.length_le {is : List ℕ} {p : ℕ} (h : PartPath ref qty next cs is r p)
    (hS : ∀ r sub, next r = some sub → r ∈ S) (hacyclic : Acyclic ref next path cs)
    (hroom : RoomFor S path n) : is.length ≤ n := by
  induction h generalizing path n with
  | leaf _ _ => exact hroom.pos
  | @step cs sub i c is r p hat hsub _ ih =>
    obtain ⟨-, hcs⟩ := acyclic_iff.mp hacyclic
    obtain ⟨hnot, hrest⟩ := hcs c (List.mem_of_getElem? hat)
    obtain ⟨m, rfl⟩ := Nat.exists_eq_succ_of_ne_zero (Nat.pos_iff_ne_zero.mp hroom.pos)
    have hle := ih (hrest sub hsub) (hroom.push (hS _ sub hsub) hnot)
    rw [List.length_cons]
    omega

theorem PartPath.next_eq_none {is : List ℕ} {p : ℕ} (h : PartPath ref qty next cs is r p) :
    next r = none := by
  induction h with
  | leaf _ hleaf => exact hleaf
  | step _ _ _ ih => exact ih

/-- The positions determine the leaf and the product. -/
theorem PartPath.functional {is : List ℕ} {r' : ρ} {p p' : ℕ} (h : PartPath ref qty next cs is r p)
    (h' : PartPath ref qty next cs is r' p') : r = r' ∧ p = p' := by
  induction h generalizing r' p' with
  | leaf hc hnext =>
    cases h' with
    | leaf hc' _ =>
      rw [hc] at hc'
      obtain rfl := Option.some.inj hc'
      exact ⟨rfl, rfl⟩
    | step _ _ htail => cases htail
  | step hc hnext htail ih =>
    cases h' with
    | leaf _ _ => cases htail
    | step hc' hnext' htail' =>
      rw [hc] at hc'
      obtain rfl := Option.some.inj hc'
      rw [hnext] at hnext'
      obtain rfl := Option.some.inj hnext'
      obtain ⟨rfl, rfl⟩ := ih htail'
      exact ⟨rfl, rfl⟩

end Depth

section Counting

theorem pathsThrough_leaf {below : List κ → List (List ℕ × ρ × ℕ)} {c : κ} {i : ℕ}
    (h : next (ref c) = none) :
    pathsThrough ref qty next below (c, i) = [([i], ref c, qty c)] := by
  unfold pathsThrough
  rw [h]

theorem pathsThrough_sub {below : List κ → List (List ℕ × ρ × ℕ)} {c : κ} {i : ℕ} {sub : List κ}
    (h : next (ref c) = some sub) : pathsThrough ref qty next below (c, i) =
      (below sub).map fun y => (i :: y.1, y.2.1, qty c * y.2.2) := by
  unfold pathsThrough
  rw [h]

theorem leavesThrough_leaf {below : List κ → List (ρ × ℕ)} {c : κ} (h : next (ref c) = none) :
    leavesThrough ref qty next below c = [(ref c, qty c)] := by
  unfold leavesThrough
  rw [h]

theorem leavesThrough_sub {below : List κ → List (ρ × ℕ)} {c : κ} {sub : List κ}
    (h : next (ref c) = some sub) :
    leavesThrough ref qty next below c = (below sub).map fun x => (x.1, qty c * x.2) := by
  unfold leavesThrough
  rw [h]

theorem mem_paths {is : List ℕ} {p : ℕ} :
    (is, r, p) ∈ paths ref qty next n cs ↔ PartPath ref qty next cs is r p ∧ is.length ≤ n := by
  induction n generalizing cs is r p with
  | zero =>
    constructor
    · intro h
      cases h
    · rintro ⟨hpath, hle⟩
      cases hpath with
      | leaf => cases hle
      | step => cases hle
  | succ n ih =>
    unfold paths
    rw [List.mem_flatMap]
    constructor
    · rintro ⟨⟨c, i⟩, hc, hmem⟩
      rw [List.mk_mem_zipIdx_iff_getElem?] at hc
      cases hnext : next (ref c) with
      | none =>
        rw [pathsThrough_leaf hnext] at hmem
        obtain ⟨rfl, rfl, rfl⟩ : is = [i] ∧ r = ref c ∧ p = qty c := by
          simpa using hmem
        exact ⟨.leaf hc hnext, Nat.succ_le_succ (Nat.zero_le n)⟩
      | some sub =>
        rw [pathsThrough_sub hnext] at hmem
        obtain ⟨⟨is', r', p'⟩, htail, heq⟩ := List.mem_map.mp hmem
        obtain ⟨rfl, rfl, rfl⟩ : i :: is' = is ∧ r' = r ∧ qty c * p' = p := by
          simpa using heq
        obtain ⟨hpath, hle⟩ := ih.mp htail
        exact ⟨.step hc hnext hpath, Nat.succ_le_succ hle⟩
    · rintro ⟨hpath, hle⟩
      cases hpath with
      | @leaf _ i c hc hnext =>
        refine ⟨(c, i), List.mk_mem_zipIdx_iff_getElem?.mpr hc, ?_⟩
        rw [pathsThrough_leaf hnext]
        exact List.mem_singleton.mpr rfl
      | @step _ sub i c is _ p hc hnext htail =>
        refine ⟨(c, i), List.mk_mem_zipIdx_iff_getElem?.mpr hc, ?_⟩
        rw [pathsThrough_sub hnext]
        exact List.mem_map.mpr ⟨(is, r, p), ih.mpr ⟨htail, Nat.le_of_succ_le_succ hle⟩, rfl⟩

theorem head?_of_mem_pathsThrough {below : List κ → List (List ℕ × ρ × ℕ)} {x : κ × ℕ}
    {is : List ℕ} (h : is ∈ (pathsThrough ref qty next below x).map Prod.fst) :
    is.head? = some x.2 := by
  obtain ⟨c, i⟩ := x
  obtain ⟨y, hy, rfl⟩ := List.mem_map.mp h
  cases hnext : next (ref c) with
  | none =>
    rw [pathsThrough_leaf hnext] at hy
    rw [List.mem_singleton.mp hy]
    rfl
  | some sub =>
    rw [pathsThrough_sub hnext] at hy
    obtain ⟨z, -, rfl⟩ := List.mem_map.mp hy
    rfl

/-- Different paths take different positions. -/
theorem nodup_paths : ((paths ref qty next n cs).map Prod.fst).Nodup := by
  induction n generalizing cs with
  | zero => exact List.nodup_nil
  | succ n ih =>
    unfold paths
    rw [List.map_flatMap, List.nodup_flatMap]
    constructor
    · rintro ⟨c, i⟩ -
      cases hnext : next (ref c) with
      | none =>
        rw [pathsThrough_leaf hnext]
        exact List.nodup_singleton _
      | some sub =>
        have hcons : (((paths ref qty next n sub).map Prod.fst).map fun is => i :: is).Nodup :=
          ih.map fun is is' h => (List.cons.inj h).2
        rw [List.map_map] at hcons
        rw [pathsThrough_sub hnext, List.map_map]
        exact hcons
    · have hpositions : (cs.zipIdx).Pairwise fun x y => x.2 ≠ y.2 :=
        List.pairwise_map.mp (List.nodup_zipIdx_map_snd cs)
      refine hpositions.imp fun hne is his his' => hne ?_
      exact Option.some.inj
        ((head?_of_mem_pathsThrough his).symm.trans (head?_of_mem_pathsThrough his'))

theorem map_snd_paths : (paths ref qty next n cs).map Prod.snd = leaves ref qty next n cs := by
  induction n generalizing cs with
  | zero => rfl
  | succ n ih =>
    have hthrough : ∀ x : κ × ℕ, (pathsThrough ref qty next (paths ref qty next n) x).map Prod.snd =
        leavesThrough ref qty next (leaves ref qty next n) x.1 := by
      rintro ⟨c, i⟩
      cases hnext : next (ref c) with
      | none =>
        rw [pathsThrough_leaf hnext, leavesThrough_leaf hnext]
        rfl
      | some sub =>
        rw [pathsThrough_sub hnext, leavesThrough_sub hnext, ← ih, List.map_map, List.map_map]
        rfl
    unfold paths leaves
    rw [List.map_flatMap]
    calc cs.zipIdx.flatMap (fun x => (pathsThrough ref qty next (paths ref qty next n) x).map Prod.snd)
        = cs.zipIdx.flatMap (fun x => leavesThrough ref qty next (leaves ref qty next n) x.1) :=
          List.flatMap_congr fun x _ => hthrough x
      _ = (cs.zipIdx.map Prod.fst).flatMap (leavesThrough ref qty next (leaves ref qty next n)) :=
          (List.flatMap_map _ _ _).symm
      _ = cs.flatMap (leavesThrough ref qty next (leaves ref qty next n)) := by
          rw [List.zipIdx_map_fst]

theorem mem_leaves_iff (hlength : ∀ is p, PartPath ref qty next cs is r p → is.length ≤ n) :
    r ∈ (leaves ref qty next n cs).map Prod.fst ↔ ∃ is p, PartPath ref qty next cs is r p := by
  rw [← map_snd_paths, List.map_map, List.mem_map]
  constructor
  · rintro ⟨⟨is, r', p⟩, hmem, rfl⟩
    exact ⟨is, p, (mem_paths.mp hmem).1⟩
  · rintro ⟨is, p, h⟩
    exact ⟨(is, r, p), mem_paths.mpr ⟨h, hlength is p h⟩, rfl⟩

variable [DecidableEq ρ]

/-- The products of the leaves that are `r`. -/
def amounts (r : ρ) (l : List (ρ × ℕ)) : List ℕ := (l.filter fun x => x.1 = r).map Prod.snd

/-- All paths to `r`, when none has more than `n` steps. -/
theorem exists_finset_paths (hlength : ∀ is p, PartPath ref qty next cs is r p → is.length ≤ n) :
    ∃ ps : Finset (List ℕ × ℕ), (∀ x, x ∈ ps ↔ PartPath ref qty next cs x.1 r x.2) ∧
      ∀ f : ℕ → ℕ, ∑ x ∈ ps, f x.2 = ((amounts r (leaves ref qty next n cs)).map f).sum := by
  let found := ((paths ref qty next n cs).filter fun x => x.2.1 = r).map fun x => (x.1, x.2.2)
  have hnodup : found.Nodup := by
    have hsub : (found.map Prod.fst).Sublist ((paths ref qty next n cs).map Prod.fst) := by
      have hmap : found.map Prod.fst =
          ((paths ref qty next n cs).filter fun x => x.2.1 = r).map Prod.fst := by
        rw [List.map_map]
        rfl
      rw [hmap]
      exact List.filter_sublist.map _
    exact (nodup_paths.sublist hsub).of_map _
  refine ⟨found.toFinset, fun x => ?_, fun f => ?_⟩
  · obtain ⟨is, p⟩ := x
    rw [List.mem_toFinset, List.mem_map]
    constructor
    · rintro ⟨⟨is', r', p'⟩, hmem, heq⟩
      obtain ⟨hmem, hr⟩ := List.mem_filter.mp hmem
      obtain ⟨rfl, rfl⟩ := Prod.mk.inj heq
      have hr' : r' = r := of_decide_eq_true hr
      rw [← hr']
      exact (mem_paths.mp hmem).1
    · intro h
      exact ⟨(is, r, p), List.mem_filter.mpr ⟨mem_paths.mpr ⟨h, hlength is p h⟩,
        decide_eq_true rfl⟩, rfl⟩
  · rw [List.sum_toFinset _ hnodup, ← map_snd_paths]
    unfold amounts
    rw [List.filter_map, List.map_map, List.map_map, List.map_map]
    rfl

end Counting

end Parts
end Dmtap.Lib
