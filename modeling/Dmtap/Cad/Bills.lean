import Mathlib.Data.Set.Finite.Basic
import Dmtap.Cad.Bom

/-! What a bill of materials says: the exact quantities of the leaves as long as they fit, and where
saturation on the way does not save the sum. -/
namespace Dmtap.Cad
open Dmtap.Lib Dmtap.Cbor

section Builds
variable {resolve : ContentId → Option AssemblyStructure}

/-- A loop whose rounds agree, or stop with the overflow. -/
theorem foldlM_agrees {α σ : Type} {f g : σ → α → Except Stop σ}
    (h : ∀ w c, f w c = .error .overflow ∨ f w c = g w c) (w : σ) (l : List α) :
    l.foldlM f w = .error .overflow ∨ l.foldlM f w = l.foldlM g w := by
  induction l generalizing w with
  | nil => exact Or.inr rfl
  | cons c l ih =>
    rw [List.foldlM_cons, List.foldlM_cons]
    rcases h w c with hover | hagree
    · rw [hover]
      exact Or.inl rfl
    · rw [hagree]
      cases g w c with
      | error e => exact Or.inr rfl
      | ok w' => exact ih w'

theorem credit_agrees (bom : Bom) (key : Bytes) (n : UInt64) :
    credit .checked bom key n = .error .overflow ∨
      credit .checked bom key n = credit .release bom key n := by
  unfold credit
  cases hadd : Build.checked.add ((bom.get? key).getD 0) n with
  | none => exact Or.inl rfl
  | some total =>
    rw [eq_add_of_checkedAdd hadd]
    exact Or.inr rfl

theorem visit_agrees {f g : AssemblyStructure → UInt64 → Walk → Except Stop Walk}
    (h : ∀ node m w, f node m w = .error .overflow ∨ f node m w = g node m w) (m : UInt64)
    (w : Walk) (c : AssemblyChild) :
    visit .checked resolve f m w c = .error .overflow ∨
      visit .checked resolve f m w c = visit .release resolve g m w c := by
  unfold visit
  dsimp only
  by_cases hmem : c.reference.bytes ∈ w.path
  · rw [if_pos hmem, if_pos hmem]
    exact Or.inr rfl
  · rw [if_neg hmem, if_neg hmem]
    cases resolve c.reference with
    | some sub =>
      dsimp only
      rcases h sub (saturatingMul m c.quantity)
        { w with path := w.path ++ [c.reference.bytes] } with hover | hagree
      · rw [hover]
        exact Or.inl rfl
      · rw [hagree]
        exact Or.inr rfl
    | none =>
      dsimp only
      rcases credit_agrees w.bom c.reference.bytes (saturatingMul m c.quantity) with hover | hagree
      · rw [hover]
        exact Or.inl rfl
      · rw [hagree]
        exact Or.inr rfl

/-- A build with overflow checks walks as the other one does, up to the first overflow. -/
theorem recurse_agrees (fuel : ℕ) (node : AssemblyStructure) (m : UInt64) (w : Walk) :
    recurse .checked resolve fuel node m w = .error .overflow ∨
      recurse .checked resolve fuel node m w = recurse .release resolve fuel node m w := by
  induction fuel generalizing node m w with
  | zero => exact Or.inr rfl
  | succ fuel ih => exact foldlM_agrees (visit_agrees ih m) w node.children

theorem walkBom_agrees (fuel : ℕ) (root : AssemblyStructure) :
    walkBom .checked resolve fuel root = .error .overflow ∨
      walkBom .checked resolve fuel root = walkBom .release resolve fuel root := by
  unfold walkBom
  rcases recurse_agrees fuel root 1 ⟨[], .empty⟩ with hover | hagree
  · rw [hover]
    exact Or.inl rfl
  · rw [hagree]
    exact Or.inr rfl

end Builds

section Walks
variable {build : Build} {resolve : ContentId → Option AssemblyStructure} {root : AssemblyStructure}
  {S : Finset ContentId} {fuel : ℕ}

theorem scaled_one (l : List (ContentId × ℕ)) : scaled 1 l = l := by
  unfold scaled
  simp

theorem acyclic_root_iff :
    Acyclic AssemblyChild.reference (partsOf resolve) [] root.children ↔
      ∀ rs, Chain resolve root rs → rs.Nodup :=
  Iff.rfl

theorem walkBom_of_acyclic (hS : ∀ r sub, partsOf resolve r = some sub → r ∈ S)
    (hfuel : S.card < fuel) (h : ∀ rs, Chain resolve root rs → rs.Nodup) :
    walkBom build resolve fuel root =
      creditAll build .empty (leavesOf resolve fuel root.children) := by
  have hrun : recurse build resolve fuel root (capped 1) (walkAt [] .empty) = _ :=
    recurse_of_acyclic hS (roomFor_nil hfuel) (acyclic_root_iff.mpr h) 1
  rw [scaled_one] at hrun
  have hone : capped 1 = 1 := rfl
  unfold walkBom
  change recurse build resolve fuel root 1 (walkAt [] .empty) >>= _ = _
  rw [← hone, hrun]
  cases creditAll build .empty (leavesOf resolve fuel root.children) with
  | error e => rfl
  | ok bom => rfl

theorem walkBom_of_cyclic (hS : ∀ r sub, partsOf resolve r = some sub → r ∈ S)
    (hfuel : S.card < fuel) (h : ∃ rs, Chain resolve root rs ∧ ¬ rs.Nodup) :
    walkBom build resolve fuel root = .error (.error .cycle) ∨
      build = .checked ∧ walkBom build resolve fuel root = .error .overflow := by
  have hnot : ¬ Acyclic AssemblyChild.reference (partsOf resolve) [] root.children := by
    rw [acyclic_root_iff]
    obtain ⟨rs, hrs, hdup⟩ := h
    exact fun hall => hdup (hall rs hrs)
  have hrun : Stopped build (recurse build resolve fuel root (capped 1) (walkAt [] .empty)) :=
    recurse_of_cyclic hS (roomFor_nil hfuel) hnot 1
  unfold walkBom
  rcases hrun with hcycle | ⟨hchecked, hover⟩
  · left
    change recurse build resolve fuel root (capped 1) (walkAt [] .empty) >>= _ = _
    rw [hcycle]
    rfl
  · refine Or.inr ⟨hchecked, ?_⟩
    change recurse build resolve fuel root (capped 1) (walkAt [] .empty) >>= _ = _
    rw [hover]
    rfl

/-- What the list of leaves holds for a leaf, by its paths. -/
theorem exists_leafPaths (hS : ∀ r sub, partsOf resolve r = some sub → r ∈ S)
    (hfuel : S.card < fuel) (h : ∀ rs, Chain resolve root rs → rs.Nodup) (r : ContentId) :
    ∃ ps : Finset (List ℕ × ℕ), (∀ x, x ∈ ps ↔ LeafPath resolve root x.1 r x.2) ∧
      creditsOf r (leavesOf resolve fuel root.children) = ∑ x ∈ ps, min x.2 (2 ^ 64 - 1) ∧
      (r ∈ (leavesOf resolve fuel root.children).map Prod.fst ↔
        ∃ is p, LeafPath resolve root is r p) := by
  have hlength : ∀ is p, LeafPath resolve root is r p → is.length ≤ fuel := fun is p hp =>
    hp.length_le hS (acyclic_root_iff.mpr h) (roomFor_nil hfuel)
  obtain ⟨ps, hps, hsum⟩ := exists_finset_paths hlength
  exact ⟨ps, hps, (hsum _).symm, mem_leaves_iff hlength⟩

theorem leafSum_iff {ps : Finset (List ℕ × ℕ)} {r : ContentId}
    (hps : ∀ x, x ∈ ps ↔ LeafPath resolve root x.1 r x.2) (total : ℕ) :
    LeafSum resolve root r total ↔ total = ∑ x ∈ ps, x.2 := by
  constructor
  · rintro ⟨ps', hps', rfl⟩
    have heq : ps' = ps := Finset.ext fun x => (hps' x).trans (hps x).symm
    rw [heq]
  · intro htotal
    exact ⟨ps, hps, htotal⟩

/-- The exact quantity of a leaf is what the list of leaves holds for it. -/
theorem leafSum_iff_leaves (hS : ∀ r sub, partsOf resolve r = some sub → r ∈ S)
    (hfuel : S.card < fuel) (h : ∀ rs, Chain resolve root rs → rs.Nodup) (r : ContentId)
    (total : ℕ) : LeafSum resolve root r total ↔
      total = (amounts r (leavesOf resolve fuel root.children)).sum := by
  have hlength : ∀ is p, LeafPath resolve root is r p → is.length ≤ fuel := fun is p hp =>
    hp.length_le hS (acyclic_root_iff.mpr h) (roomFor_nil hfuel)
  obtain ⟨ps, hps, hsum⟩ := exists_finset_paths hlength
  have htotal := hsum id
  rw [List.map_id] at htotal
  rw [leafSum_iff hps, ← htotal]
  rfl

end Walks

section Main
variable (resolve : ContentId → Option AssemblyStructure) (root : AssemblyStructure)

/-- A bill lists every leaf that the root has a path to, and nothing else; `value` is what its entry
makes of the exact quantity. -/
structure Bill (value : ℕ → ℕ) (bom : Bom) : Prop where
  leaf : ∀ r, (∃ is p, LeafPath resolve root is r p) → ∃ n total,
    bom.get? r.bytes = some n ∧ LeafSum resolve root r total ∧ n.toNat = value total
  other : ∀ r, (¬ ∃ is p, LeafPath resolve root is r p) → bom.get? r.bytes = none

/-- The exact quantity of a leaf fits, or there is one path to it at most that counts. -/
def LeafFits (r : ContentId) : Prop :=
  (∀ total, LeafSum resolve root r total → total < 2 ^ 64) ∨
    ∀ is p is' p', LeafPath resolve root is r p → LeafPath resolve root is' r p' →
      p ≠ 0 → p' ≠ 0 → is = is'

variable {resolve root} {S : Finset ContentId} {fuel : ℕ}

theorem bill_of_fits {build : Build} (hS : ∀ r sub, partsOf resolve r = some sub → r ∈ S)
    (hfuel : S.card < fuel) (h : ∀ rs, Chain resolve root rs → rs.Nodup)
    (hfits : ∀ r, creditsOf r (leavesOf resolve fuel root.children) < 2 ^ 64) :
    ∃ bom, walkBom build resolve fuel root = .ok bom ∧
      Bill resolve root (fun total => min total (2 ^ 64 - 1)) bom := by
  have hzero : ∀ r, (credited .empty r).toNat = 0 := fun r => rfl
  obtain ⟨bom, hrun, hbom⟩ := @creditAll_of_fits build .empty
    (leavesOf resolve fuel root.children) fun r => by rw [hzero, Nat.zero_add]; exact hfits r
  refine ⟨bom, (walkBom_of_acyclic hS hfuel h).trans hrun, fun r hr => ?_, fun r hr => ?_⟩
  · obtain ⟨ps, hps, hcredits, hmem⟩ := exists_leafPaths hS hfuel h r
    obtain ⟨hvalue, hpresent⟩ := hbom r
    have hsome := hpresent.mpr (Or.inr (hmem.mpr hr))
    obtain ⟨n, hn⟩ := Option.isSome_iff_exists.mp hsome
    refine ⟨n, ∑ x ∈ ps, x.2, hn, (leafSum_iff hps _).mpr rfl, ?_⟩
    have hcredited : credited bom r = n := by
      unfold credited
      rw [hn]
      rfl
    have hfitsr := hfits r
    rw [hcredited, hzero, Nat.zero_add] at hvalue
    rw [hcredits] at hvalue hfitsr
    rw [hvalue]
    exact sum_min_eq_min (by omega)
  · obtain ⟨ps, hps, hcredits, hmem⟩ := exists_leafPaths hS hfuel h r
    rw [← Option.not_isSome_iff_eq_none, (hbom r).2]
    rintro (hempty | hleaf)
    · cases hempty
    · exact hr (hmem.mp hleaf)

/-- A leaf fits exactly when its capped products do. -/
theorem creditsOf_lt_iff (hS : ∀ r sub, partsOf resolve r = some sub → r ∈ S)
    (hfuel : S.card < fuel) (h : ∀ rs, Chain resolve root rs → rs.Nodup) (r : ContentId) :
    creditsOf r (leavesOf resolve fuel root.children) < 2 ^ 64 ↔ LeafFits resolve root r := by
  obtain ⟨ps, hps, hcredits, -⟩ := exists_leafPaths hS hfuel h r
  have hcap : ∑ x ∈ ps, min x.2 (2 ^ 64 - 1) < 2 ^ 64 ↔
      ∑ x ∈ ps, min x.2 (2 ^ 64 - 1) ≤ 2 ^ 64 - 1 := by omega
  rw [hcredits, hcap, sum_min_le_iff (by omega)]
  unfold LeafFits
  refine or_congr ?_ ?_
  · constructor
    · intro hle total htotal
      rw [(leafSum_iff hps total).mp htotal]
      omega
    · intro hlt
      have hsum := hlt _ ((leafSum_iff hps _).mpr rfl)
      omega
  · constructor
    · intro hone is p is' p' hp hp' hne hne'
      exact congrArg Prod.fst (hone (is, p) ((hps _).mpr hp) (is', p') ((hps _).mpr hp') hne hne')
    · rintro hone ⟨is, p⟩ hp ⟨is', p'⟩ hp' hne hne'
      have hpath : LeafPath resolve root is r p := (hps _).mp hp
      have hpath' : LeafPath resolve root is' r p' := (hps _).mp hp'
      have his : is = is' := hone is p is' p' hpath hpath' hne hne'
      subst his
      exact congrArg (Prod.mk is) (hpath.functional hpath').2

theorem assemblies_cover (hfin : {r | (resolve r).isSome}.Finite) :
    ∀ r sub, partsOf resolve r = some sub → r ∈ hfin.toFinset := by
  intro r sub h
  obtain ⟨s, hs, -⟩ := Option.map_eq_some_iff.mp h
  rw [Set.Finite.mem_toFinset]
  exact Option.isSome_iff_exists.mpr ⟨s, hs⟩

/-- The walk ends. It ends with the cycle exactly when a chain of child references repeats one, and
otherwise with the exact bill, if the exact quantities fit. A build with overflow checks ends in the
same way unless it stops with an overflow. -/
theorem walk_bom_exact (resolve : ContentId → Option AssemblyStructure) (root : AssemblyStructure)
    (hfin : {r | (resolve r).isSome}.Finite) :
    ∃ enough, ∀ fuel, enough ≤ fuel →
      (∀ build, walkBom build resolve fuel root ≠ .error .outOfFuel) ∧
      (walkBom .release resolve fuel root = .error (.error .cycle) ↔
        ∃ rs, Chain resolve root rs ∧ ¬ rs.Nodup) ∧
      (walkBom .checked resolve fuel root = .error .overflow ∨
        walkBom .checked resolve fuel root = walkBom .release resolve fuel root) ∧
      ((∀ rs, Chain resolve root rs → rs.Nodup) →
        (∀ r total, LeafSum resolve root r total → total < 2 ^ 64) →
          ∀ build, ∃ bom, walkBom build resolve fuel root = .ok bom ∧
            Bill resolve root (fun total => total) bom) := by
  refine ⟨hfin.toFinset.card + 1, fun fuel hfuel => ?_⟩
  have hS := assemblies_cover hfin
  have hacyclic : (∀ rs, Chain resolve root rs → rs.Nodup) → ∀ build,
      (∃ bom, walkBom build resolve fuel root = .ok bom) ∨
        build = .checked ∧ walkBom build resolve fuel root = .error .overflow := by
    intro h build
    rw [walkBom_of_acyclic hS hfuel h]
    exact creditAll_ok_or
  refine ⟨fun build hout => ?_, ⟨fun hcycle => ?_, fun hrepeats => ?_⟩, walkBom_agrees fuel root,
    fun h hsums build => ?_⟩
  · by_cases h : ∀ rs, Chain resolve root rs → rs.Nodup
    · rcases hacyclic h build with ⟨bom, hok⟩ | ⟨-, hover⟩
      · rw [hok] at hout
        cases hout
      · rw [hover] at hout
        cases hout
    · push Not at h
      have hstops : walkBom build resolve fuel root = .error (.error .cycle) ∨ _ :=
        walkBom_of_cyclic hS hfuel h
      rcases hstops with hcycle | ⟨-, hover⟩
      · rw [hcycle] at hout
        cases hout
      · rw [hover] at hout
        cases hout
  · by_contra hnone
    push Not at hnone
    rcases hacyclic hnone .release with ⟨bom, hok⟩ | ⟨-, hover⟩
    · rw [hok] at hcycle
      cases hcycle
    · rw [hover] at hcycle
      cases hcycle
  · have hstops : walkBom .release resolve fuel root = .error (.error .cycle) ∨ _ :=
      walkBom_of_cyclic hS hfuel hrepeats
    rcases hstops with hcycle | ⟨hchecked, -⟩
    · exact hcycle
    · cases hchecked
  · have hfits : ∀ r, creditsOf r (leavesOf resolve fuel root.children) < 2 ^ 64 := fun r =>
      (creditsOf_lt_iff hS hfuel h r).mpr (Or.inl (hsums r))
    obtain ⟨bom, hok, hbill⟩ := @bill_of_fits resolve root _ fuel build hS hfuel h hfits
    refine ⟨bom, hok, fun r hr => ?_, hbill.other⟩
    obtain ⟨n, total, hn, htotal, hvalue⟩ := hbill.leaf r hr
    have hlt := hsums r total htotal
    exact ⟨n, total, hn, htotal, hvalue.trans (min_eq_left (by omega))⟩

def bolt : ContentId := ⟨[mhBlake3, 1]⟩

/-- An assembly that contains itself. -/
def loop : AssemblyStructure := ⟨[⟨track, bolt, 2, none⟩]⟩

def loopParts (r : ContentId) : Option AssemblyStructure := if r = bolt then some loop else none

def wheel : ContentId := ⟨[mhBlake3, 2]⟩

/-- Two wheels in front and three behind, each with four bolts. -/
def cart : AssemblyStructure := ⟨[⟨track, wheel, 2, none⟩, ⟨pin, wheel, 3, none⟩]⟩

def cartParts (r : ContentId) : Option AssemblyStructure :=
  if r = wheel then some ⟨[⟨pin, bolt, 4, none⟩]⟩ else none

theorem mem_onePart {key : ContentId} {node : AssemblyStructure} {r : ContentId}
    (h : (if r = key then some node else none).isSome = true) : r = key := by
  by_contra hne
  rw [if_neg hne] at h
  cases h

theorem finite_onePart (key : ContentId) (node : AssemblyStructure) :
    {r | (if r = key then some node else none).isSome}.Finite :=
  (Set.finite_singleton key).subset fun _ hr => mem_onePart hr

theorem cart_acyclic : ∀ rs, Chain cartParts cart rs → rs.Nodup := by
  rw [← acyclic_root_iff]
  have hleaf : ∀ c ∈ [(⟨pin, bolt, 4, none⟩ : AssemblyChild)],
      Fresh AssemblyChild.reference (partsOf cartParts) [wheel] c := by
    intro c hc
    obtain rfl := List.mem_singleton.mp hc
    exact ⟨by decide, fun sub hsub => nomatch hsub⟩
  have hwheel : ∀ c ∈ cart.children,
      Fresh AssemblyChild.reference (partsOf cartParts) [] c := by
    intro c hc
    have hreference : c.reference = wheel := by
      rcases List.mem_cons.mp hc with rfl | hc
      · rfl
      · obtain rfl := List.mem_singleton.mp hc
        rfl
    refine ⟨List.not_mem_nil, fun sub hsub => ?_⟩
    rw [hreference] at hsub ⊢
    obtain rfl := Option.some.inj hsub
    exact acyclic_iff.mpr ⟨List.nodup_singleton wheel, hleaf⟩
  exact acyclic_iff.mpr ⟨List.nodup_nil, hwheel⟩

theorem leafSum_cart {r : ContentId} {total : ℕ} (h : LeafSum cartParts cart r total) :
    total = if r = bolt then 20 else 0 := by
  have hS : ∀ r sub, partsOf cartParts r = some sub → r ∈ ({wheel} : Finset ContentId) := by
    intro r sub hsub
    obtain ⟨node, hnode, -⟩ := Option.map_eq_some_iff.mp hsub
    exact Finset.mem_singleton.mpr (mem_onePart (Option.isSome_iff_exists.mpr ⟨node, hnode⟩))
  have hcard : ({wheel} : Finset ContentId).card < 2 := by decide
  have htotal := (leafSum_iff_leaves hS hcard cart_acyclic r total).mp h
  have hleaves : leavesOf cartParts 2 cart.children = [(bolt, 8), (bolt, 12)] := rfl
  rw [htotal, hleaves]
  unfold amounts
  by_cases hr : bolt = r
  · rw [if_pos hr.symm, hr]
    simp
  · rw [if_neg (Ne.symm hr)]
    simp [hr]

/-- The loop ends with the cycle, the cart with a bill of the bolts of all its wheels. -/
theorem walk_bom_exact_cart :
    (∃ enough, ∀ fuel, enough ≤ fuel →
      walkBom .release loopParts fuel loop = .error (.error .cycle)) ∧
    ∃ enough, ∀ fuel, enough ≤ fuel → ∀ build, ∃ bom, walkBom build cartParts fuel cart = .ok bom ∧
      bom.get? bolt.bytes = some 20 ∧ bom.get? wheel.bytes = none := by
  constructor
  · have hchain : Chain loopParts loop [bolt, bolt] := by
      refine chainFrom_cons_iff.mpr ⟨⟨_, List.mem_cons_self, rfl⟩, Or.inr ⟨loop.children, rfl, ?_⟩⟩
      exact chainFrom_cons_iff.mpr ⟨⟨_, List.mem_cons_self, rfl⟩, Or.inl rfl⟩
    obtain ⟨enough, h⟩ := walk_bom_exact loopParts loop (finite_onePart bolt loop)
    exact ⟨enough, fun fuel hfuel => (h fuel hfuel).2.1.mpr ⟨[bolt, bolt], hchain, by decide⟩⟩
  · obtain ⟨enough, h⟩ := walk_bom_exact cartParts cart (finite_onePart wheel _)
    refine ⟨enough, fun fuel hfuel build => ?_⟩
    have hsums : ∀ r total, LeafSum cartParts cart r total → total < 2 ^ 64 := by
      intro r total htotal
      rw [leafSum_cart htotal]
      split_ifs <;> decide
    obtain ⟨bom, hok, hbill⟩ := (h fuel hfuel).2.2.2 cart_acyclic hsums build
    have hpath : LeafPath cartParts cart [0, 0] bolt (2 * 4) :=
      .step (c := (⟨track, wheel, 2, none⟩ : AssemblyChild)) rfl rfl
        (.leaf (c := (⟨pin, bolt, 4, none⟩ : AssemblyChild)) rfl rfl)
    obtain ⟨n, total, hn, htotal, hvalue⟩ := hbill.leaf bolt ⟨_, _, hpath⟩
    have hwheel : ¬∃ is p, LeafPath cartParts cart is wheel p := by
      rintro ⟨is, p, hp⟩
      cases hp.next_eq_none
    refine ⟨bom, hok, ?_, hbill.other wheel hwheel⟩
    rw [leafSum_cart htotal, if_pos rfl] at hvalue
    have htwenty : n = 20 := UInt64.toNat_inj.mp hvalue
    rw [hn, htwenty]

/-- Over an assembly without cycles, a build with overflow checks returns the saturated bill exactly
when every leaf fits. -/
theorem walk_bom_saturates_iff (resolve : ContentId → Option AssemblyStructure)
    (root : AssemblyStructure) (hfin : {r | (resolve r).isSome}.Finite)
    (hacyclic : ∀ rs, Chain resolve root rs → rs.Nodup) :
    ∃ enough, ∀ fuel, enough ≤ fuel →
      ((∃ bom, walkBom .checked resolve fuel root = .ok bom ∧
        Bill resolve root (fun total => min total (2 ^ 64 - 1)) bom) ↔
          ∀ r, LeafFits resolve root r) := by
  refine ⟨hfin.toFinset.card + 1, fun fuel hfuel => ?_⟩
  have hS := assemblies_cover hfin
  constructor
  · rintro ⟨bom, hok, -⟩ r
    rw [← creditsOf_lt_iff hS hfuel hacyclic r]
    by_contra hover
    have hlarge : 2 ^ 64 ≤ (credited .empty r).toNat +
        creditsOf r (leavesOf resolve fuel root.children) := by
      change 2 ^ 64 ≤ 0 + _
      omega
    have hstops := creditAll_overflow hlarge
    rw [walkBom_of_acyclic hS hfuel hacyclic, hstops] at hok
    cases hok
  · intro hfits
    exact bill_of_fits hS hfuel hacyclic fun r => (creditsOf_lt_iff hS hfuel hacyclic r).mpr (hfits r)

def noParts : ContentId → Option AssemblyStructure := fun _ => none

/-- One leaf, listed twice. -/
def overfull : AssemblyStructure :=
  ⟨[⟨pin, bolt, 18446744073709551615, none⟩, ⟨pin, bolt, 1, none⟩]⟩

theorem overfull_acyclic : ∀ rs, Chain noParts overfull rs → rs.Nodup := by
  intro rs hrs
  cases rs with
  | nil => exact List.nodup_nil
  | cons r rs =>
    obtain ⟨-, rfl | ⟨sub, hsub, -⟩⟩ := chainFrom_cons_iff.mp hrs
    · exact List.nodup_singleton r
    · cases hsub

theorem walk_bom_saturates_overfull :
    ∃ enough, ∀ fuel, enough ≤ fuel →
      ((∃ bom, walkBom .checked noParts fuel overfull = .ok bom ∧
        Bill noParts overfull (fun total => min total (2 ^ 64 - 1)) bom) ↔
          ∀ r, LeafFits noParts overfull r) := by
  refine walk_bom_saturates_iff noParts overfull ?_ overfull_acyclic
  refine Set.finite_empty.subset fun r hr => ?_
  cases hr

/-- The two paths to the leaf are added without saturation: one build stops, the other one returns
an entry of 0. -/
theorem overfull_overflows :
    (∀ rs, Chain noParts overfull rs → rs.Nodup) ∧
      (∀ fuel, walkBom .checked noParts (fuel + 1) overfull = .error .overflow) ∧
      ∀ fuel, (walkBom .release noParts (fuel + 1) overfull).map (fun bom => bom.get? bolt.bytes) =
        .ok (some 0) :=
  ⟨overfull_acyclic, fun _ => rfl, fun _ => rfl⟩

end Main
end Dmtap.Cad
