import Dmtap.Cad.Objects
import Dmtap.Lib.Overflow
import Dmtap.Lib.Paths
import Dmtap.Lib.SortedMap

/-! Bills of materials. The walk over an assembly follows references with a path that it changes in
place; as long as no reference comes back, it credits every leaf once for each path to it. -/
namespace Dmtap.Cad
open Dmtap.Lib Dmtap.Cbor

/-- What a plain addition does where the sum does not fit. -/
inductive Build
  | release
  | checked
  deriving DecidableEq

def Build.add : Build → UInt64 → UInt64 → Option UInt64
  | .release, a, b => some (a + b)
  | .checked, a, b => checkedAdd a b

def saturatingMul (a b : UInt64) : UInt64 := .ofNat (min (a.toNat * b.toNat) (2 ^ 64 - 1))

/-- Quantities by the content address of the leaf. -/
abbrev Bom := SortedMap Bytes UInt64

/-- What the walk changes in place. -/
structure Walk where
  path : List Bytes
  bom : Bom

/-- Why a walk ends without a bill. -/
inductive Stop
  | error (e : CadError)
  | overflow
  | outOfFuel
  deriving DecidableEq

section Walks
variable (build : Build) (resolve : ContentId → Option AssemblyStructure)

/-- Add to the entry of a leaf, which starts at 0. -/
def credit (bom : Bom) (key : Bytes) (effective : UInt64) : Except Stop Bom :=
  (build.add ((bom.get? key).getD 0) effective).elim (.error .overflow) fun total =>
    .ok (bom.insert key total)

/-- One child in the loop of `recurse`. -/
def visit (recurse : AssemblyStructure → UInt64 → Walk → Except Stop Walk) (multiplier : UInt64)
    (w : Walk) (child : AssemblyChild) : Except Stop Walk :=
  let key := child.reference.bytes
  if key ∈ w.path then .error (.error .cycle)
  else
    let effective := saturatingMul multiplier child.quantity
    match resolve child.reference with
    | some sub => do
      let w ← recurse sub effective { w with path := w.path ++ [key] }
      return { w with path := w.path.dropLast }
    | none => do
      let bom ← credit build w.bom key effective
      return { w with bom }

def recurse : ℕ → AssemblyStructure → UInt64 → Walk → Except Stop Walk
  | 0, _, _, _ => .error .outOfFuel
  | fuel + 1, node, multiplier, w =>
    node.children.foldlM (visit build resolve (recurse fuel) multiplier) w

def walkBom (fuel : ℕ) (root : AssemblyStructure) : Except Stop Bom := do
  let w ← recurse build resolve fuel root 1 ⟨[], .empty⟩
  return w.bom

end Walks

section Parts
variable (resolve : ContentId → Option AssemblyStructure)

/-- The parts that a reference stands for, if it is an assembly. -/
def partsOf (r : ContentId) : Option (List AssemblyChild) :=
  (resolve r).map AssemblyStructure.children

def AssemblyChild.amount (c : AssemblyChild) : ℕ := c.quantity.toNat

/-- A chain of child references from the root. -/
abbrev Chain (root : AssemblyStructure) (rs : List ContentId) : Prop :=
  ChainFrom AssemblyChild.reference (partsOf resolve) root.children rs

/-- A path from the root to a leaf, with the product of the quantities along it. -/
abbrev LeafPath (root : AssemblyStructure) (is : List ℕ) (leaf : ContentId) (p : ℕ) : Prop :=
  PartPath AssemblyChild.reference AssemblyChild.amount (partsOf resolve) root.children is leaf p

/-- The exact quantity of a leaf. -/
abbrev LeafSum (root : AssemblyStructure) (leaf : ContentId) (total : ℕ) : Prop :=
  PathSum AssemblyChild.reference AssemblyChild.amount (partsOf resolve) root.children leaf total

/-- The leaves of a list of parts down to a depth, in the order of the walk. -/
abbrev leavesOf (n : ℕ) (cs : List AssemblyChild) : List (ContentId × ℕ) :=
  leaves AssemblyChild.reference AssemblyChild.amount (partsOf resolve) n cs

end Parts

section Words

/-- The largest word that is not larger. -/
def capped (n : ℕ) : UInt64 := .ofNat (min n (2 ^ 64 - 1))

theorem toNat_capped (n : ℕ) : (capped n).toNat = min n (2 ^ 64 - 1) := by
  unfold capped
  rw [UInt64.toNat_ofNat']
  exact Nat.mod_eq_of_lt (by omega)

/-- Saturation on the way is saturation at the end. -/
theorem saturatingMul_capped (a : ℕ) (q : UInt64) :
    saturatingMul (capped a) q = capped (a * q.toNat) := by
  apply UInt64.toNat_inj.mp
  unfold saturatingMul
  change (capped ((capped a).toNat * q.toNat)).toNat = _
  rw [toNat_capped, toNat_capped, toNat_capped]
  by_cases hle : a ≤ 2 ^ 64 - 1
  · rw [min_eq_left hle]
  · have hlarge : 2 ^ 64 - 1 ≤ a := by omega
    rw [min_eq_right hlarge]
    rcases Nat.eq_zero_or_pos q.toNat with hzero | hpos
    · rw [hzero, Nat.mul_zero, Nat.mul_zero]
    · have hcap : 2 ^ 64 - 1 ≤ (2 ^ 64 - 1) * q.toNat := Nat.le_mul_of_pos_right _ hpos
      have hexact : (2 ^ 64 - 1) * q.toNat ≤ a * q.toNat := Nat.mul_le_mul_right _ hlarge
      rw [min_eq_right hcap, min_eq_right (hcap.trans hexact)]

theorem bytes_injective : Function.Injective ContentId.bytes := by
  rintro ⟨b⟩ ⟨b'⟩ h
  exact congrArg ContentId.mk h

end Words

section Credits
variable {build : Build} {bom : Bom}

/-- Credit leaves one after the other. -/
def creditAll (build : Build) (bom : Bom) (l : List (ContentId × ℕ)) : Except Stop Bom :=
  l.foldlM (fun bom x => credit build bom x.1.bytes (capped x.2)) bom

/-- The quantity credited to a leaf so far. -/
def credited (bom : Bom) (r : ContentId) : UInt64 := (bom.get? r.bytes).getD 0

/-- What a list credits to a leaf. -/
def creditsOf (r : ContentId) (l : List (ContentId × ℕ)) : ℕ :=
  ((amounts r l).map (fun p => min p (2 ^ 64 - 1))).sum

theorem creditsOf_cons_self (r : ContentId) (p : ℕ) (l : List (ContentId × ℕ)) :
    creditsOf r ((r, p) :: l) = min p (2 ^ 64 - 1) + creditsOf r l := by
  unfold creditsOf amounts
  rw [List.filter_cons_of_pos (by simp)]
  rfl

theorem creditsOf_cons_of_ne {r r' : ContentId} (h : r' ≠ r) (p : ℕ) (l : List (ContentId × ℕ)) :
    creditsOf r ((r', p) :: l) = creditsOf r l := by
  unfold creditsOf amounts
  rw [List.filter_cons_of_neg (by simpa using h)]

theorem add_of_lt {a b : UInt64} (h : a.toNat + b.toNat < 2 ^ 64) :
    build.add a b = some (a + b) := by
  cases build with
  | release => rfl
  | checked => exact checkedAdd_of_lt h

theorem credit_of_lt {r : ContentId} {n : UInt64}
    (h : (credited bom r).toNat + n.toNat < 2 ^ 64) :
    credit build bom r.bytes n = .ok (bom.insert r.bytes (credited bom r + n)) := by
  have hadd : build.add ((bom.get? r.bytes).getD 0) n = some (credited bom r + n) := add_of_lt h
  unfold credit
  rw [hadd]
  rfl

theorem credit_overflow {r : ContentId} {n : UInt64}
    (h : 2 ^ 64 ≤ (credited bom r).toNat + n.toNat) :
    credit .checked bom r.bytes n = .error .overflow := by
  have hadd : Build.checked.add ((bom.get? r.bytes).getD 0) n = none :=
    checkedAdd_eq_none_iff.mpr h
  unfold credit
  rw [hadd]
  rfl

theorem get?_insert_bytes (r r' : ContentId) (n : UInt64) :
    (bom.insert r.bytes n).get? r'.bytes = if r' = r then some n else bom.get? r'.bytes := by
  rw [SortedMap.get?_insert]
  by_cases h : r' = r
  · rw [if_pos h, if_pos (congrArg ContentId.bytes h)]
  · rw [if_neg h, if_neg fun hbytes => h (bytes_injective hbytes)]

theorem credited_insert (r r' : ContentId) (n : UInt64) :
    credited (bom.insert r.bytes n) r' = if r' = r then n else credited bom r' := by
  unfold credited
  rw [get?_insert_bytes]
  split_ifs with h
  · rfl
  · rfl

/-- Where no leaf is credited more than fits, every leaf is credited what the list holds for it. -/
theorem creditAll_of_fits {l : List (ContentId × ℕ)}
    (h : ∀ r, (credited bom r).toNat + creditsOf r l < 2 ^ 64) :
    ∃ bom', creditAll build bom l = .ok bom' ∧ ∀ r,
      (credited bom' r).toNat = (credited bom r).toNat + creditsOf r l ∧
      ((bom'.get? r.bytes).isSome ↔ (bom.get? r.bytes).isSome ∨ r ∈ l.map Prod.fst) := by
  induction l generalizing bom with
  | nil => exact ⟨bom, rfl, fun r => ⟨rfl, by simp⟩⟩
  | cons x l ih =>
    obtain ⟨r₀, p⟩ := x
    have hfirst := h r₀
    rw [creditsOf_cons_self] at hfirst
    have hadd : (credited bom r₀).toNat + (capped p).toNat < 2 ^ 64 := by
      rw [toNat_capped]
      omega
    have hnext : ∀ r, (credited (bom.insert r₀.bytes (credited bom r₀ + capped p)) r).toNat +
        creditsOf r l = (credited bom r).toNat + creditsOf r ((r₀, p) :: l) := by
      intro r
      rw [credited_insert]
      by_cases hr : r = r₀
      · rw [if_pos hr, hr, creditsOf_cons_self, toNat_add_of_lt hadd, toNat_capped]
        omega
      · rw [if_neg hr, creditsOf_cons_of_ne (Ne.symm hr)]
    obtain ⟨bom', hrun, hbom'⟩ := ih fun r => by rw [hnext r]; exact h r
    refine ⟨bom', ?_, fun r => ?_⟩
    · unfold creditAll at hrun ⊢
      rw [List.foldlM_cons, credit_of_lt hadd]
      exact hrun
    · obtain ⟨hvalue, hpresent⟩ := hbom' r
      rw [hnext] at hvalue
      refine ⟨hvalue, ?_⟩
      rw [hpresent, get?_insert_bytes, List.map_cons, List.mem_cons]
      by_cases hr : r = r₀
      · simp [hr]
      · simp [hr]

/-- Where some leaf is credited more than fits, a build with overflow checks stops. -/
theorem creditAll_overflow {l : List (ContentId × ℕ)} {r : ContentId}
    (h : 2 ^ 64 ≤ (credited bom r).toNat + creditsOf r l) :
    creditAll .checked bom l = .error .overflow := by
  induction l generalizing bom with
  | nil =>
    have hlt := (credited bom r).toNat_lt
    change 2 ^ 64 ≤ (credited bom r).toNat + 0 at h
    omega
  | cons x l ih =>
    obtain ⟨r₀, p⟩ := x
    unfold creditAll
    rw [List.foldlM_cons]
    by_cases hadd : (credited bom r₀).toNat + (capped p).toNat < 2 ^ 64
    · rw [credit_of_lt hadd]
      refine ih ?_
      rw [credited_insert]
      by_cases hr : r = r₀
      · rw [hr, creditsOf_cons_self] at h
        rw [if_pos hr, hr, toNat_add_of_lt hadd, toNat_capped]
        omega
      · rw [creditsOf_cons_of_ne (Ne.symm hr)] at h
        rw [if_neg hr]
        exact h
    · rw [credit_overflow (Nat.le_of_not_lt hadd)]
      rfl

/-- Nothing but an overflow in a build with checks ends the credits. -/
theorem creditAll_ok_or {l : List (ContentId × ℕ)} :
    (∃ bom', creditAll build bom l = .ok bom') ∨
      build = .checked ∧ creditAll build bom l = .error .overflow := by
  cases build with
  | release =>
    left
    induction l generalizing bom with
    | nil => exact ⟨bom, rfl⟩
    | cons x l ih => exact ih
  | checked =>
    by_cases h : ∀ r, (credited bom r).toNat + creditsOf r l < 2 ^ 64
    · obtain ⟨bom', hrun, -⟩ := @creditAll_of_fits .checked bom l h
      exact Or.inl ⟨bom', hrun⟩
    · obtain ⟨r, hr⟩ := not_forall.mp h
      exact Or.inr ⟨rfl, creditAll_overflow (Nat.le_of_not_lt hr)⟩

end Credits

section Recursion
variable {build : Build} {resolve : ContentId → Option AssemblyStructure} {bom : Bom}
  {path : List ContentId} {n : ℕ}

/-- The state of the walk below the references of `path`. -/
def walkAt (path : List ContentId) (bom : Bom) : Walk := ⟨path.map ContentId.bytes, bom⟩

/-- The products along longer paths. -/
def scaled (a : ℕ) (l : List (ContentId × ℕ)) : List (ContentId × ℕ) := l.map fun x => (x.1, a * x.2)

theorem creditAll_append (l l' : List (ContentId × ℕ)) :
    creditAll build bom (l ++ l') = creditAll build bom l >>= fun bom => creditAll build bom l' :=
  List.foldlM_append

theorem creditAll_singleton (r : ContentId) (p : ℕ) :
    creditAll build bom [(r, p)] = credit build bom r.bytes (capped p) := by
  unfold creditAll
  rw [List.foldlM_cons]
  exact bind_pure _

theorem scaled_scaled (a q : ℕ) (l : List (ContentId × ℕ)) :
    scaled a (l.map fun x => (x.1, q * x.2)) = scaled (a * q) l := by
  unfold scaled
  rw [List.map_map]
  refine List.map_congr_left fun x _ => ?_
  change (x.1, a * (q * x.2)) = _
  rw [Nat.mul_assoc]

/-- Popping undoes the push. -/
theorem pop_walkAt (r : ContentId) :
    ({ walkAt (path ++ [r]) bom with path := (walkAt (path ++ [r]) bom).path.dropLast } : Walk) =
      walkAt path bom := by
  unfold walkAt
  dsimp only
  rw [List.map_append, List.map_singleton, List.dropLast_concat]

section Visits
variable {rec : AssemblyStructure → UInt64 → Walk → Except Stop Walk} {m : UInt64}
  {c : AssemblyChild}

theorem visit_of_mem (h : c.reference ∈ path) :
    visit build resolve rec m (walkAt path bom) c = .error (.error .cycle) :=
  if_pos (List.mem_map_of_mem h)

theorem bytes_not_mem (h : c.reference ∉ path) : c.reference.bytes ∉ (walkAt path bom).path := by
  intro hmem
  obtain ⟨r, hr, hbytes⟩ := List.mem_map.mp hmem
  rw [bytes_injective hbytes] at hr
  exact h hr

theorem visit_leaf (h : c.reference ∉ path) (hleaf : resolve c.reference = none) :
    visit build resolve rec m (walkAt path bom) c =
      (credit build bom c.reference.bytes (saturatingMul m c.quantity)).map (walkAt path) := by
  unfold visit
  dsimp only
  rw [if_neg (bytes_not_mem h), hleaf]
  rfl

/-- The pushed reference is the last of the path when the recursion is over. -/
theorem visit_sub (h : c.reference ∉ path) {sub : AssemblyStructure}
    (hsub : resolve c.reference = some sub) :
    visit build resolve rec m (walkAt path bom) c =
      (rec sub (saturatingMul m c.quantity) (walkAt (path ++ [c.reference]) bom) >>= fun w =>
        .ok { w with path := w.path.dropLast }) := by
  have hpush : (walkAt path bom).path ++ [c.reference.bytes] =
      (path ++ [c.reference]).map ContentId.bytes := by
    rw [List.map_append]
    rfl
  unfold visit
  dsimp only
  rw [if_neg (bytes_not_mem h), hsub, hpush]
  rfl

end Visits

/-- A loop whose every round credits some leaves credits them all. -/
theorem foldlM_of_credits {step : Walk → AssemblyChild → Except Stop Walk}
    {f : AssemblyChild → List (ContentId × ℕ)} {cs : List AssemblyChild}
    (h : ∀ c ∈ cs, ∀ bom, step (walkAt path bom) c = (creditAll build bom (f c)).map (walkAt path)) :
    cs.foldlM step (walkAt path bom) =
      (creditAll build bom (cs.flatMap f)).map (walkAt path) := by
  induction cs generalizing bom with
  | nil => rfl
  | cons c cs ih =>
    obtain ⟨hc, hcs⟩ := List.forall_mem_cons.mp h
    rw [List.foldlM_cons, List.flatMap_cons, creditAll_append, hc]
    cases creditAll build bom (f c) with
    | error e => rfl
    | ok bom' => exact ih hcs

/-- A walk that ended with the cycle, or with an overflow before it. -/
def Stopped (build : Build) (x : Except Stop Walk) : Prop :=
  x = .error (.error .cycle) ∨ build = .checked ∧ x = .error .overflow

/-- A loop of rounds that credit some leaves or stop, one of them for good. -/
theorem foldlM_stopped {step : Walk → AssemblyChild → Except Stop Walk} {good : AssemblyChild → Prop}
    {cs : List AssemblyChild}
    (hgood : ∀ c ∈ cs, good c → ∀ bom, ∃ l,
      step (walkAt path bom) c = (creditAll build bom l).map (walkAt path))
    (hbad : ∀ c ∈ cs, ¬ good c → ∀ bom, Stopped build (step (walkAt path bom) c))
    (hsome : ∃ c ∈ cs, ¬ good c) : Stopped build (cs.foldlM step (walkAt path bom)) := by
  induction cs generalizing bom with
  | nil =>
    obtain ⟨c, hc, -⟩ := hsome
    cases hc
  | cons c cs ih =>
    obtain ⟨hgoodc, hgoodcs⟩ := List.forall_mem_cons.mp hgood
    obtain ⟨hbadc, hbadcs⟩ := List.forall_mem_cons.mp hbad
    rw [List.foldlM_cons]
    by_cases hc : good c
    · obtain ⟨l, hstep⟩ := hgoodc hc bom
      have hrest : ∃ c ∈ cs, ¬ good c := by
        obtain ⟨c', hc', hnot⟩ := hsome
        rcases List.mem_cons.mp hc' with rfl | hmem
        · exact absurd hc hnot
        · exact ⟨c', hmem, hnot⟩
      have hcredits : (∃ bom', creditAll build bom l = .ok bom') ∨ _ := creditAll_ok_or
      rw [hstep]
      rcases hcredits with ⟨bom', hrun⟩ | ⟨hchecked, hrun⟩
      · rw [hrun]
        exact ih hgoodcs hbadcs hrest
      · rw [hrun]
        exact Or.inr ⟨hchecked, rfl⟩
    · rcases hbadc hc bom with hcycle | ⟨hchecked, hover⟩
      · rw [hcycle]
        exact Or.inl rfl
      · rw [hover]
        exact Or.inr ⟨hchecked, rfl⟩

theorem partsOf_of_resolve {r : ContentId} {sub : AssemblyStructure} (h : resolve r = some sub) :
    partsOf resolve r = some sub.children := by
  unfold partsOf
  rw [h]
  rfl

theorem partsOf_eq_none {r : ContentId} (h : resolve r = none) : partsOf resolve r = none := by
  unfold partsOf
  rw [h]
  rfl

/-- One child, given what the recursion does with its own children. -/
theorem visit_of_fresh {c : AssemblyChild} {a : ℕ} (hnot : c.reference ∉ path)
    (hrec : ∀ sub, resolve c.reference = some sub →
      recurse build resolve n sub (capped (a * c.amount)) (walkAt (path ++ [c.reference]) bom) =
        (creditAll build bom (scaled (a * c.amount) (leavesOf resolve n sub.children))).map
          (walkAt (path ++ [c.reference]))) :
    visit build resolve (recurse build resolve n) (capped a) (walkAt path bom) c =
      (creditAll build bom (scaled a (leavesThrough AssemblyChild.reference AssemblyChild.amount
        (partsOf resolve) (leavesOf resolve n) c))).map (walkAt path) := by
  cases hresolve : resolve c.reference with
  | none =>
    have hsingle : scaled a [(c.reference, c.amount)] = [(c.reference, a * c.amount)] := rfl
    rw [visit_leaf hnot hresolve, leavesThrough_leaf (partsOf_eq_none hresolve),
      saturatingMul_capped, hsingle, creditAll_singleton]
    rfl
  | some sub =>
    have hbelow := hrec sub hresolve
    unfold AssemblyChild.amount at hbelow
    rw [visit_sub hnot hresolve, leavesThrough_sub (partsOf_of_resolve hresolve),
      saturatingMul_capped, hbelow, scaled_scaled]
    change ((creditAll build bom (scaled (a * c.amount) _)).map _ >>= _) = _
    cases creditAll build bom (scaled (a * c.amount) (leavesOf resolve n sub.children)) with
    | error e => rfl
    | ok bom' => exact congrArg Except.ok (pop_walkAt c.reference)

variable {S : Finset ContentId} (hS : ∀ r sub, partsOf resolve r = some sub → r ∈ S)
include hS

/-- Where no reference comes back, the walk credits the leaves at the ends of all paths, and its own
path is as it was. By induction on the room that is left. -/
theorem recurse_of_acyclic (hroom : RoomFor S path n) {node : AssemblyStructure}
    (h : Acyclic AssemblyChild.reference (partsOf resolve) path node.children) (a : ℕ) :
    recurse build resolve n node (capped a) (walkAt path bom) =
      (creditAll build bom (scaled a (leavesOf resolve n node.children))).map (walkAt path) := by
  induction n generalizing path node a bom with
  | zero => exact absurd hroom.pos (Nat.lt_irrefl 0)
  | succ n ih =>
    obtain ⟨-, hcs⟩ := acyclic_iff.mp h
    have hleaves : scaled a (leavesOf resolve (n + 1) node.children) =
        node.children.flatMap fun c => scaled a (leavesThrough AssemblyChild.reference
          AssemblyChild.amount (partsOf resolve) (leavesOf resolve n) c) :=
      List.map_flatMap
    rw [hleaves]
    refine foldlM_of_credits fun c hc bom => ?_
    obtain ⟨hnot, hsubs⟩ := hcs c hc
    refine visit_of_fresh hnot fun sub hresolve => ?_
    have hsub := partsOf_of_resolve hresolve
    exact ih (hroom.push (hS _ _ hsub) hnot) (hsubs _ hsub) _

/-- Where some reference comes back, the walk ends with the cycle, unless an overflow ended it
before. -/
theorem recurse_of_cyclic (hroom : RoomFor S path n) {node : AssemblyStructure}
    (h : ¬ Acyclic AssemblyChild.reference (partsOf resolve) path node.children) (a : ℕ) :
    Stopped build (recurse build resolve n node (capped a) (walkAt path bom)) := by
  induction n generalizing path node a bom with
  | zero => exact absurd hroom.pos (Nat.lt_irrefl 0)
  | succ n ih =>
    have hbad : ∃ c ∈ node.children,
        ¬ Fresh AssemblyChild.reference (partsOf resolve) path c := by
      by_contra hall
      push Not at hall
      exact h (acyclic_iff.mpr ⟨hroom.nodup, hall⟩)
    refine foldlM_stopped (fun c _ hfresh bom => ?_) (fun c _ hnot bom => ?_) hbad
    · obtain ⟨hnot, hsubs⟩ := hfresh
      refine ⟨_, visit_of_fresh hnot fun sub hresolve => ?_⟩
      have hsub := partsOf_of_resolve hresolve
      exact recurse_of_acyclic hS (hroom.push (hS _ _ hsub) hnot) (hsubs _ hsub) _
    · by_cases hmem : c.reference ∈ path
      · rw [visit_of_mem hmem]
        exact Or.inl rfl
      · obtain ⟨sub, hsub, hcyclic⟩ : ∃ sub, partsOf resolve c.reference = some sub ∧
            ¬ Acyclic AssemblyChild.reference (partsOf resolve) (path ++ [c.reference]) sub := by
          by_contra hnone
          push Not at hnone
          exact hnot ⟨hmem, hnone⟩
        obtain ⟨sub, hresolve, rfl⟩ := Option.map_eq_some_iff.mp hsub
        have hbelow : Stopped build (recurse build resolve n sub (capped (a * c.quantity.toNat))
            (walkAt (path ++ [c.reference]) bom)) :=
          ih (hroom.push (hS _ _ hsub) hmem) hcyclic _
        rw [visit_sub hmem hresolve, saturatingMul_capped]
        rcases hbelow with hcycle | ⟨hchecked, hover⟩
        · rw [hcycle]
          exact Or.inl rfl
        · rw [hover]
          exact Or.inr ⟨hchecked, rfl⟩

end Recursion
end Dmtap.Cad
