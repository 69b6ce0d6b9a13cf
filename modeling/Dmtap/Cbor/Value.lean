import Dmtap.Lib.Bytes

/-! The value tree of the deterministic CBOR profile. -/
namespace Dmtap.Cbor
open Dmtap.Lib

/-- A canonical CBOR value. Integers are unsigned; `map` is the integer-keyed object
encoding and `textMap` the extension containers. -/
inductive Cv
  | u64 (n : UInt64)
  | bytes (b : Bytes)
  | text (s : String)
  | bool (b : Bool)
  | array (a : List Cv)
  | map (m : List (UInt64 × Cv))
  | textMap (m : List (String × Cv))

inductive CborError
  | malformed
  | nonShortestForm
  | indefiniteLength
  | mapKeyOrder
  | trailingData
  | floatPresent
  | nullPresent
  | tagOrUndefined
  | duplicateKey (k : UInt64)
  | duplicateTextKey
  | mixedMapKeys
  | intRange
  | typeMismatch
  | unknownKey (k : UInt64)
  | missingKey (k : UInt64)
  | manifestKeyPresent
  | manifestEmptyChunks
  | unknownSuite (b : UInt8)
  | unknownDiscriminant (d : UInt64)
  deriving DecidableEq, Repr

namespace Cv

/-- Induction over the nested tree: a container may assume the claim of its items. -/
@[elab_as_elim]
theorem induct {P : Cv → Prop} (u64 : ∀ n, P (.u64 n)) (bytes : ∀ b, P (.bytes b))
    (text : ∀ s, P (.text s)) (bool : ∀ b, P (.bool b))
    (array : ∀ a, (∀ v ∈ a, P v) → P (.array a))
    (map : ∀ m, (∀ p ∈ m, P p.2) → P (.map m))
    (textMap : ∀ m, (∀ p ∈ m, P p.2) → P (.textMap m)) (v : Cv) : P v := by
  refine @Cv.rec P (fun a => ∀ v ∈ a, P v) (fun m => ∀ p ∈ m, P p.2) (fun m => ∀ p ∈ m, P p.2)
    (fun p => P p.2) (fun p => P p.2) u64 bytes text bool array map textMap
    ?_ ?_ ?_ ?_ ?_ ?_ ?_ ?_ v
  · exact List.forall_mem_nil P
  · intro w a hw ha
    exact List.forall_mem_cons.mpr ⟨hw, ha⟩
  · exact List.forall_mem_nil _
  · intro p m hp hm
    exact List.forall_mem_cons.mpr ⟨hp, hm⟩
  · exact List.forall_mem_nil _
  · intro p m hp hm
    exact List.forall_mem_cons.mpr ⟨hp, hm⟩
  · intro k w hw
    exact hw
  · intro k w hw
    exact hw

mutual
/-- A value with every value nested in it; map keys are no items of their own here. -/
def items : Cv → List Cv
  | .array a => .array a :: itemsArray a
  | .map m => .map m :: itemsMap m
  | .textMap m => .textMap m :: itemsTextMap m
  | v => [v]
def itemsArray : List Cv → List Cv
  | [] => []
  | v :: a => items v ++ itemsArray a
def itemsMap : List (UInt64 × Cv) → List Cv
  | [] => []
  | (_, v) :: m => items v ++ itemsMap m
def itemsTextMap : List (String × Cv) → List Cv
  | [] => []
  | (_, v) :: m => items v ++ itemsTextMap m
end

mutual
/-- The depth of the deepest item, the root being at depth 0. The keys of a map sit at
the depth of its values, so they never decide the maximum. -/
def depth : Cv → ℕ
  | .array a => depthArray a
  | .map m => depthMap m
  | .textMap m => depthTextMap m
  | _ => 0
def depthArray : List Cv → ℕ
  | [] => 0
  | v :: a => max (depth v + 1) (depthArray a)
def depthMap : List (UInt64 × Cv) → ℕ
  | [] => 0
  | (_, v) :: m => max (depth v + 1) (depthMap m)
def depthTextMap : List (String × Cv) → ℕ
  | [] => 0
  | (_, v) :: m => max (depth v + 1) (depthTextMap m)
end

theorem itemsArray_eq (a : List Cv) : itemsArray a = a.flatMap items := by
  induction a with
  | nil => rfl
  | cons v a ih =>
    show v.items ++ itemsArray a = _
    rw [ih, List.flatMap_cons]

theorem itemsMap_eq (m : List (UInt64 × Cv)) : itemsMap m = m.flatMap (fun p => items p.2) := by
  induction m with
  | nil => rfl
  | cons p m ih =>
    show p.2.items ++ itemsMap m = _
    rw [ih, List.flatMap_cons]

theorem itemsTextMap_eq (m : List (String × Cv)) :
    itemsTextMap m = m.flatMap (fun p => items p.2) := by
  induction m with
  | nil => rfl
  | cons p m ih =>
    show p.2.items ++ itemsTextMap m = _
    rw [ih, List.flatMap_cons]

theorem self_mem_items (v : Cv) : v ∈ v.items := by
  cases v <;> exact List.mem_cons_self

section Items
variable {P : Cv → Prop}

private theorem forall_cons_flatMap {α : Type} {v : Cv} {l : List α} {f : α → List Cv} :
    (∀ w ∈ v :: l.flatMap f, P w) ↔ P v ∧ ∀ x ∈ l, ∀ w ∈ f x, P w := by
  simp only [List.forall_mem_cons, List.mem_flatMap]
  exact and_congr_right fun _ => ⟨fun h x hx w hw => h w ⟨x, hx, hw⟩,
    fun h w ⟨x, hx, hw⟩ => h x hx w hw⟩

theorem forall_items_array {a : List Cv} :
    (∀ w ∈ (array a).items, P w) ↔ P (.array a) ∧ ∀ v ∈ a, ∀ w ∈ v.items, P w := by
  show (∀ w ∈ array a :: itemsArray a, P w) ↔ _
  rw [itemsArray_eq, forall_cons_flatMap]

theorem forall_items_map {m : List (UInt64 × Cv)} :
    (∀ w ∈ (map m).items, P w) ↔ P (.map m) ∧ ∀ p ∈ m, ∀ w ∈ p.2.items, P w := by
  show (∀ w ∈ map m :: itemsMap m, P w) ↔ _
  rw [itemsMap_eq, forall_cons_flatMap]

theorem forall_items_textMap {m : List (String × Cv)} :
    (∀ w ∈ (textMap m).items, P w) ↔ P (.textMap m) ∧ ∀ p ∈ m, ∀ w ∈ p.2.items, P w := by
  show (∀ w ∈ textMap m :: itemsTextMap m, P w) ↔ _
  rw [itemsTextMap_eq, forall_cons_flatMap]

end Items

theorem depth_array_le {a : List Cv} {n : ℕ} :
    (array a).depth ≤ n ↔ ∀ v ∈ a, v.depth + 1 ≤ n := by
  show depthArray a ≤ n ↔ _
  induction a with
  | nil => exact iff_of_true (Nat.zero_le n) (List.forall_mem_nil _)
  | cons v a ih =>
    show max (v.depth + 1) (depthArray a) ≤ n ↔ _
    rw [max_le_iff, ih, List.forall_mem_cons]

theorem depth_map_le {m : List (UInt64 × Cv)} {n : ℕ} :
    (map m).depth ≤ n ↔ ∀ p ∈ m, p.2.depth + 1 ≤ n := by
  show depthMap m ≤ n ↔ _
  induction m with
  | nil => exact iff_of_true (Nat.zero_le n) (List.forall_mem_nil _)
  | cons p m ih =>
    show max (p.2.depth + 1) (depthMap m) ≤ n ↔ _
    rw [max_le_iff, ih, List.forall_mem_cons]

theorem depth_textMap_le {m : List (String × Cv)} {n : ℕ} :
    (textMap m).depth ≤ n ↔ ∀ p ∈ m, p.2.depth + 1 ≤ n := by
  show depthTextMap m ≤ n ↔ _
  induction m with
  | nil => exact iff_of_true (Nat.zero_le n) (List.forall_mem_nil _)
  | cons p m ih =>
    show max (p.2.depth + 1) (depthTextMap m) ≤ n ↔ _
    rw [max_le_iff, ih, List.forall_mem_cons]

/-- The keys of this one map, if the value is a map, are pairwise distinct. -/
def OwnKeysDistinct : Cv → Prop
  | .map m => (m.map Prod.fst).Nodup
  | .textMap m => (m.map Prod.fst).Nodup
  | _ => True

/-- Every map inside the value, at any depth, has pairwise distinct keys. -/
def KeysDistinct (v : Cv) : Prop := ∀ w ∈ v.items, w.OwnKeysDistinct

/-- The lengths of this one value's byte string, text, text keys or entry list are `u64`s. -/
def OwnLengthsFit : Cv → Prop
  | .bytes b => b.length < 2 ^ 64
  | .text s => (utf8 s).length < 2 ^ 64
  | .array a => a.length < 2 ^ 64
  | .map m => m.length < 2 ^ 64
  | .textMap m => m.length < 2 ^ 64 ∧ ∀ p ∈ m, (utf8 p.1).length < 2 ^ 64
  | _ => True

/-- Every vector and string inside the value is short enough to exist in the source's
address space, where a length is a `usize`. -/
def LengthsFit (v : Cv) : Prop := ∀ w ∈ v.items, w.OwnLengthsFit

instance : DecidablePred OwnKeysDistinct := fun v => by
  cases v <;> unfold OwnKeysDistinct <;> infer_instance

instance : DecidablePred KeysDistinct := fun v =>
  inferInstanceAs (Decidable (∀ w ∈ v.items, w.OwnKeysDistinct))

instance : DecidablePred OwnLengthsFit := fun v => by
  cases v <;> unfold OwnLengthsFit <;> infer_instance

instance : DecidablePred LengthsFit := fun v =>
  inferInstanceAs (Decidable (∀ w ∈ v.items, w.OwnLengthsFit))

@[simp] theorem keysDistinct_u64 (n : UInt64) : (u64 n).KeysDistinct := by
  exact List.forall_mem_singleton.mpr trivial

@[simp] theorem keysDistinct_bytes (b : Bytes) : (bytes b).KeysDistinct := by
  exact List.forall_mem_singleton.mpr trivial

@[simp] theorem keysDistinct_text (s : String) : (text s).KeysDistinct := by
  exact List.forall_mem_singleton.mpr trivial

@[simp] theorem keysDistinct_bool (b : Bool) : (bool b).KeysDistinct := by
  exact List.forall_mem_singleton.mpr trivial

theorem keysDistinct_array {a : List Cv} :
    (array a).KeysDistinct ↔ ∀ v ∈ a, v.KeysDistinct :=
  forall_items_array.trans (and_iff_right trivial)

theorem keysDistinct_map {m : List (UInt64 × Cv)} :
    (map m).KeysDistinct ↔ (m.map Prod.fst).Nodup ∧ ∀ p ∈ m, p.2.KeysDistinct :=
  forall_items_map

theorem keysDistinct_textMap {m : List (String × Cv)} :
    (textMap m).KeysDistinct ↔ (m.map Prod.fst).Nodup ∧ ∀ p ∈ m, p.2.KeysDistinct :=
  forall_items_textMap

theorem lengthsFit_array {a : List Cv} :
    (array a).LengthsFit ↔ a.length < 2 ^ 64 ∧ ∀ v ∈ a, v.LengthsFit :=
  forall_items_array

theorem lengthsFit_map {m : List (UInt64 × Cv)} :
    (map m).LengthsFit ↔ m.length < 2 ^ 64 ∧ ∀ p ∈ m, p.2.LengthsFit :=
  forall_items_map

theorem lengthsFit_textMap {m : List (String × Cv)} :
    (textMap m).LengthsFit ↔ (m.length < 2 ^ 64 ∧ ∀ p ∈ m, (utf8 p.1).length < 2 ^ 64) ∧
      ∀ p ∈ m, p.2.LengthsFit :=
  forall_items_textMap

mutual
/-- Structural equality, the derived `PartialEq`. -/
def same : Cv → Cv → Bool
  | .u64 n, .u64 n' => n == n'
  | .bytes b, .bytes b' => b == b'
  | .text s, .text s' => s == s'
  | .bool b, .bool b' => b == b'
  | .array a, .array a' => sameArray a a'
  | .map m, .map m' => sameMap m m'
  | .textMap m, .textMap m' => sameTextMap m m'
  | _, _ => false
termination_by structural v => v
def sameArray : List Cv → List Cv → Bool
  | [], [] => true
  | v :: a, v' :: a' => same v v' && sameArray a a'
  | _, _ => false
termination_by structural v => v
def sameMap : List (UInt64 × Cv) → List (UInt64 × Cv) → Bool
  | [], [] => true
  | (k, v) :: m, (k', v') :: m' => k == k' && same v v' && sameMap m m'
  | _, _ => false
termination_by structural v => v
def sameTextMap : List (String × Cv) → List (String × Cv) → Bool
  | [], [] => true
  | (k, v) :: m, (k', v') :: m' => k == k' && same v v' && sameTextMap m m'
  | _, _ => false
termination_by structural v => v
end

private theorem sameArray_iff {a : List Cv} (h : ∀ v ∈ a, ∀ w, same v w = true ↔ v = w) (b : List Cv) :
    sameArray a b = true ↔ a = b := by
  induction a generalizing b with
  | nil => cases b <;> simp [sameArray]
  | cons v a ih =>
    have ha := ih fun w hw => h w (List.mem_cons_of_mem v hw)
    cases b <;> simp [sameArray, h v List.mem_cons_self, ha]

private theorem sameMap_iff {a : List (UInt64 × Cv)} (h : ∀ p ∈ a, ∀ w, same p.2 w = true ↔ p.2 = w)
    (b : List (UInt64 × Cv)) : sameMap a b = true ↔ a = b := by
  induction a generalizing b with
  | nil => cases b <;> simp [sameMap]
  | cons p a ih =>
    have ha := ih fun w hw => h w (List.mem_cons_of_mem p hw)
    cases b <;> simp [sameMap, h p List.mem_cons_self, ha, Prod.ext_iff]

private theorem sameTextMap_iff {a : List (String × Cv)}
    (h : ∀ p ∈ a, ∀ w, same p.2 w = true ↔ p.2 = w) (b : List (String × Cv)) :
    sameTextMap a b = true ↔ a = b := by
  induction a generalizing b with
  | nil => cases b <;> simp [sameTextMap]
  | cons p a ih =>
    have ha := ih fun w hw => h w (List.mem_cons_of_mem p hw)
    cases b <;> simp [sameTextMap, h p List.mem_cons_self, ha, Prod.ext_iff]

theorem same_iff (v : Cv) : ∀ w, same v w = true ↔ v = w := by
  induction v using Cv.induct with
  | array a ih => intro w; cases w <;> simp [same, sameArray_iff ih]
  | map m ih => intro w; cases w <;> simp [same, sameMap_iff ih]
  | textMap m ih => intro w; cases w <;> simp [same, sameTextMap_iff ih]
  | _ => intro w; cases w <;> simp [same]

instance : DecidableEq Cv := fun v w => decidable_of_iff _ (same_iff v w)

end Cv
end Dmtap.Cbor
