import Dmtap.Cbor.Lossless
import Dmtap.Cbor.RoundTrip

/-! Decoders that restore: reading the normal form of what an object writes returns the object.
Encodings are prefix free, so what is written side by side can be told apart. -/
namespace Dmtap.Cbor
open Dmtap.Lib

section Encodings
variable {v w : Cv} {s t : Bytes}

theorem decode_enc (hv : v.LengthsFit) (hd : v.KeysDistinct) (hdepth : v.depth ≤ maxNestingDepth) :
    decode (encode v) = .ok (norm v) := by
  have hreads := Decoder.value_reads hv (maxNestingDepth + 1) []
  rw [List.append_nil] at hreads
  exact decode_eq_ok.mpr (hreads.1 ⟨hd, Nat.lt_succ_iff.mpr hdepth⟩)

/-- No encoding is continued by another one: what follows two equal encodings is equal. -/
theorem enc_append_injective (hv : v.LengthsFit) (hvd : v.KeysDistinct) (hw : w.LengthsFit)
    (hwd : w.KeysDistinct) (h : enc v ++ s = enc w ++ t) : norm v = norm w ∧ s = t := by
  have hreadv := Decoder.value_reads hv (max v.depth w.depth + 1) s
  have hreadw := Decoder.value_reads hw (max v.depth w.depth + 1) t
  have hrunv := hreadv.1 ⟨hvd, Nat.lt_succ_iff.mpr (le_max_left _ _)⟩
  have hrunw := hreadw.1 ⟨hwd, Nat.lt_succ_iff.mpr (le_max_right _ _)⟩
  rw [h, hrunw] at hrunv
  have hpair := Prod.mk.inj (Except.ok.inj hrunv)
  exact ⟨hpair.1.symm, hpair.2.symm⟩

/-- The normal form is written like the value. -/
theorem enc_norm (hv : v.LengthsFit) (hvd : v.KeysDistinct) : enc (norm v) = enc v := by
  have hreads := Decoder.value_reads hv (v.depth + 1) []
  have hrun := hreads.1 ⟨hvd, Nat.lt_succ_self v.depth⟩
  have hstrict := (Decoder.value_strict (v.depth + 1) hrun).1
  rw [List.append_nil, List.append_nil] at hstrict
  exact hstrict.symm

end Encodings

section Coercions

theorem asU8_norm (b : UInt8) : asU8 (norm (.u64 b.toUInt64)) = .ok b := by
  have hlt : b.toUInt64.toNat < 2 ^ 8 := by
    rw [UInt8.toNat_toUInt64]
    exact b.toNat_lt
  change (if b.toUInt64.toNat < 2 ^ 8 then Except.ok b.toUInt64.toUInt8 else _) = _
  rw [if_pos hlt, UInt8.toUInt8_toUInt64]

theorem asU32_norm (n : UInt32) : asU32 (norm (.u64 n.toUInt64)) = .ok n := by
  have hlt : n.toUInt64.toNat < 2 ^ 32 := by
    rw [UInt32.toNat_toUInt64]
    exact n.toNat_lt
  change (if n.toUInt64.toNat < 2 ^ 32 then Except.ok n.toUInt64.toUInt32 else _) = _
  rw [if_pos hlt, UInt32.toUInt32_toUInt64]

theorem normArray_eq (a : List Cv) : normArray a = a.map norm := by
  induction a with
  | nil => rfl
  | cons v a ih => simp [normArray, ih]

theorem asArrayOf_norm {α : Type} {dec : Cv → Except CborError α} {put : α → Cv} {l : List α}
    (h : ∀ a ∈ l, dec (norm (put a)) = .ok a) :
    asArrayOf dec (norm (.array (l.map put))) = .ok l := by
  change (normArray (l.map put)).mapM dec = .ok l
  rw [normArray_eq]
  induction l with
  | nil => rfl
  | cons a l ih =>
    have ha := h a List.mem_cons_self
    have hl := ih fun b hb => h b (List.mem_cons_of_mem a hb)
    rw [List.map_cons, List.map_cons, List.mapM_cons, ha, hl]
    rfl

end Coercions

section Records
variable {ε ε' α β : Type} [ErrorFrom CborError ε] [ErrorFrom ε' ε]

/-- Every key of the map is above `k`. -/
def KeysAbove (k : UInt64) (m : Fields) : Prop := ∀ p ∈ m, k < p.1

@[simp] theorem keysAbove_nil (k : UInt64) : KeysAbove k [] := by
  simp [KeysAbove]

@[simp] theorem keysAbove_cons {k k' : UInt64} {v : Cv} {m : Fields} :
    KeysAbove k ((k', v) :: m) ↔ k < k' ∧ KeysAbove k m := by
  simp [KeysAbove]

@[simp] theorem keysAbove_append {k : UInt64} {m m' : Fields} :
    KeysAbove k (m ++ m') ↔ KeysAbove k m ∧ KeysAbove k m' := by
  simp [KeysAbove, or_imp, forall_and]

@[simp] theorem keysAbove_normMap {k : UInt64} {m : Fields} :
    KeysAbove k (normMap m) ↔ KeysAbove k m := by
  rw [normMap_eq]
  unfold KeysAbove
  rw [List.forall_mem_map]

theorem keysAbove_opt {k k' : UInt64} {put : α → Cv} (o : Option α) (h : k < k') :
    KeysAbove k (Fields.opt k' put o) := by
  cases o <;> simp [Fields.opt, h]

theorem run_req {k : UInt64} {dec : Cv → Except ε' α} {f : α → FieldReader ε β} {v : Cv} {a : α}
    {m : Fields} {res : Except ε (β × Fields)} (h : dec (norm v) = .ok a)
    (hf : (f a).run (normMap m) = res) :
    (Fields.req k dec >>= f).run (normMap ((k, v) :: m)) = res :=
  (Reader.run_bind_ok (Record.field_run_cons h (normMap m))).trans hf

omit [ErrorFrom CborError ε] in
theorem run_take {k : UInt64} {dec : Cv → Except ε' α} {put : α → Cv}
    {f : Option α → FieldReader ε β} {o : Option α} {m : Fields} {res : Except ε (β × Fields)}
    (h : ∀ a ∈ o, dec (norm (put a)) = .ok a) (hm : KeysAbove k m)
    (hf : (f o).run (normMap m) = res) :
    (Fields.take k dec >>= f).run (normMap (Fields.opt k put o ++ m)) = res := by
  refine Eq.trans ?_ hf
  cases o with
  | none =>
    have hne : ∀ p ∈ normMap m, p.1 ≠ k := fun p hp =>
      (UInt64.ne_of_lt (keysAbove_normMap.mpr hm p hp)).symm
    exact Reader.run_bind_ok (Record.optField_run_none hne)
  | some a => exact Reader.run_bind_ok (Record.optField_run_cons (h a rfl) (normMap m))

omit [ErrorFrom CborError ε] in
theorem run_take_last {k : UInt64} {dec : Cv → Except ε' α} {put : α → Cv}
    {f : Option α → FieldReader ε β} {o : Option α} {res : Except ε (β × Fields)}
    (h : ∀ a ∈ o, dec (norm (put a)) = .ok a) (hf : (f o).run (normMap []) = res) :
    (Fields.take k dec >>= f).run (normMap (Fields.opt k put o)) = res := by
  rw [← List.append_nil (Fields.opt k put o)]
  exact run_take h (keysAbove_nil k) hf

theorem run_deny {a : α} :
    (Fields.denyUnknown >>= fun _ => (pure a : FieldReader ε α)).run (normMap []) = .ok (a, []) :=
  rfl

/-- The keys are in the order in which the encoder writes them. -/
def Ascending (ks : List UInt64) : Prop := ks.Pairwise fun j k => intKey j < intKey k

instance : DecidablePred Ascending := fun ks =>
  inferInstanceAs (Decidable (ks.Pairwise fun j k => intKey j < intKey k))

/-- The keys of the map come from the list, in its order. -/
def KeysFrom (ks : List UInt64) (m : Fields) : Prop := (m.map Prod.fst).Sublist ks

theorem keysFrom_self (m : Fields) : KeysFrom (m.map Prod.fst) m := List.Sublist.refl _

theorem keysFrom_opt {k : UInt64} {put : α → Cv} (o : Option α) :
    KeysFrom [k] (Fields.opt k put o) := by
  cases o <;> simp [KeysFrom, Fields.opt]

theorem KeysFrom.append {ks ks' : List UInt64} {m m' : Fields} (h : KeysFrom ks m)
    (h' : KeysFrom ks' m') : KeysFrom (ks ++ ks') (m ++ m') := by
  unfold KeysFrom
  rw [List.map_append]
  exact List.Sublist.append h h'

theorem norm_map_of_keysFrom {m : Fields} {ks : List UInt64} (hks : Ascending ks)
    (hm : KeysFrom ks m) : norm (.map m) = .map (normMap m) := by
  have hkeys : (normMap m).map Prod.fst = m.map Prod.fst := by
    rw [normMap_eq]
    simp
  have hasc : ((normMap m).map Prod.fst).Pairwise fun j k => intKey j < intKey k := by
    rw [hkeys]
    exact hks.sublist hm
  rw [List.pairwise_map] at hasc
  rw [norm, sortByKey_eq_self hasc]

/-- A record whose reader takes the fields it writes. -/
theorem read_norm {r : FieldReader ε α} {m : Fields} {ks : List UInt64} {a : α}
    (hks : Ascending ks) (hm : KeysFrom ks m) (h : r.run (normMap m) = .ok (a, [])) :
    Fields.read r (norm (.map m)) = .ok a := by
  rw [norm_map_of_keysFrom hks hm]
  exact Fields.read_eq_ok.mpr ⟨_, _, rfl, h⟩

/-- Every value of the map has the property. -/
def AllValues (P : Cv → Prop) (m : Fields) : Prop := ∀ p ∈ m, P p.2

@[simp] theorem allValues_nil (P : Cv → Prop) : AllValues P [] := by
  simp [AllValues]

@[simp] theorem allValues_cons {P : Cv → Prop} {k : UInt64} {v : Cv} {m : Fields} :
    AllValues P ((k, v) :: m) ↔ P v ∧ AllValues P m := by
  simp [AllValues]

@[simp] theorem allValues_append {P : Cv → Prop} {m m' : Fields} :
    AllValues P (m ++ m') ↔ AllValues P m ∧ AllValues P m' := by
  simp [AllValues, or_imp, forall_and]

@[simp] theorem allValues_opt {P : Cv → Prop} {k : UInt64} {put : α → Cv} {o : Option α} :
    AllValues P (Fields.opt k put o) ↔ ∀ a ∈ o, P (put a) := by
  cases o <;> simp [Fields.opt]

theorem depth_map_le_succ {m : Fields} {n : ℕ} :
    (Cv.map m).depth ≤ n + 1 ↔ AllValues (fun v => v.depth ≤ n) m := by
  simp [Cv.depth_map_le, AllValues]

theorem keysDistinct_of_keysFrom {m : Fields} {ks : List UInt64} (hks : Ascending ks)
    (hm : KeysFrom ks m) (hv : AllValues Cv.KeysDistinct m) : (Cv.map m).KeysDistinct := by
  have hnodup : ks.Nodup := by
    refine hks.imp ?_
    rintro j k hjk rfl
    exact Std.lt_irrefl hjk
  exact Cv.keysDistinct_map.mpr ⟨hnodup.sublist hm, hv⟩

end Records

section Order

mutual
/-- The value with the entries of every map in canonical order, and nothing else changed. -/
def ordered : Cv → Cv
  | .array a => .array (orderedArray a)
  | .map m => .map (sortByKey (fun p => intKey p.1) (orderedMap m))
  | .textMap m => .textMap (sortByKey (fun p => textKey p.1) (orderedTextMap m))
  | v => v
def orderedArray : List Cv → List Cv
  | [] => []
  | v :: a => ordered v :: orderedArray a
def orderedMap : List (UInt64 × Cv) → List (UInt64 × Cv)
  | [] => []
  | (k, v) :: m => (k, ordered v) :: orderedMap m
def orderedTextMap : List (String × Cv) → List (String × Cv)
  | [] => []
  | (k, v) :: m => (k, ordered v) :: orderedTextMap m
end

/-- No text map inside the value is empty. Decoding reads an empty map as an integer map. -/
def NoEmptyTextMap (v : Cv) : Prop := ∀ w ∈ v.items, w ≠ .textMap []

theorem normArray_eq_ordered {a : List Cv} (h : ∀ v ∈ a, norm v = ordered v) :
    normArray a = orderedArray a := by
  induction a with
  | nil => rfl
  | cons v a ih =>
    have ha := ih fun w hw => h w (List.mem_cons_of_mem v hw)
    rw [normArray, orderedArray, h v List.mem_cons_self, ha]

theorem normMap_eq_ordered {m : List (UInt64 × Cv)} (h : ∀ p ∈ m, norm p.2 = ordered p.2) :
    normMap m = orderedMap m := by
  induction m with
  | nil => rfl
  | cons p m ih =>
    have hm := ih fun q hq => h q (List.mem_cons_of_mem p hq)
    rw [normMap, orderedMap, h p List.mem_cons_self, hm]

theorem normTextMap_eq_ordered {m : List (String × Cv)}
    (h : ∀ p ∈ m, norm p.2 = ordered p.2) : normTextMap m = orderedTextMap m := by
  induction m with
  | nil => rfl
  | cons p m ih =>
    have hm := ih fun q hq => h q (List.mem_cons_of_mem p hq)
    rw [normTextMap, orderedTextMap, h p List.mem_cons_self, hm]

/-- Without empty text maps the normal form only orders entries. -/
theorem norm_eq_ordered {v : Cv} (h : NoEmptyTextMap v) : norm v = ordered v := by
  induction v using Cv.induct with
  | array a ih =>
    obtain ⟨-, ha⟩ := Cv.forall_items_array.mp h
    have hall := normArray_eq_ordered fun v hv => ih v hv (ha v hv)
    rw [norm, ordered, hall]
  | map m ih =>
    obtain ⟨-, hm⟩ := Cv.forall_items_map.mp h
    have hall := normMap_eq_ordered fun p hp => ih p hp (hm p hp)
    rw [norm, ordered, hall]
  | textMap m ih =>
    obtain ⟨hne, hm⟩ := Cv.forall_items_textMap.mp h
    have hall := normTextMap_eq_ordered fun p hp => ih p hp (hm p hp)
    cases m with
    | nil => exact absurd rfl hne
    | cons p m => rw [norm, ordered, hall]
  | _ => rfl

end Order
end Dmtap.Cbor
