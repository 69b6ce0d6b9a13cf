import Dmtap.Cbor.Restores

/-! Objects that survive the wire: the bytes an object is encoded to are decoded to the object. One
condition on a reader and the fields that an object writes covers objects and the objects in them. -/
namespace Dmtap.Cbor
open Dmtap.Lib

section Depth

@[simp] theorem Cv.depth_u64 (n : UInt64) : (Cv.u64 n).depth = 0 := by simp [Cv.depth]

@[simp] theorem Cv.depth_bytes (b : Bytes) : (Cv.bytes b).depth = 0 := by simp [Cv.depth]

@[simp] theorem Cv.depth_text (s : String) : (Cv.text s).depth = 0 := by simp [Cv.depth]

@[simp] theorem Cv.depth_bool (b : Bool) : (Cv.bool b).depth = 0 := by simp [Cv.depth]

end Depth

section Objects
variable {ε ε' α : Type} [ErrorFrom CborError ε]

/-- The reader takes the fields, which are in canonical order and nested at most `d` deep, and gives
back the object. -/
structure Restores (r : FieldReader ε α) (m : Fields) (d : ℕ) (a : α) : Prop where
  keys : ∃ ks, Ascending ks ∧ KeysFrom ks m
  run : r.run (normMap m) = .ok (a, [])
  distinct : AllValues Cv.KeysDistinct m
  depth : AllValues (fun v => v.depth ≤ d) m

variable {r : FieldReader ε α} {m m' : Fields} {d : ℕ} {a : α}

theorem Restores.read_norm (h : Restores r m d a) : Fields.read r (norm (.map m)) = .ok a := by
  obtain ⟨ks, hks, hkeys⟩ := h.keys
  exact Cbor.read_norm hks hkeys h.run

omit [ErrorFrom CborError ε] in
theorem Restores.keysDistinct (h : Restores r m d a) : (Cv.map m).KeysDistinct := by
  obtain ⟨ks, hks, hkeys⟩ := h.keys
  exact keysDistinct_of_keysFrom hks hkeys h.distinct

omit [ErrorFrom CborError ε] in
theorem Restores.depth_le (h : Restores r m d a) : (Cv.map m).depth ≤ d + 1 :=
  depth_map_le_succ.mpr h.depth

/-- The order in which a map with distinct keys is written down does not matter. -/
theorem encode_map_perm (h : m.Perm m') (hkeys : (m.map Prod.fst).Nodup) :
    encode (.map m) = encode (.map m') := by
  change enc (.map m) = enc (.map m')
  rw [enc_map, enc_map]
  exact encEntries_congr (h.map entry) (nodup_entries hkeys)

theorem Restores.fromDetCbor [ErrorFrom CborError ε'] [ErrorFrom ε ε'] (h : Restores r m d a)
    (hd : d < maxNestingDepth) (hfit : (Cv.map m).LengthsFit) :
    (Cbor.fromDetCbor (Fields.read r) (encode (.map m)) : Except ε' α) = .ok a := by
  have hdecode : decode (encode (.map m)) = .ok (norm (.map m)) :=
    decode_enc hfit h.keysDistinct (h.depth_le.trans hd)
  unfold Cbor.fromDetCbor
  rw [hdecode]
  dsimp only
  rw [h.read_norm]
  rfl

end Objects
end Dmtap.Cbor
