import Dmtap.Cbor.Fields

/-! Decoders that lose nothing: the object they return encodes to the value they read. -/
namespace Dmtap.Cbor
open Dmtap.Lib

/-- Whatever `dec` reads, `put` writes back, up to the order of map entries. -/
def Lossless {ε α : Type} (dec : Cv → Except ε α) (put : α → Cv) : Prop :=
  ∀ ⦃cv a⦄, cv.KeysDistinct → dec cv = .ok a → enc (put a) = enc cv

section Scalars

theorem asU64_eq_ok {cv : Cv} {n : UInt64} : asU64 cv = .ok n ↔ cv = .u64 n := by
  constructor
  · intro h
    cases cv with
    | u64 k => exact congrArg Cv.u64 (Except.ok.inj h)
    | _ => cases h
  · rintro rfl
    rfl

theorem lossless_u64 : Lossless asU64 .u64 := by
  intro cv a _ h
  rw [asU64_eq_ok.mp h]

theorem lossless_bytes : Lossless asBytes .bytes := by
  intro cv a _ h
  cases cv <;> cases h
  rfl

theorem lossless_text : Lossless asText .text := by
  intro cv a _ h
  cases cv <;> cases h
  rfl

theorem asBool_eq_ok {cv : Cv} {t : Bool} : asBool cv = .ok t ↔ cv = .bool t := by
  constructor
  · intro h
    cases cv with
    | bool k => exact congrArg Cv.bool (Except.ok.inj h)
    | _ => cases h
  · rintro rfl
    rfl

theorem lossless_bool : Lossless asBool .bool := by
  intro cv a _ h
  rw [asBool_eq_ok.mp h]

theorem asU8_eq_ok {cv : Cv} {b : UInt8} : asU8 cv = .ok b ↔ cv = .u64 b.toUInt64 := by
  constructor
  · intro h
    cases cv with
    | u64 n =>
      change (if n.toNat < 2 ^ 8 then Except.ok n.toUInt8 else .error CborError.intRange) = .ok b at h
      split_ifs at h with hn
      have hb := Except.ok.inj h
      have hback : n.toUInt8.toUInt64 = n := by
        apply UInt64.toNat_inj.mp
        rw [UInt8.toNat_toUInt64, UInt64.toNat_toUInt8]
        exact Nat.mod_eq_of_lt hn
      rw [← hb, hback]
    | _ => cases h
  · rintro rfl
    change (if b.toUInt64.toNat < 2 ^ 8 then Except.ok b.toUInt64.toUInt8 else .error CborError.intRange) = _
    have hlt : b.toUInt64.toNat < 2 ^ 8 := by
      rw [UInt8.toNat_toUInt64]
      exact b.toNat_lt
    rw [if_pos hlt, UInt8.toUInt8_toUInt64]

theorem lossless_u8 : Lossless asU8 (fun b => .u64 b.toUInt64) := by
  intro cv b _ h
  rw [asU8_eq_ok.mp h]

theorem lossless_u32 : Lossless asU32 (fun b => .u64 b.toUInt64) := by
  intro cv b _ h
  cases cv with
  | u64 n =>
    change (if n.toNat < 2 ^ 32 then Except.ok n.toUInt32 else .error CborError.intRange) = .ok b at h
    split_ifs at h with hn
    have hb := Except.ok.inj h
    have hback : n.toUInt32.toUInt64 = n := by
      apply UInt64.toNat_inj.mp
      rw [UInt32.toNat_toUInt64, UInt64.toNat_toUInt32]
      exact Nat.mod_eq_of_lt hn
    dsimp only
    rw [← hb, hback]
  | _ => cases h

end Scalars

section Arrays
variable {α : Type} {dec : Cv → Except CborError α} {put : α → Cv}

theorem encArray_lossless (hd : Lossless dec put) {a : List Cv} {l : List α}
    (h : List.Forall₂ (fun v x => dec v = .ok x) a l) (ha : ∀ v ∈ a, v.KeysDistinct) :
    encArray (l.map put) = encArray a := by
  induction h with
  | nil => rfl
  | cons hv _ ih =>
    obtain ⟨hav, haa⟩ := List.forall_mem_cons.mp ha
    rw [List.map_cons, encArray, encArray, ih haa, hd hav hv]

theorem lossless_array (hd : Lossless dec put) :
    Lossless (asArrayOf dec) (fun l => .array (l.map put)) := by
  intro cv l hcv h
  cases cv with
  | array a =>
    have hitems := forall₂_of_mapM h
    have henc := encArray_lossless hd hitems (Cv.keysDistinct_array.mp hcv)
    rw [enc, enc, henc, List.length_map, hitems.length_eq]
  | _ => cases h

end Arrays

/-- An entry of a map as the encoder carries it. -/
def entry (p : UInt64 × Cv) : Bytes × Bytes := (intKey p.1, enc p.2)

theorem intKey_injective : Function.Injective intKey := by
  intro k k' h
  exact writeHead_injective (by decide) h

theorem enc_map (m : Fields) : enc (.map m) = encEntries (m.map entry) := by
  rw [enc, encMap_eq]
  rfl

theorem encEntries_congr {l l' : List (Bytes × Bytes)} (h : l.Perm l')
    (hn : (l.map Prod.fst).Nodup) : encEntries l = encEntries l' := by
  unfold encEntries
  rw [h.length_eq, sortByKey_congr h hn]

theorem nodup_entries {m : Fields} (h : (m.map Prod.fst).Nodup) :
    ((m.map entry).map Prod.fst).Nodup := by
  have heq : (m.map entry).map Prod.fst = (m.map Prod.fst).map intKey := by
    rw [List.map_map, List.map_map]
    rfl
  rw [heq]
  exact h.map intKey_injective

/-- A choice of keys is a choice of encoded entries. -/
theorem exists_keep_entry (keep : UInt64 → Bool) :
    ∃ kept : Bytes × Bytes → Bool, ∀ p : UInt64 × Cv, kept (entry p) = keep p.1 := by
  classical
  refine ⟨fun e => decide (∃ k, keep k = true ∧ intKey k = e.1), fun p => ?_⟩
  rw [Bool.eq_iff_iff, decide_eq_true_eq, entry]
  constructor
  · rintro ⟨k, hk, heq⟩
    rw [← intKey_injective heq]
    exact hk
  · intro hp
    exact ⟨p.1, hp, rfl⟩

section Records
variable {ε ε' α β : Type}

/-- `Record.Yields` for the entries of a decoded map. -/
abbrev Yields (r : FieldReader ε β) (acc : List (Bytes × Bytes))
    (W : β → List (Bytes × Bytes) → Prop) : Prop :=
  Record.Yields entry (fun p => p.2.KeysDistinct) r acc W

variable {acc : List (Bytes × Bytes)} {W : β → List (Bytes × Bytes) → Prop}
  {dec : Cv → Except ε' α} {put : α → Cv} {k : UInt64}

theorem yields_req [ErrorFrom CborError ε] [ErrorFrom ε' ε] {f : α → FieldReader ε β} (hd : Lossless dec put)
    (h : ∀ a, Yields (f a) (acc ++ [entry (k, put a)]) W) :
    Yields (Fields.req k dec >>= f) acc W := by
  refine Record.yields_field (fun v a hv ha => ?_)
  have heq : entry (k, v) = entry (k, put a) := by
    unfold entry
    rw [hd hv ha]
  rw [heq]
  exact h a

theorem yields_take [ErrorFrom ε' ε] {f : Option α → FieldReader ε β} (hd : Lossless dec put)
    (h : ∀ o, Yields (f o) (acc ++ (Fields.opt k put o).map entry) W) :
    Yields (Fields.take k dec >>= f) acc W := by
  refine Record.yields_optField ?_ (fun v a hv ha => ?_)
  · have hnone := h none
    rw [Fields.opt, List.map_nil, List.append_nil] at hnone
    exact hnone
  · have heq : entry (k, v) = entry (k, put a) := by
      unfold entry
      rw [hd hv ha]
    rw [heq]
    exact h (some a)

/-- The reader returns an object whose fields are the entries of the map it read. -/
def ReadsFields (r : FieldReader ε β) (fields : β → Fields) : Prop :=
  Yields r [] (fun o l => l = (fields o).map entry)

variable [ErrorFrom CborError ε]

/-- What a reader yields from the entries of a map, whatever image of them it is about. -/
theorem perm_of_read {E : Type} {img : UInt64 × Cv → E} {r : FieldReader ε β}
    {W : β → List E → Prop} (hr : Record.Yields img (fun p => p.2.KeysDistinct) r [] W)
    {m : Fields} {o : β} (hm : (Cv.map m).KeysDistinct) (h : Fields.read r (.map m) = .ok o) :
    ∃ l, W o l ∧ (m.map img).Perm l := by
  have hgood : ∀ p ∈ m, p.2.KeysDistinct := (Cv.keysDistinct_map.mp hm).2
  obtain ⟨m', t, hm', hrun⟩ := Fields.read_eq_ok.mp h
  obtain rfl : m = m' := by simpa using hm'
  obtain ⟨-, l, hl, hperm⟩ := hr hgood hrun
  exact ⟨l, hl, hperm⟩

theorem ReadsFields.perm {r : FieldReader ε β} {fields : β → Fields} (hr : ReadsFields r fields)
    {m : Fields} {o : β} (hm : (Cv.map m).KeysDistinct) (h : Fields.read r (.map m) = .ok o) :
    (m.map entry).Perm ((fields o).map entry) := by
  obtain ⟨l, hl, hperm⟩ := perm_of_read hr hm h
  rw [← hl]
  exact hperm

theorem ReadsFields.lossless {r : FieldReader ε β} {fields : β → Fields}
    (hr : ReadsFields r fields) : Lossless (Fields.read r) (fun o => .map (fields o)) := by
  intro cv o hcv h
  cases cv with
  | map m =>
    have hnodup := nodup_entries (Cv.keysDistinct_map.mp hcv).1
    rw [enc_map, enc_map, encEntries_congr (hr.perm hcv h) hnodup]
  | _ => cases h

/-- Every field of the decoded object was received, with the same encoding. -/
theorem ReadsFields.received {r : FieldReader ε β} {fields : β → Fields} (hr : ReadsFields r fields)
    {m : Fields} {o : β} (hm : (Cv.map m).KeysDistinct) (h : Fields.read r (.map m) = .ok o)
    {k : UInt64} {w : Cv} (hw : (k, w) ∈ fields o) : ∃ v, (k, v) ∈ m ∧ enc v = enc w := by
  have hmem : entry (k, w) ∈ m.map entry :=
    (hr.perm hm h).mem_iff.mpr (List.mem_map_of_mem hw)
  obtain ⟨⟨k', v⟩, hv, heq⟩ := List.mem_map.mp hmem
  obtain ⟨hk, henc⟩ := Prod.mk.inj heq
  obtain rfl : k' = k := intKey_injective hk
  exact ⟨v, hv, henc⟩

/-- Every received key is a key of the decoded object. -/
theorem ReadsFields.known {r : FieldReader ε β} {fields : β → Fields} (hr : ReadsFields r fields)
    {m : Fields} {o : β} (hm : (Cv.map m).KeysDistinct) (h : Fields.read r (.map m) = .ok o)
    {k : UInt64} {v : Cv} (hv : (k, v) ∈ m) : ∃ w, (k, w) ∈ fields o := by
  have hmem : entry (k, v) ∈ (fields o).map entry :=
    (hr.perm hm h).mem_iff.mp (List.mem_map_of_mem hv)
  obtain ⟨⟨k', w⟩, hw, heq⟩ := List.mem_map.mp hmem
  obtain rfl : k' = k := intKey_injective (Prod.mk.inj heq).1
  exact ⟨w, hw⟩

/-- The fields that a signature covers, as received, are those of the decoded object. -/
theorem ReadsFields.encode_filter {r : FieldReader ε β} {fields : β → Fields}
    (hr : ReadsFields r fields) (keep : UInt64 → Bool) {m : Fields} {o : β}
    (hm : (Cv.map m).KeysDistinct) (h : Fields.read r (.map m) = .ok o) :
    encode (.map ((fields o).filter (fun p => keep p.1))) =
      encode (.map (m.filter (fun p => keep p.1))) := by
  obtain ⟨kept, hentry⟩ := exists_keep_entry keep
  have hkept : ∀ l : Fields, (l.filter (fun p => keep p.1)).map entry =
      (l.map entry).filter kept := by
    intro l
    rw [List.filter_map]
    exact congrArg (List.map entry) (List.filter_congr (fun p _ => (hentry p).symm))
  have hnodup : ((m.filter (fun p => keep p.1)).map Prod.fst).Nodup :=
    (Cv.keysDistinct_map.mp hm).1.sublist (List.filter_sublist.map _)
  have hperm := (hr.perm hm h).filter kept
  rw [← hkept, ← hkept] at hperm
  unfold encode
  rw [enc_map, enc_map, encEntries_congr hperm (nodup_entries hnodup)]

end Records

section Objects
variable {ε ε' α : Type}

/-- Accepted bytes are the encoding of the object they decode to. -/
def Canonical (fromDet : Bytes → Except ε α) (detCbor : α → Bytes) : Prop :=
  ∀ ⦃b o⦄, fromDet b = .ok o → detCbor o = b

/-- The body that a signature over the decoded object covers is the received map without
the keys that are not kept. -/
def SignsReceived (fromDet : Bytes → Except ε α) (body : α → Bytes) (keep : UInt64 → Bool) : Prop :=
  ∀ ⦃b o⦄, fromDet b = .ok o →
    ∃ m, decode b = .ok (.map m) ∧ body o = encode (.map (m.filter (fun p => keep p.1)))

variable [ErrorFrom CborError ε] [ErrorFrom ε' ε]

theorem fromDetCbor_eq_ok {dec : Cv → Except ε' α} {b : Bytes} {o : α}
    (h : (fromDetCbor dec b : Except ε α) = .ok o) : ∃ cv, decode b = .ok cv ∧ dec cv = .ok o := by
  unfold fromDetCbor at h
  cases hd : decode b with
  | error e =>
    rw [hd] at h
    cases h
  | ok cv =>
    rw [hd] at h
    dsimp only at h
    refine ⟨cv, rfl, ?_⟩
    cases ho : dec cv with
    | error e =>
      rw [ho] at h
      cases h
    | ok o' =>
      rw [ho] at h
      exact congrArg Except.ok (Except.ok.inj h)

theorem Lossless.canonical {dec : Cv → Except ε' α} {put : α → Cv} (hd : Lossless dec put) :
    Canonical (fromDetCbor dec : Bytes → Except ε α) (fun o => encode (put o)) := by
  intro b o h
  obtain ⟨cv, hcv, ho⟩ := fromDetCbor_eq_ok h
  have henc := hd (keysDistinct_of_decode hcv) ho
  change enc (put o) = b
  rw [henc]
  exact encode_of_decode hcv

theorem fromDetCbor_read_eq_ok [ErrorFrom CborError ε'] {r : FieldReader ε' α} {b : Bytes} {o : α}
    (h : (fromDetCbor (Fields.read r) b : Except ε α) = .ok o) :
    ∃ m, decode b = .ok (.map m) ∧ Fields.read r (.map m) = .ok o := by
  obtain ⟨cv, hcv, ho⟩ := fromDetCbor_eq_ok h
  cases cv with
  | map m => exact ⟨m, hcv, ho⟩
  | _ => cases ho

theorem ReadsFields.signsReceived [ErrorFrom CborError ε'] {r : FieldReader ε' α}
    {fields bodyFields : α → Fields} {keep : UInt64 → Bool} (hr : ReadsFields r fields)
    (hb : ∀ o, bodyFields o = (fields o).filter (fun p => keep p.1)) :
    SignsReceived (fromDetCbor (Fields.read r) : Bytes → Except ε α)
      (fun o => encode (.map (bodyFields o))) keep := by
  intro b o h
  obtain ⟨m, hm, ho⟩ := fromDetCbor_read_eq_ok h
  refine ⟨m, hm, ?_⟩
  dsimp only
  rw [hb]
  exact hr.encode_filter keep (keysDistinct_of_decode hm) ho

end Objects
end Dmtap.Cbor
