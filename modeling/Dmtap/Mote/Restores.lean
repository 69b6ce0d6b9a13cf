import Dmtap.Cbor.Restores
import Dmtap.Mote.Payload

/-! The message codecs restore what they write. An envelope comes back as it was; a payload comes
back with its extension headers in canonical form. -/
namespace Dmtap
open Dmtap.Lib Dmtap.Cbor

theorem codeFromCv_norm {α : Type} {fromU8 : UInt8 → Option α} {toU8 : α → UInt8} {a : α}
    (h : fromU8 (toU8 a) = some a) (err : UInt8 → CborError) :
    codeFromCv fromU8 err (Cbor.norm (.u64 (toU8 a).toUInt64)) = .ok a := by
  unfold codeFromCv
  rw [asU8_norm]
  dsimp only [bind, Except.bind]
  rw [h]

theorem suiteFromCv_norm (s : Suite) : suiteFromCv (Cbor.norm s.toCv) = .ok s := by
  apply codeFromCv_norm
  cases s <;> rfl

namespace Mote

theorem Kind.fromCv_norm (k : Kind) : fromCv (Cbor.norm k.toCv) = .ok k := by
  apply codeFromCv_norm
  cases k <;> rfl

namespace ChallengeResponse

theorem paramsFromCv_norm (p : UInt32 × UInt32 × UInt32) :
    paramsFromCv (Cbor.norm (paramsToCv p)) = .ok p := by
  obtain ⟨m, t, n⟩ := p
  change (do
    let m ← asU32 (Cbor.norm (.u64 m.toUInt64))
    let t ← asU32 (Cbor.norm (.u64 t.toUInt64))
    let p ← asU32 (Cbor.norm (.u64 n.toUInt64))
    return (m, t, p) : Except CborError _) = _
  rw [asU32_norm, asU32_norm, asU32_norm]
  rfl

theorem reader_run (c : ChallengeResponse) : reader.run (normMap c.fields) = .ok (c, []) := by
  cases c with
  | arc a =>
    simp only [fields, List.cons_append, List.nil_append]
    refine run_req rfl ?_
    rw [if_pos rfl]
    refine run_req rfl ?_
    refine run_req rfl ?_
    refine run_req rfl ?_
    refine run_take_last (fun _ _ => rfl) ?_
    exact run_deny
  | pow p =>
    refine run_req rfl ?_
    rw [if_neg (by decide), if_pos rfl]
    refine run_req rfl ?_
    refine run_req (paramsFromCv_norm p.params) ?_
    refine run_req rfl ?_
    refine run_req rfl ?_
    refine run_req (asU8_norm p.difficulty) ?_
    exact run_deny
  | postage s =>
    simp only [fields, List.cons_append, List.nil_append]
    refine run_req rfl ?_
    rw [if_neg (by decide), if_neg (by decide), if_pos rfl]
    refine run_req rfl ?_
    refine run_req rfl ?_
    refine run_req rfl ?_
    refine run_req rfl ?_
    refine run_req rfl ?_
    refine run_take (fun _ _ => rfl) (by simp) ?_
    refine run_req rfl ?_
    exact run_deny
  | vouch v =>
    refine run_req rfl ?_
    rw [if_neg (by decide), if_neg (by decide), if_neg (by decide), if_pos rfl]
    refine run_req rfl ?_
    refine run_req rfl ?_
    refine run_req rfl ?_
    refine run_req rfl ?_
    refine run_req rfl ?_
    exact run_deny

theorem exists_keysFrom (c : ChallengeResponse) : ∃ ks, Ascending ks ∧ KeysFrom ks c.fields := by
  cases c with
  | arc a =>
    have hkeys : KeysFrom [0, 1, 2, 3, 4] (arc a).fields :=
      (keysFrom_self _).append (keysFrom_opt a.nonce)
    exact ⟨_, by decide, hkeys⟩
  | pow p =>
    have hkeys : KeysFrom [0, 1, 2, 3, 4, 5] (pow p).fields := keysFrom_self _
    exact ⟨_, by decide, hkeys⟩
  | postage s =>
    have hkeys : KeysFrom [0, 1, 2, 3, 4, 5, 6, 7] (postage s).fields :=
      ((keysFrom_self _).append (keysFrom_opt s.audience)).append (keysFrom_self _)
    exact ⟨_, by decide, hkeys⟩
  | vouch v =>
    have hkeys : KeysFrom [0, 1, 2, 3, 4, 5] (vouch v).fields := keysFrom_self _
    exact ⟨_, by decide, hkeys⟩

theorem fromCv_norm (c : ChallengeResponse) : fromCv (Cbor.norm c.toCv) = .ok c := by
  obtain ⟨ks, hks, hkeys⟩ := exists_keysFrom c
  exact read_norm hks hkeys (reader_run c)

theorem keysDistinct_toCv (c : ChallengeResponse) : c.toCv.KeysDistinct := by
  obtain ⟨ks, hks, hkeys⟩ := exists_keysFrom c
  apply keysDistinct_of_keysFrom hks hkeys
  cases c <;> simp [fields, paramsToCv, Cv.keysDistinct_array]

theorem depth_toCv_le (c : ChallengeResponse) : c.toCv.depth ≤ 2 := by
  rw [toCv, depth_map_le_succ]
  cases c <;> simp [fields, paramsToCv, Cv.depth, Cv.depthArray]

end ChallengeResponse

namespace DeliveryTag

theorem reader_run (t : DeliveryTag) : reader.run (normMap t.fields) = .ok (t, []) := by
  cases t with
  | key b => rfl
  | group b => rfl
  | blinded b => rfl

theorem keysFrom_fields (t : DeliveryTag) : KeysFrom [0, 1] t.fields := by
  cases t with
  | key b => exact keysFrom_self _
  | group b => exact keysFrom_self _
  | blinded b => exact keysFrom_self _

theorem fromCv_norm (t : DeliveryTag) : fromCv (Cbor.norm t.toCv) = .ok t :=
  read_norm (by decide) (keysFrom_fields t) (reader_run t)

theorem keysDistinct_toCv (t : DeliveryTag) : t.toCv.KeysDistinct := by
  apply keysDistinct_of_keysFrom (by decide) (keysFrom_fields t)
  cases t <;> simp [fields]

theorem depth_toCv_le (t : DeliveryTag) : t.toCv.depth ≤ 1 := by
  rw [toCv, depth_map_le_succ]
  cases t <;> simp [fields, Cv.depth]

end DeliveryTag

namespace KeyPackageRef

theorem reader_run (k : KeyPackageRef) : reader.run (normMap k.fields) = .ok (k, []) := by
  simp only [fields, List.cons_append, List.nil_append]
  refine run_req rfl ?_
  refine run_req (suiteFromCv_norm k.suite) ?_
  refine run_take_last (fun _ _ => rfl) ?_
  exact run_deny

theorem keysFrom_fields (k : KeyPackageRef) : KeysFrom [1, 2, 3] k.fields :=
  (keysFrom_self _).append (keysFrom_opt k.loc)

theorem fromCv_norm (k : KeyPackageRef) : fromCv (Cbor.norm k.toCv) = .ok k :=
  read_norm (by decide) (keysFrom_fields k) (reader_run k)

theorem keysDistinct_toCv (k : KeyPackageRef) : k.toCv.KeysDistinct := by
  apply keysDistinct_of_keysFrom (by decide) (keysFrom_fields k)
  simp [fields, ContentId.toCv, Suite.toCv]

theorem depth_toCv_le (k : KeyPackageRef) : k.toCv.depth ≤ 1 := by
  rw [toCv, depth_map_le_succ]
  simp [fields, ContentId.toCv, Suite.toCv, Cv.depth]

end KeyPackageRef

namespace Envelope

theorem reader_run (e : Envelope) : reader.run (normMap e.fields) = .ok (e, []) := by
  simp only [fields, List.cons_append, List.nil_append, List.append_assoc]
  refine run_req (asU8_norm e.v) ?_
  refine run_req (suiteFromCv_norm e.suite) ?_
  refine run_req rfl ?_
  refine run_req (DeliveryTag.fromCv_norm e.toTag) ?_
  refine run_take (fun _ _ => rfl) (by simp [keysAbove_opt]) ?_
  refine run_req rfl ?_
  refine run_req (Kind.fromCv_norm e.kind) ?_
  refine run_take (fun k _ => KeyPackageRef.fromCv_norm k) (by simp [keysAbove_opt]) ?_
  refine run_take (fun c _ => ChallengeResponse.fromCv_norm c) (by simp [keysAbove_opt]) ?_
  refine run_req rfl ?_
  refine run_take (fun _ _ => rfl) (by simp [keysAbove_opt]) ?_
  refine run_take_last (fun _ _ => rfl) ?_
  exact run_deny

theorem keysFrom_fields (e : Envelope) :
    KeysFrom [1, 2, 3, 4, 5, 6, 7, 8, 9, 10, 11, 12] e.fields :=
  (((((((keysFrom_self _).append (keysFrom_opt e.epoch)).append (keysFrom_self _)).append
    (keysFrom_opt e.keypkg)).append (keysFrom_opt e.challenge)).append (keysFrom_self _)).append
    (keysFrom_opt e.senderSig)).append (keysFrom_opt e.senderEph)

theorem fromCv_norm (e : Envelope) : Fields.read reader (Cbor.norm e.toCv) = .ok e :=
  read_norm (by decide) (keysFrom_fields e) (reader_run e)

theorem keysDistinct_toCv (e : Envelope) : e.toCv.KeysDistinct := by
  apply keysDistinct_of_keysFrom (by decide) (keysFrom_fields e)
  simp [fields, ContentId.toCv, Suite.toCv, Kind.toCv, DeliveryTag.keysDistinct_toCv,
    KeyPackageRef.keysDistinct_toCv, ChallengeResponse.keysDistinct_toCv]

theorem depth_toCv_le (e : Envelope) : e.toCv.depth ≤ 3 := by
  have htag := DeliveryTag.depth_toCv_le e.toTag
  have hkeypkg : ∀ k : KeyPackageRef, k.toCv.depth ≤ 2 := fun k =>
    (KeyPackageRef.depth_toCv_le k).trans (by decide)
  rw [toCv, depth_map_le_succ]
  simp [fields, ContentId.toCv, Suite.toCv, Kind.toCv, Cv.depth, hkeypkg, htag.trans,
    ChallengeResponse.depth_toCv_le]

/-- Decoding what an envelope encodes to returns the envelope. -/
theorem fromDetCbor_detCbor {e : Envelope} (he : e.toCv.LengthsFit) :
    fromDetCbor e.detCbor = .ok e := by
  have hdecode : decode e.detCbor = .ok (Cbor.norm e.toCv) :=
    decode_enc he (keysDistinct_toCv e) ((depth_toCv_le e).trans (by decide))
  unfold fromDetCbor Cbor.fromDetCbor
  rw [hdecode]
  dsimp only
  rw [fromCv_norm]
  rfl

end Envelope

/-- The class is spelt as decoding spells it: `unknown` holds no byte of the table. -/
def DurabilityClass.Decoded (c : DurabilityClass) : Prop := fromU8 c.asU8 = c

instance : DecidablePred DurabilityClass.Decoded := fun c =>
  inferInstanceAs (Decidable (DurabilityClass.fromU8 c.asU8 = c))

theorem DurabilityClass.fromCv_norm {c : DurabilityClass} (h : c.Decoded) :
    fromCv (Cbor.norm c.toCv) = .ok c := by
  unfold fromCv
  rw [toCv, asU8_norm]
  exact congrArg Except.ok h

namespace Durability

theorem reader_run {d : Durability} (h : d.class.Decoded) :
    reader.run (normMap d.fields) = .ok (d, []) := by
  simp only [fields, List.cons_append, List.nil_append, List.append_assoc]
  refine run_req (DurabilityClass.fromCv_norm h) ?_
  refine run_take (fun _ _ => rfl) (by simp [keysAbove_opt]) ?_
  refine run_take (fun n _ => asU32_norm n) (by simp [keysAbove_opt]) ?_
  refine run_take_last (fun _ _ => rfl) ?_
  exact run_deny

theorem keysFrom_fields (d : Durability) : KeysFrom [1, 2, 3, 4] d.fields :=
  (((keysFrom_self _).append (keysFrom_opt d.retention)).append (keysFrom_opt d.replicas)).append
    (keysFrom_opt d.holderHint)

theorem fromCv_norm {d : Durability} (h : d.class.Decoded) : fromCv (Cbor.norm d.toCv) = .ok d :=
  read_norm (by decide) (keysFrom_fields d) (reader_run h)

end Durability

namespace ManifestRef

theorem reader_run {m : ManifestRef} (h : ∀ d ∈ m.durability, d.class.Decoded) :
    reader.run (normMap m.fields) = .ok (m, []) := by
  simp only [fields, List.cons_append, List.nil_append]
  refine run_req rfl ?_
  refine run_req rfl ?_
  refine run_req (asU32_norm m.chunks) ?_
  refine run_take_last (fun d hd => Durability.fromCv_norm (h d hd)) ?_
  exact run_deny

theorem keysFrom_fields (m : ManifestRef) : KeysFrom [1, 2, 3, 4] m.fields :=
  (keysFrom_self _).append (keysFrom_opt m.durability)

theorem fromCv_norm {m : ManifestRef} (h : ∀ d ∈ m.durability, d.class.Decoded) :
    fromCv (Cbor.norm m.toCv) = .ok m :=
  read_norm (by decide) (keysFrom_fields m) (reader_run h)

end ManifestRef

namespace Attachment

/-- The durability class of a referenced file is spelt as decoding spells it. -/
def ClassDecoded (a : Attachment) : Prop :=
  ∀ m ∈ a.manifest, ∀ d ∈ m.durability, d.class.Decoded

theorem reader_run {a : Attachment} (h : a.ClassDecoded) :
    reader.run (normMap a.fields) = .ok (a, []) := by
  simp only [fields, List.cons_append, List.nil_append, List.append_assoc]
  refine run_req rfl ?_
  refine run_req rfl ?_
  refine run_req rfl ?_
  refine run_take (fun _ _ => rfl) (by simp [keysAbove_opt]) ?_
  refine run_take (fun m hm => ManifestRef.fromCv_norm (h m hm)) (by simp) ?_
  refine run_req rfl ?_
  exact run_deny

theorem keysFrom_fields (a : Attachment) : KeysFrom [1, 2, 3, 4, 5, 6] a.fields :=
  (((keysFrom_self _).append (keysFrom_opt a.inline)).append (keysFrom_opt a.manifest)).append
    (keysFrom_self _)

theorem fromCv_norm {a : Attachment} (h : a.ClassDecoded) : fromCv (Cbor.norm a.toCv) = .ok a :=
  read_norm (by decide) (keysFrom_fields a) (reader_run h)

end Attachment

namespace Headers

/-- The extension headers as decoding yields them: in canonical order, in normal form. -/
def canonical (h : Headers) : Headers :=
  { h with ext := sortByKey (fun p => textKey p.1) (normTextMap h.ext) }

/-- Reading the extension headers, whose key may be left out. -/
theorem run_takeExt {β : Type} {f : Option (List (String × Cv)) → FieldReader CborError β}
    {ext : List (String × Cv)} {m : Fields} {res : Except CborError (β × Fields)}
    (hm : KeysAbove 5 m)
    (hnone : ext = [] → (f none).run (normMap m) = res)
    (hsome : ext ≠ [] →
      (f (some (sortByKey (fun p => textKey p.1) (normTextMap ext)))).run (normMap m) = res) :
    (Fields.take 5 extFromCv >>= f).run (normMap (extFields ext ++ m)) = res := by
  cases ext with
  | nil =>
    have hne : ∀ p ∈ normMap m, p.1 ≠ 5 := fun p hp =>
      (UInt64.ne_of_lt (keysAbove_normMap.mpr hm p hp)).symm
    exact (Reader.run_bind_ok (Record.optField_run_none hne)).trans (hnone rfl)
  | cons e ext =>
    have hdec : extFromCv (Cbor.norm (.textMap (e :: ext))) =
        .ok (sortByKey (fun p => textKey p.1) (normTextMap (e :: ext))) := rfl
    have htake : (Fields.take 5 extFromCv : FieldReader CborError _).run
        ((5, Cbor.norm (.textMap (e :: ext))) :: normMap m) = .ok (some _, normMap m) :=
      Record.optField_run_cons hdec (normMap m)
    exact (Reader.run_bind_ok htake).trans (hsome (List.cons_ne_nil e ext))

theorem keysAbove_ext {k : UInt64} (ext : List (String × Cv)) (h : k < 5) :
    KeysAbove k (extFields ext) := by
  cases ext <;> simp [extFields, h]

theorem keysFrom_ext (ext : List (String × Cv)) : KeysFrom [5] (extFields ext) := by
  cases ext with
  | nil => exact List.nil_sublist _
  | cons e ext => exact keysFrom_self _

theorem reader_run (h : Headers) : reader.run (normMap h.fields) = .ok (h.canonical, []) := by
  simp only [fields, List.cons_append, List.nil_append, List.append_assoc]
  refine run_take (fun _ _ => rfl) (by simp [keysAbove_opt, keysAbove_ext]) ?_
  refine run_take (fun _ _ => rfl) (by simp [keysAbove_opt, keysAbove_ext]) ?_
  refine run_take (fun _ _ => rfl) (by simp [keysAbove_opt, keysAbove_ext]) ?_
  refine run_req (asArrayOf_norm fun _ _ => rfl) ?_
  refine run_takeExt (by simp [keysAbove_opt]) ?_ ?_
  · intro hnil
    refine run_take_last (fun _ _ => rfl) ?_
    unfold canonical
    rw [hnil]
    exact run_deny
  · intro _
    refine run_take_last (fun _ _ => rfl) ?_
    exact run_deny

theorem keysFrom_fields (h : Headers) : KeysFrom [1, 2, 3, 4, 5, 6] h.fields :=
  (((((keysFrom_opt h.thread).append (keysFrom_opt h.subject)).append (keysFrom_opt h.mime)).append
    (keysFrom_self _)).append (keysFrom_ext h.ext)).append (keysFrom_opt h.sensitive)

theorem fromCv_norm (h : Headers) : fromCv (Cbor.norm h.toCv) = .ok h.canonical :=
  read_norm (by decide) (keysFrom_fields h) (reader_run h)

end Headers

namespace Payload

def canonical (p : Payload) : Payload := { p with headers := p.headers.canonical }

/-- The durability classes in the payload are spelt as decoding spells them. -/
def ClassesDecoded (p : Payload) : Prop := ∀ a ∈ p.attach, a.ClassDecoded

theorem reader_run {p : Payload} (h : p.ClassesDecoded) :
    reader.run (normMap (fields true p)) = .ok (p.canonical, []) := by
  simp only [fields, if_true, List.cons_append, List.nil_append]
  refine run_req rfl ?_
  refine run_req rfl ?_
  refine run_req (Headers.fromCv_norm p.headers) ?_
  refine run_req rfl ?_
  refine run_req (asArrayOf_norm fun _ _ => rfl) ?_
  refine run_req (asArrayOf_norm fun a ha => Attachment.fromCv_norm (h a ha)) ?_
  refine run_take_last (fun _ _ => rfl) ?_
  exact run_deny

theorem keysFrom_fields (p : Payload) : KeysFrom [1, 2, 3, 4, 5, 6, 7] (fields true p) :=
  ((keysFrom_self _).append (keysFrom_self _)).append (keysFrom_opt p.expires)

theorem keysFrom_signed (p : Payload) : KeysFrom [1, 3, 4, 5, 6, 7] (fields false p) :=
  (keysFrom_self _).append (keysFrom_opt p.expires)

theorem fromCv_norm {p : Payload} (h : p.ClassesDecoded) :
    Fields.read reader (Cbor.norm (.map (fields true p))) = .ok p.canonical :=
  read_norm (by decide) (keysFrom_fields p) (reader_run h)

theorem keysDistinct_headers {h : Headers} (hext : (Cv.textMap h.ext).KeysDistinct) :
    h.toCv.KeysDistinct := by
  apply keysDistinct_of_keysFrom (by decide) (Headers.keysFrom_fields h)
  have hextFields : AllValues Cv.KeysDistinct (Headers.extFields h.ext) := by
    unfold Headers.extFields
    split_ifs <;> simp [hext]
  simp [Headers.fields, Cv.keysDistinct_array, hextFields]

theorem keysDistinct_attachment (a : Attachment) : a.toCv.KeysDistinct := by
  have hdurability : ∀ d : Durability, d.toCv.KeysDistinct := by
    intro d
    apply keysDistinct_of_keysFrom (by decide) (Durability.keysFrom_fields d)
    simp [Durability.fields, DurabilityClass.toCv]
  have hmanifest : ∀ m : ManifestRef, m.toCv.KeysDistinct := by
    intro m
    apply keysDistinct_of_keysFrom (by decide) (ManifestRef.keysFrom_fields m)
    simp [ManifestRef.fields, ContentId.toCv, hdurability]
  apply keysDistinct_of_keysFrom (by decide) (Attachment.keysFrom_fields a)
  simp [Attachment.fields, hmanifest]

theorem keysDistinct_fields {p : Payload} (hext : (Cv.textMap p.headers.ext).KeysDistinct)
    (includeSig : Bool) : (Cv.map (fields includeSig p)).KeysDistinct := by
  have hkeys : KeysFrom [1, 2, 3, 4, 5, 6, 7] (fields includeSig p) := by
    cases includeSig with
    | true => exact keysFrom_fields p
    | false => exact List.Sublist.trans (keysFrom_signed p) (by decide)
  apply keysDistinct_of_keysFrom (by decide) hkeys
  have hsig : AllValues Cv.KeysDistinct (if includeSig then [(2, .bytes p.sig)] else []) := by
    split_ifs <;> simp
  simp [fields, hsig, keysDistinct_headers hext, keysDistinct_attachment, Cv.keysDistinct_array,
    ContentId.toCv]

/-- Decoding what a payload encodes to returns the payload in canonical form. -/
theorem fromDetCbor_detCbor {p : Payload} (hp : (Cv.map (fields true p)).LengthsFit)
    (hext : (Cv.textMap p.headers.ext).KeysDistinct)
    (hdepth : (Cv.map (fields true p)).depth ≤ maxNestingDepth) (hclasses : p.ClassesDecoded) :
    fromDetCbor p.detCbor = .ok p.canonical := by
  have hdecode : decode p.detCbor = .ok (Cbor.norm (.map (fields true p))) :=
    decode_enc hp (keysDistinct_fields hext true) hdepth
  unfold fromDetCbor Cbor.fromDetCbor
  rw [hdecode]
  dsimp only
  rw [fromCv_norm hclasses]
  rfl

theorem enc_canonical_headers {h : Headers} (hfit : (Cv.textMap h.ext).LengthsFit)
    (hext : (Cv.textMap h.ext).KeysDistinct) : enc h.canonical.toCv = enc h.toCv := by
  have hfields : encMap (Headers.extFields h.canonical.ext) = encMap (Headers.extFields h.ext) := by
    cases hnil : h.ext with
    | nil =>
      have hcanonical : h.canonical.ext = [] := by
        unfold Headers.canonical
        rw [hnil]
        rfl
      rw [hcanonical]
    | cons e ext =>
      rw [hnil] at hfit hext
      have hnorm := enc_norm hfit hext
      have hcanonical : Cv.textMap h.canonical.ext = Cbor.norm (.textMap (e :: ext)) := by
        unfold Headers.canonical
        rw [hnil]
        rfl
      have hne : h.canonical.ext.isEmpty = false := by
        have hlength : h.canonical.ext.length = (e :: ext).length := by
          unfold Headers.canonical
          rw [hnil]
          simp [normTextMap_eq]
        cases hc : h.canonical.ext with
        | nil =>
          rw [hc] at hlength
          cases hlength
        | cons e' ext' => rfl
      simp only [Headers.extFields, hne, List.isEmpty_cons, Bool.false_eq_true, if_false, encMap,
        hcanonical, hnorm]
  have hall : encMap h.canonical.fields = encMap h.fields := by
    simp only [encMap_eq, Headers.fields, List.map_append] at hfields ⊢
    rw [hfields]
    rfl
  simp only [Headers.toCv, enc, hall]

/-- What is signed does not depend on the order in which the extension headers came. -/
theorem signingBody_canonical {p : Payload} (hfit : (Cv.textMap p.headers.ext).LengthsFit)
    (hext : (Cv.textMap p.headers.ext).KeysDistinct) :
    p.canonical.signingBody = p.signingBody := by
  have hheaders := enc_canonical_headers hfit hext
  have hall : encMap (fields false p.canonical) = encMap (fields false p) := by
    simp only [encMap_eq, fields, List.map_append, List.map_cons]
    rw [← hheaders]
    rfl
  simp only [signingBody, encode, enc, hall]

end Payload
end Mote
end Dmtap
