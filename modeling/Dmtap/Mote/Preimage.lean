import Dmtap.Mote.Restores

/-! What the signatures and the seal of a message cover. The preimages are plain concatenations;
they can be taken apart because every part has a fixed width or is one encoded item. -/
namespace Dmtap.Mote
open Dmtap.Lib Dmtap.Cbor

/-- The associated data that ties a ciphertext to its envelope. -/
def aadBytes (suite : Suite) (kind : Kind) (ts : UInt64) (toCbor : Bytes) : Bytes :=
  [suite.asU8] ++ [kind.asU8] ++ toBe 8 ts.toNat ++ toCbor

namespace Payload

/-- The bytes hashed by `payloadHash`. -/
def hashedBytes (p : Payload) (kind : Kind) (ts : UInt64) (toCbor : Bytes) : Bytes :=
  p.signingBody ++ [kind.asU8] ++ toBe 8 ts.toNat ++ toCbor

/-- The hash that the sender's identity signs, tied to the envelope's context. -/
def payloadHash (blake3 : Bytes → Digest) (p : Payload) (kind : Kind) (ts : UInt64)
    (toCbor : Bytes) : Digest :=
  blake3 (p.hashedBytes kind ts toCbor)

/-- The hash without the envelope's context. -/
def payloadHashUnbound (blake3 : Bytes → Digest) (p : Payload) : Digest := blake3 p.signingBody

/-- The payload without its signature. -/
def unsigned (p : Payload) : Payload := { p with sig := [] }

/-- The payload with the entries of every map of its extension headers in canonical order. -/
def entriesOrdered (p : Payload) : Payload :=
  { p with headers :=
    { p.headers with ext := sortByKey (fun e => textKey e.1) (orderedTextMap p.headers.ext) } }

/-- No value of the extension headers holds an empty text map. -/
def NoEmptyTextMaps (p : Payload) : Prop := ∀ e ∈ p.headers.ext, NoEmptyTextMap e.2

end Payload

section Sized

/-- An envelope whose vectors and strings exist in the source's address space. -/
abbrev SizedEnvelope := { e : Envelope // e.toCv.LengthsFit }

/-- A payload whose vectors and strings exist in the source's address space. -/
abbrev SizedPayload := { p : Payload // (Cv.map (Payload.fields true p)).LengthsFit }

/-- A routing target whose vectors exist in the source's address space. -/
abbrev SizedTag := { t : DeliveryTag // t.toCv.LengthsFit }

end Sized

theorem Kind.asU8_injective {k k' : Kind} (h : k.asU8 = k'.asU8) : k = k' := by
  have hk : fromU8 k.asU8 = some k := by cases k <;> rfl
  have hk' : fromU8 k'.asU8 = some k' := by cases k' <;> rfl
  rw [h, hk'] at hk
  exact (Option.some.inj hk).symm

theorem toBe_append_injective {ts ts' : UInt64} {s t : Bytes}
    (h : toBe 8 ts.toNat ++ s = toBe 8 ts'.toNat ++ t) : ts = ts' ∧ s = t := by
  obtain ⟨hword, hrest⟩ := List.append_inj h (by simp)
  have hts := ofBe_toBe 8 ts.toNat ts.toNat_lt
  have hts' := ofBe_toBe 8 ts'.toNat ts'.toNat_lt
  rw [hword, hts'] at hts
  exact ⟨UInt64.toNat_inj.mp hts.symm, hrest⟩

theorem DeliveryTag.detCbor_append_injective {t t' : DeliveryTag} {s s' : Bytes}
    (ht : t.toCv.LengthsFit) (ht' : t'.toCv.LengthsFit)
    (h : t.detCbor ++ s = t'.detCbor ++ s') : t = t' ∧ s = s' := by
  obtain ⟨hnorm, hrest⟩ := enc_append_injective ht (keysDistinct_toCv t) ht' (keysDistinct_toCv t') h
  have hfrom := fromCv_norm t
  rw [hnorm, fromCv_norm t'] at hfrom
  exact ⟨(Except.ok.inj hfrom).symm, hrest⟩

theorem DeliveryTag.detCbor_injective {t t' : SizedTag} (h : t.val.detCbor = t'.val.detCbor) :
    t = t' := by
  have happ : t.val.detCbor ++ [] = t'.val.detCbor ++ [] := congrArg (· ++ []) h
  exact Subtype.ext (detCbor_append_injective t.2 t'.2 happ).1

theorem ChallengeResponse.detCbor_injective {c c' : ChallengeResponse} (hc : c.toCv.LengthsFit)
    (hc' : c'.toCv.LengthsFit) (h : c.detCbor = c'.detCbor) : c = c' := by
  have happ : enc c.toCv ++ [] = enc c'.toCv ++ [] := congrArg (· ++ []) h
  obtain ⟨hnorm, -⟩ := enc_append_injective hc (keysDistinct_toCv c) hc' (keysDistinct_toCv c') happ
  have hfrom := fromCv_norm c
  rw [hnorm, fromCv_norm c'] at hfrom
  exact (Except.ok.inj hfrom).symm

/-- The byte that stands for an absent challenge is no challenge's encoding. -/
theorem ChallengeResponse.detCbor_ne_null {c : ChallengeResponse} (hc : c.toCv.LengthsFit) :
    c.detCbor ≠ [0xf6] := by
  intro h
  have hdepth : c.toCv.depth ≤ maxNestingDepth := (depth_toCv_le c).trans (by decide)
  have hok : decode c.detCbor = .ok (Cbor.norm c.toCv) := decode_enc hc (keysDistinct_toCv c) hdepth
  have hnull : (decode [0xf6]).isOk = false := by decide
  rw [h] at hok
  rw [hok] at hnull
  cases hnull

namespace Envelope

theorem lengthsFit_toTag (e : SizedEnvelope) : e.val.toTag.toCv.LengthsFit := by
  have hmem : ((4, e.val.toTag.toCv) : UInt64 × Cv) ∈ e.val.fields := by simp [fields]
  exact (Cv.lengthsFit_map.mp e.2).2 _ hmem

theorem lengthsFit_challenge (e : SizedEnvelope) {c : ChallengeResponse}
    (hc : e.val.challenge = some c) : c.toCv.LengthsFit := by
  have hmem : ((9, c.toCv) : UInt64 × Cv) ∈ e.val.fields := by
    simp [fields, hc, Fields.mem_opt]
  exact (Cv.lengthsFit_map.mp e.2).2 _ hmem

theorem challenge_eq_of_senderSigBody {e e' : SizedEnvelope}
    (h : (match e.val.challenge with
      | some c => c.detCbor
      | none => [0xf6]) = match e'.val.challenge with
      | some c => c.detCbor
      | none => [0xf6]) : e.val.challenge = e'.val.challenge := by
  cases hc : e.val.challenge with
  | none =>
    cases hc' : e'.val.challenge with
    | none => rfl
    | some c' =>
      rw [hc, hc'] at h
      exact absurd h.symm (ChallengeResponse.detCbor_ne_null (lengthsFit_challenge e' hc'))
  | some c =>
    have hfit := lengthsFit_challenge e hc
    cases hc' : e'.val.challenge with
    | none =>
      rw [hc, hc'] at h
      exact absurd h (ChallengeResponse.detCbor_ne_null hfit)
    | some c' =>
      rw [hc, hc'] at h
      have hfit' := lengthsFit_challenge e' hc'
      exact congrArg some (ChallengeResponse.detCbor_injective hfit hfit' h)

/-- Envelopes with one sender preimage carry the same signed fields. -/
theorem senderSigBody_injective {e e' : SizedEnvelope} (hid : e.val.id.bytes.length = 33)
    (hid' : e'.val.id.bytes.length = 33) (h : e.val.senderSigBody = e'.val.senderSigBody) :
    e.val.id = e'.val.id ∧ e.val.toTag = e'.val.toTag ∧ e.val.ts = e'.val.ts ∧
      e.val.kind = e'.val.kind ∧ e.val.challenge = e'.val.challenge := by
  simp only [senderSigBody, List.append_assoc] at h
  obtain ⟨hids, h⟩ := List.append_inj h (hid.trans hid'.symm)
  obtain ⟨htag, h⟩ := DeliveryTag.detCbor_append_injective (lengthsFit_toTag e)
    (lengthsFit_toTag e') h
  obtain ⟨hts, h⟩ := toBe_append_injective h
  obtain ⟨hkind, h⟩ := List.cons.inj h
  refine ⟨?_, htag, hts, Kind.asU8_injective hkind, ?_⟩
  · exact congrArg ContentId.mk hids
  · exact challenge_eq_of_senderSigBody h

end Envelope

theorem aadBytes_injective {suite suite' : Suite} {kind kind' : Kind} {ts ts' : UInt64}
    {t t' : SizedTag} (h : aadBytes suite kind ts t.val.detCbor = aadBytes suite' kind' ts' t'.val.detCbor) :
    suite = suite' ∧ kind = kind' ∧ ts = ts' ∧ t = t' := by
  simp only [aadBytes, List.append_assoc] at h
  obtain ⟨hsuite, h⟩ := List.cons.inj h
  obtain ⟨hkind, h⟩ := List.cons.inj h
  obtain ⟨hts, h⟩ := toBe_append_injective h
  have htag := DeliveryTag.detCbor_injective h
  exact ⟨Suite.asU8_injective hsuite, Kind.asU8_injective hkind, hts, htag⟩

namespace Payload

theorem lengthsFit_signed (p : SizedPayload) : (Cv.map (fields false p.val)).LengthsFit := by
  obtain ⟨hlength, hvalues⟩ := Cv.lengthsFit_map.mp p.2
  have hsub : (fields false p.val).Sublist (fields true p.val) := by
    rw [signed_fields]
    exact List.filter_sublist
  exact Cv.lengthsFit_map.mpr
    ⟨hsub.length_le.trans_lt hlength, fun q hq => hvalues q (hsub.mem hq)⟩

theorem norm_signed (p : Payload) :
    Cbor.norm (.map (fields false p)) = .map (normMap (fields false p)) := by
  exact norm_map_of_keysFrom (by decide) (keysFrom_signed p)

/-- The signed fields are all fields but the signature. -/
theorem normMap_unsigned {p q : Payload}
    (h : normMap (fields false p) = normMap (fields false q)) :
    normMap (fields true p.unsigned) = normMap (fields true q.unsigned) := by
  obtain ⟨hsender, hrest⟩ := List.cons.inj h
  exact congrArg₂ List.cons hsender (congrArg (List.cons (2, Cbor.norm (.bytes []))) hrest)

/-- Payloads with one signing body, each followed by something, agree in canonical form. -/
theorem signingBody_append_injective {p q : SizedPayload} {s t : Bytes}
    (hp : (Cv.textMap p.val.headers.ext).KeysDistinct)
    (hq : (Cv.textMap q.val.headers.ext).KeysDistinct) (hpc : p.val.ClassesDecoded)
    (hqc : q.val.ClassesDecoded) (h : p.val.signingBody ++ s = q.val.signingBody ++ t) :
    p.val.unsigned.canonical = q.val.unsigned.canonical ∧ s = t := by
  obtain ⟨hnorm, hrest⟩ := enc_append_injective (lengthsFit_signed p)
    (keysDistinct_fields hp false) (lengthsFit_signed q) (keysDistinct_fields hq false) h
  rw [norm_signed, norm_signed] at hnorm
  have hfields := normMap_unsigned (Cv.map.inj hnorm)
  have hrun : reader.run (normMap (fields true p.val.unsigned)) =
      .ok (p.val.unsigned.canonical, []) := reader_run hpc
  have hrun' : reader.run (normMap (fields true q.val.unsigned)) =
      .ok (q.val.unsigned.canonical, []) := reader_run hqc
  rw [hfields, hrun'] at hrun
  exact ⟨(Prod.mk.inj (Except.ok.inj hrun)).1.symm, hrest⟩

theorem canonical_eq_entriesOrdered {p : Payload} (h : p.NoEmptyTextMaps) :
    p.canonical = p.entriesOrdered := by
  have hext : normTextMap p.headers.ext = orderedTextMap p.headers.ext :=
    normTextMap_eq_ordered fun e he => norm_eq_ordered (h e he)
  unfold canonical Headers.canonical entriesOrdered
  rw [hext]

/-- Payloads with one hashed preimage agree on what is signed, and so do their contexts. -/
theorem hashedBytes_injective {p q : SizedPayload} {kind kind' : Kind} {ts ts' : UInt64}
    {t t' : SizedTag} (hp : (Cv.textMap p.val.headers.ext).KeysDistinct)
    (hq : (Cv.textMap q.val.headers.ext).KeysDistinct) (hpc : p.val.ClassesDecoded)
    (hqc : q.val.ClassesDecoded)
    (h : p.val.hashedBytes kind ts t.val.detCbor = q.val.hashedBytes kind' ts' t'.val.detCbor) :
    p.val.unsigned.canonical = q.val.unsigned.canonical ∧ kind = kind' ∧ ts = ts' ∧ t = t' := by
  simp only [hashedBytes, List.append_assoc] at h
  obtain ⟨hbody, h⟩ := signingBody_append_injective hp hq hpc hqc h
  obtain ⟨hkind, h⟩ := List.cons.inj h
  obtain ⟨hts, h⟩ := toBe_append_injective h
  have htag := DeliveryTag.detCbor_injective h
  exact ⟨hbody, Kind.asU8_injective hkind, hts, htag⟩

end Payload

/-- The signature preimages and the associated data are unambiguous. For payloads whose durability
classes are spelt as decoding spells them, the hashed bytes fix the context and everything but the
signature, up to the order of map entries and the key kind of an empty map. -/
theorem preimages_unambiguous :
    (∀ e e' : SizedEnvelope, e.val.id.bytes.length = 33 → e'.val.id.bytes.length = 33 →
      e.val.senderSigBody = e'.val.senderSigBody →
      e.val.id = e'.val.id ∧ e.val.toTag = e'.val.toTag ∧ e.val.ts = e'.val.ts ∧
        e.val.kind = e'.val.kind ∧ e.val.challenge = e'.val.challenge) ∧
    (∀ (p q : SizedPayload) (kind kind' : Kind) (ts ts' : UInt64) (t t' : SizedTag),
      (Cv.textMap p.val.headers.ext).KeysDistinct → (Cv.textMap q.val.headers.ext).KeysDistinct →
      p.val.ClassesDecoded → q.val.ClassesDecoded →
      p.val.hashedBytes kind ts t.val.detCbor = q.val.hashedBytes kind' ts' t'.val.detCbor →
      p.val.unsigned.canonical = q.val.unsigned.canonical ∧
        (p.val.NoEmptyTextMaps → q.val.NoEmptyTextMaps →
          p.val.unsigned.entriesOrdered = q.val.unsigned.entriesOrdered) ∧
        kind = kind' ∧ ts = ts' ∧ t = t') ∧
    ∀ (suite suite' : Suite) (kind kind' : Kind) (ts ts' : UInt64) (t t' : SizedTag),
      aadBytes suite kind ts t.val.detCbor = aadBytes suite' kind' ts' t'.val.detCbor →
      suite = suite' ∧ kind = kind' ∧ ts = ts' ∧ t = t' := by
  refine ⟨?_, ?_, ?_⟩
  · intro e e' hid hid' h
    exact Envelope.senderSigBody_injective hid hid' h
  · intro p q kind kind' ts ts' t t' hp hq hpc hqc h
    obtain ⟨hcanonical, hcontext⟩ := Payload.hashedBytes_injective hp hq hpc hqc h
    refine ⟨hcanonical, ?_, hcontext⟩
    intro hpe hqe
    have hpo : p.val.unsigned.canonical = p.val.unsigned.entriesOrdered :=
      Payload.canonical_eq_entriesOrdered hpe
    have hqo : q.val.unsigned.canonical = q.val.unsigned.entriesOrdered :=
      Payload.canonical_eq_entriesOrdered hqe
    rw [← hpo, ← hqo]
    exact hcanonical
  · intro suite suite' kind kind' ts ts' t t' h
    exact aadBytes_injective h

/-- A payload with the given extension headers and attachments, and nothing else. -/
def Payload.holding (ext : List (String × Cv)) (attach : List Attachment) : Payload where
  sender := []
  sig := []
  headers := { thread := none, subject := none, mime := none, cc := [], ext, sensitive := none }
  body := []
  refs := []
  attach
  expires := none

/-- An envelope without optional fields but an epoch. -/
def Envelope.inEpoch (epoch : Bytes) : Envelope where
  v := 0
  suite := .classical
  id := ⟨mhBlake3 :: toBe 32 0⟩
  toTag := .key []
  epoch := some epoch
  ts := 0
  kind := .mail
  keypkg := none
  challenge := none
  ciphertext := []
  senderSig := none
  senderEph := none

theorem preimages_unambiguous_two_orders :
    (Envelope.inEpoch [1]).toTag = (Envelope.inEpoch [2]).toTag ∧
      (Payload.holding [("a", .u64 1), ("b", .bool true)] []).unsigned.entriesOrdered =
        (Payload.holding [("b", .bool true), ("a", .u64 1)] []).unsigned.entriesOrdered ∧
      aadBytes .classical .mail 0 (DeliveryTag.key []).detCbor ≠
        aadBytes .pqHybrid .mail 0 (DeliveryTag.key []).detCbor := by
  obtain ⟨hsender, hpayload, haad⟩ := preimages_unambiguous
  refine ⟨?_, ?_, ?_⟩
  · exact (hsender ⟨.inEpoch [1], by decide⟩ ⟨.inEpoch [2], by decide⟩ rfl rfl
      (by decide)).2.1
  · have hboth := hpayload ⟨.holding [("a", .u64 1), ("b", .bool true)] [], by decide⟩
      ⟨.holding [("b", .bool true), ("a", .u64 1)] [], by decide⟩ .mail .mail 0 0
      ⟨.key [], by decide⟩ ⟨.key [], by decide⟩ (by decide)
      (by decide) (fun a ha => nomatch ha) (fun a ha => nomatch ha) (by decide)
    refine hboth.2.1 ?_ ?_
    · simp [Payload.NoEmptyTextMaps, Payload.holding, NoEmptyTextMap, Cv.items]
    · simp [Payload.NoEmptyTextMaps, Payload.holding, NoEmptyTextMap, Cv.items]
  · intro h
    have hsuite := (haad .classical .pqHybrid .mail .mail 0 0 ⟨.key [], by decide⟩
      ⟨.key [], by decide⟩ h).1
    cases hsuite

/-- A referenced file with the given durability class. -/
def Attachment.referenced (c : DurabilityClass) : Attachment where
  name := "a"
  mime := "b"
  size := 26214401
  inline := none
  manifest := some
    { id := ⟨mhBlake3 :: toBe 32 0⟩, size := 26214401, chunks := 7,
      durability := some ⟨c, some 1, none, none⟩ }
  key := []

/-- An unknown class with a byte of the table, or an empty text map inside an extension header,
makes two payloads that are signed alike. -/
theorem preimages_collide :
    (∃ p q : SizedPayload, p.val.headers.ext = [] ∧ q.val.headers.ext = [] ∧
      (∀ kind ts toCbor, p.val.hashedBytes kind ts toCbor = q.val.hashedBytes kind ts toCbor) ∧
      p.val.attach ≠ q.val.attach) ∧
    ∃ p q : SizedPayload, (Cv.textMap p.val.headers.ext).KeysDistinct ∧
      (Cv.textMap q.val.headers.ext).KeysDistinct ∧ p.val.attach = [] ∧ q.val.attach = [] ∧
      (∀ kind ts toCbor, p.val.hashedBytes kind ts toCbor = q.val.hashedBytes kind ts toCbor) ∧
      p.val.unsigned.entriesOrdered.headers.ext ≠ q.val.unsigned.entriesOrdered.headers.ext := by
  constructor
  · refine ⟨⟨.holding [] [.referenced (.unknown 2)], by decide⟩,
      ⟨.holding [] [.referenced .clusterReplicated], by decide⟩, rfl, rfl, ?_, ?_⟩
    · intro kind ts toCbor
      rfl
    · simp [Payload.holding, Attachment.referenced]
  · refine ⟨⟨.holding [("a", .textMap [])] [], by decide⟩,
      ⟨.holding [("a", .map [])] [], by decide⟩, by decide, by decide, rfl,
      rfl, ?_, ?_⟩
    · intro kind ts toCbor
      rfl
    · decide

end Dmtap.Mote
