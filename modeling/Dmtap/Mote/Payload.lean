import Dmtap.Cbor.Rewrites
import Dmtap.Mote.Envelope

/-! The sealed payload of a message with its headers and attachments. Every part but the headers
is written back as it was read; headers that spell out an empty extension map are not. -/
namespace Dmtap.Mote
open Dmtap.Lib Dmtap.Cbor

/-- Who serves a referenced file. A byte outside the table is kept, to be refused later. -/
inductive DurabilityClass
  | originHold
  | recipientPinned
  | clusterReplicated
  | pinned
  | unknown (b : UInt8)
  deriving DecidableEq, Repr

namespace DurabilityClass

def fromU8 (b : UInt8) : DurabilityClass :=
  if b = 0 then originHold
  else if b = 1 then recipientPinned
  else if b = 2 then clusterReplicated
  else if b = 3 then pinned
  else unknown b

def asU8 : DurabilityClass → UInt8
  | originHold => 0
  | recipientPinned => 1
  | clusterReplicated => 2
  | pinned => 3
  | unknown b => b

theorem asU8_fromU8 (b : UInt8) : (fromU8 b).asU8 = b := by
  unfold fromU8
  split_ifs with h0 h1 h2 h3
  · exact h0.symm
  · exact h1.symm
  · exact h2.symm
  · exact h3.symm
  · rfl

def fromCv (cv : Cv) : Except CborError DurabilityClass := (Cbor.asU8 cv).map fromU8

def toCv (c : DurabilityClass) : Cv := .u64 c.asU8.toUInt64

theorem lossless : Lossless fromCv toCv := by
  intro cv c hcv h
  cases hb : Cbor.asU8 cv with
  | error e =>
    rw [fromCv, hb] at h
    cases h
  | ok b =>
    rw [fromCv, hb] at h
    have hc : fromU8 b = c := Except.ok.inj h
    rw [toCv, ← hc, asU8_fromU8]
    exact lossless_u8 hcv hb

end DurabilityClass

/-- The retention contract of one delivery. -/
structure Durability where
  «class» : DurabilityClass
  retention : Option UInt64
  replicas : Option UInt32
  holderHint : Option String

namespace Durability

def fields (d : Durability) : Fields :=
  [(1, d.class.toCv)] ++ Fields.opt 2 .u64 d.retention ++
    Fields.opt 3 (fun n => .u64 n.toUInt64) d.replicas ++ Fields.opt 4 .text d.holderHint

def toCv (d : Durability) : Cv := .map d.fields

def reader : FieldReader CborError Durability := do
  let c ← Fields.req 1 DurabilityClass.fromCv
  let retention ← Fields.take 2 asU64
  let replicas ← Fields.take 3 asU32
  let holderHint ← Fields.take 4 asText
  Fields.denyUnknown
  return ⟨c, retention, replicas, holderHint⟩

def fromCv : Cv → Except CborError Durability := Fields.read reader

theorem readsFields : ReadsFields reader fields := by
  apply yields_req DurabilityClass.lossless
  intro c
  apply yields_take lossless_u64
  intro retention
  apply yields_take lossless_u32
  intro replicas
  apply yields_take lossless_text
  intro holderHint
  exact Record.yields_deny_pure (by simp [fields])

theorem lossless : Lossless fromCv toCv := readsFields.lossless

end Durability

/-- A reference to a file's manifest; `chunks` is their number. -/
structure ManifestRef where
  id : ContentId
  size : UInt64
  chunks : UInt32
  durability : Option Durability

namespace ManifestRef

def fields (m : ManifestRef) : Fields :=
  [(1, m.id.toCv), (2, .u64 m.size), (3, .u64 m.chunks.toUInt64)] ++
    Fields.opt 4 Durability.toCv m.durability

def toCv (m : ManifestRef) : Cv := .map m.fields

def reader : FieldReader CborError ManifestRef := do
  let id ← Fields.req 1 ContentId.fromCv
  let size ← Fields.req 2 asU64
  let chunks ← Fields.req 3 asU32
  let durability ← Fields.take 4 Durability.fromCv
  Fields.denyUnknown
  return { id, size, chunks, durability }

def fromCv : Cv → Except CborError ManifestRef := Fields.read reader

theorem readsFields : ReadsFields reader fields := by
  apply yields_req ContentId.lossless
  intro id
  apply yields_req lossless_u64
  intro size
  apply yields_req lossless_u32
  intro chunks
  apply yields_take Durability.lossless
  intro durability
  exact Record.yields_deny_pure (by simp [fields])

theorem lossless : Lossless fromCv toCv := readsFields.lossless

end ManifestRef

/-- A file, inline or by reference; the decoder does not ask for exactly one of the two. -/
structure Attachment where
  name : String
  mime : String
  size : UInt64
  inline : Option Bytes
  manifest : Option ManifestRef
  key : Bytes

namespace Attachment

def fields (a : Attachment) : Fields :=
  [(1, .text a.name), (2, .text a.mime), (3, .u64 a.size)] ++ Fields.opt 4 .bytes a.inline ++
    Fields.opt 5 ManifestRef.toCv a.manifest ++ [(6, .bytes a.key)]

def toCv (a : Attachment) : Cv := .map a.fields

def reader : FieldReader CborError Attachment := do
  let name ← Fields.req 1 asText
  let mime ← Fields.req 2 asText
  let size ← Fields.req 3 asU64
  let inlined ← Fields.take 4 asBytes
  let manifest ← Fields.take 5 ManifestRef.fromCv
  let key ← Fields.req 6 asBytes
  Fields.denyUnknown
  return ⟨name, mime, size, inlined, manifest, key⟩

def fromCv : Cv → Except CborError Attachment := Fields.read reader

theorem readsFields : ReadsFields reader fields := by
  apply yields_req lossless_text
  intro name
  apply yields_req lossless_text
  intro mime
  apply yields_req lossless_u64
  intro size
  apply yields_take lossless_bytes
  intro inlined
  apply yields_take ManifestRef.lossless
  intro manifest
  apply yields_req lossless_bytes
  intro key
  exact Record.yields_deny_pure (by simp [fields])

theorem lossless : Lossless fromCv toCv := readsFields.lossless

end Attachment

/-- Message headers. The extension headers `ext` are kept as received. -/
structure Headers where
  thread : Option Bytes
  subject : Option String
  mime : Option String
  cc : List Bytes
  ext : List (String × Cv)
  sensitive : Option Bool

namespace Headers

/-- A text-keyed map, or the empty map, which carries no key kind. -/
def extFromCv : Cv → Except CborError (List (String × Cv))
  | .textMap m => .ok m
  | .map [] => .ok []
  | _ => .error .typeMismatch

/-- No extension headers are spelt by leaving the key out. -/
def extFields (ext : List (String × Cv)) : Fields := if ext.isEmpty then [] else [(5, .textMap ext)]

def fields (h : Headers) : Fields :=
  Fields.opt 1 .bytes h.thread ++ Fields.opt 2 .text h.subject ++ Fields.opt 3 .text h.mime ++
    [(4, .array (h.cc.map .bytes))] ++ extFields h.ext ++ Fields.opt 6 .bool h.sensitive

def toCv (h : Headers) : Cv := .map h.fields

def reader : FieldReader CborError Headers := do
  let thread ← Fields.take 1 asBytes
  let subject ← Fields.take 2 asText
  let mime ← Fields.take 3 asText
  let cc ← Fields.req 4 (asArrayOf asBytes)
  let ext ← Fields.take 5 extFromCv
  let sensitive ← Fields.take 6 asBool
  Fields.denyUnknown
  return { thread, subject, mime, cc, ext := ext.getD [], sensitive }

def fromCv : Cv → Except CborError Headers := Fields.read reader

/-- A map without entries, of either key kind. -/
def isEmptyMap : Cv → Bool
  | .map [] => true
  | .textMap [] => true
  | _ => false

/-- An entry that spells out an empty extension map. -/
def emptyExt (p : UInt64 × Cv) : Bool := p.1 = 5 && isEmptyMap p.2

theorem extFromCv_eq_ok {v : Cv} {ext : List (String × Cv)} (h : extFromCv v = .ok ext) :
    isEmptyMap v = ext.isEmpty ∧ enc v = enc (.textMap ext) := by
  unfold extFromCv at h
  split at h
  · rename_i m
    obtain rfl : m = ext := Except.ok.inj h
    refine ⟨?_, rfl⟩
    cases m <;> rfl
  · obtain rfl : [] = ext := Except.ok.inj h
    exact ⟨rfl, rfl⟩
  · cases h

/-- What the reader took, set against the headers it returns: all of it, or all but one entry that
spelt out an empty extension map. -/
def Received (h : Headers) (l : Fields) : Prop :=
  RespeltFields (fun p => emptyExt p = false) l h.fields ∨
    ∃ p l', emptyExt p = true ∧ l.Perm (p :: l') ∧
      RespeltFields (fun p => emptyExt p = false) l' h.fields

private theorem length_opt_le {α : Type} (k : UInt64) (put : α → Cv) (o : Option α) :
    (Fields.opt k put o).length ≤ 1 := by
  cases o <;> simp [Fields.opt]

theorem length_fields_le (h : Headers) : h.fields.length ≤ 6 := by
  have h1 := length_opt_le 1 .bytes h.thread
  have h2 := length_opt_le 2 .text h.subject
  have h3 := length_opt_le 3 .text h.mime
  have h5 : (extFields h.ext).length ≤ 1 := by
    unfold extFields
    split_ifs <;> simp
  have h6 := length_opt_le 6 .bool h.sensitive
  simp only [fields, List.length_append, List.length_singleton]
  omega

private theorem exact_iff {k : UInt64} (hk : k ≠ 5) (v : Cv) :
    emptyExt (k, v) = false ↔ True := by
  simp [emptyExt, hk]

private theorem rest_respells (thread : Option Bytes) (subject mime : Option String)
    (cc : List Bytes) (ext : List (String × Cv)) :
    Respells (fun p => emptyExt p = false)
      (do
        let sensitive ← Fields.take 6 asBool
        Fields.denyUnknown
        return { thread, subject, mime, cc, ext, sensitive } : FieldReader CborError Headers)
      (Fields.opt 1 .bytes thread ++ Fields.opt 2 .text subject ++ Fields.opt 3 .text mime ++
        [(4, .array (cc.map .bytes))] ++ extFields ext)
      (fun h l => RespeltFields (fun p => emptyExt p = false) l h.fields) := by
  apply respells_take lossless_bool.rewrites (exact_iff (by decide))
  intro sensitive
  apply respells_deny_pure
  intro taken htaken
  exact htaken

theorem received : Respells (fun p => emptyExt p = false) reader [] Received := by
  apply respells_take lossless_bytes.rewrites (exact_iff (by decide))
  intro thread
  apply respells_take lossless_text.rewrites (exact_iff (by decide))
  intro subject
  apply respells_take lossless_text.rewrites (exact_iff (by decide))
  intro mime
  apply respells_req (lossless_array lossless_bytes).rewrites (exact_iff (by decide))
  intro cc taken htaken
  apply Record.yields_optField
  · have hrest := rest_respells thread subject mime cc []
    rw [extFields, List.isEmpty_nil, if_pos rfl, List.append_nil] at hrest
    exact (hrest htaken).mono (fun h l => Or.inl)
  · intro v ext hv hext
    obtain ⟨hempty, henc⟩ := extFromCv_eq_ok hext
    have hrest := rest_respells thread subject mime cc ext
    by_cases hnil : ext.isEmpty
    · rw [extFields, if_pos hnil, List.append_nil] at hrest
      have hmark : emptyExt (5, v) = true := by
        simp [emptyExt, hempty, hnil]
      refine ((hrest htaken).frame (5, v)).mono (fun h l hl => Or.inr ?_)
      obtain ⟨l', hl', hperm⟩ := hl
      exact ⟨(5, v), l', hmark, hperm, hl'⟩
    · rw [extFields, if_neg hnil] at hrest
      have hmark : emptyExt (5, v) = false := by
        simp [emptyExt, hempty, hnil]
      have hsnoc := htaken.snoc (k := 5) (v := v) (w := .textMap ext) (Or.inl ⟨hmark, henc.symm⟩)
      exact (hrest hsnoc).mono (fun h l => Or.inl)

/-- Headers are written back as read exactly when no entry spells out an empty extension map. -/
theorem rewrites :
    Rewrites fromCv toCv (fun cv => ∀ p ∈ cv.fields, emptyExt p = false) := by
  intro cv h hcv hread
  cases cv with
  | map m =>
    obtain ⟨l, hl, hperm⟩ := (received List.Forall₂.nil).perm hcv hread
    rcases hl with hl | ⟨p, l', hp, hdrop, hl'⟩
    · exact hl.respelt (Cv.keysDistinct_map.mp hcv).1 hperm
    · right
      have hmem : p ∈ m := (hperm.trans hdrop).mem_iff.mpr List.mem_cons_self
      have hlen := length_fields_le h
      refine ⟨fun hall => ?_, hl'.weight_lt_of_drop (hperm.trans hdrop) (by omega)⟩
      have hfalse := hall p hmem
      rw [hp] at hfalse
      cases hfalse
  | _ => cases hread

end Headers

/-- The end-to-end encrypted payload; `sender` is the field `from` of the source. -/
structure Payload where
  sender : Bytes
  sig : Bytes
  headers : Headers
  body : Bytes
  refs : List ContentId
  attach : List Attachment
  expires : Option UInt64

namespace Payload

def fields (includeSig : Bool) (p : Payload) : Fields :=
  [(1, .bytes p.sender)] ++ (if includeSig then [(2, .bytes p.sig)] else []) ++
    [(3, p.headers.toCv), (4, .bytes p.body), (5, .array (p.refs.map ContentId.toCv)),
      (6, .array (p.attach.map Attachment.toCv))] ++ Fields.opt 7 .u64 p.expires

def detCbor (p : Payload) : Bytes := encode (.map (fields true p))

def signingBody (p : Payload) : Bytes := encode (.map (fields false p))

def reader : FieldReader CborError Payload := do
  let sender ← Fields.req 1 asBytes
  let sig ← Fields.req 2 asBytes
  let headers ← Fields.req 3 Headers.fromCv
  let body ← Fields.req 4 asBytes
  let refs ← Fields.req 5 (asArrayOf ContentId.fromCv)
  let attach ← Fields.req 6 (asArrayOf Attachment.fromCv)
  let expires ← Fields.take 7 asU64
  Fields.denyUnknown
  return { sender, sig, headers, body, refs, attach, expires }

def fromDetCbor : Bytes → Except CborError Payload := Cbor.fromDetCbor (Fields.read reader)

/-- An entry that is a header map with an empty extension map spelt out in it. -/
def emptyExtInside (p : UInt64 × Cv) : Bool := p.1 = 3 && p.2.fields.any Headers.emptyExt

/-- The received bytes spell out an empty extension map in their headers. -/
def spellsEmptyExt (bytes : Bytes) : Bool :=
  match decode bytes with
  | .ok cv => cv.fields.any emptyExtInside
  | .error _ => false

private theorem exact_iff {k : UInt64} (hk : k ≠ 3) (v : Cv) :
    emptyExtInside (k, v) = false ↔ True := by
  simp [emptyExtInside, hk]

private theorem exact_headers_iff (v : Cv) :
    emptyExtInside (3, v) = false ↔ ∀ q ∈ v.fields, Headers.emptyExt q = false := by
  simp [emptyExtInside]

theorem respellsFields : RespellsFields (fun p => emptyExtInside p = false) reader (fields true) := by
  apply respells_req lossless_bytes.rewrites (exact_iff (by decide))
  intro sender
  apply respells_req lossless_bytes.rewrites (exact_iff (by decide))
  intro sig
  apply respells_req Headers.rewrites exact_headers_iff
  intro headers
  apply respells_req lossless_bytes.rewrites (exact_iff (by decide))
  intro body
  apply respells_req (lossless_array ContentId.lossless).rewrites (exact_iff (by decide))
  intro refs
  apply respells_req (lossless_array Attachment.lossless).rewrites (exact_iff (by decide))
  intro attach
  apply respells_take lossless_u64.rewrites (exact_iff (by decide))
  intro expires
  apply respells_deny_pure
  intro taken htaken
  exact htaken

theorem spellsEmptyExt_eq_false {b : Bytes} {m : Fields} (h : decode b = .ok (.map m)) :
    spellsEmptyExt b = false ↔ ∀ p ∈ m, emptyExtInside p = false := by
  rw [spellsEmptyExt, h]
  simp [Cv.fields]

/-- The signature is not among the entries that decide. -/
theorem spellsEmptyExt_eq_false_signed {b : Bytes} {m : Fields} (h : decode b = .ok (.map m)) :
    spellsEmptyExt b = false ↔
      ∀ p ∈ m.filter (fun p => decide (p.1 ≠ 2)), emptyExtInside p = false := by
  rw [spellsEmptyExt_eq_false h]
  constructor
  · intro hall p hp
    exact hall p (List.mem_of_mem_filter hp)
  · intro hall p hp
    by_cases hsig : p.1 = 2
    · simp [emptyExtInside, hsig]
    · exact hall p (List.mem_filter.mpr ⟨hp, decide_eq_true hsig⟩)

theorem signed_fields (p : Payload) :
    fields false p = (fields true p).filter (fun q => decide (q.1 ≠ 2)) := by
  unfold fields
  cases p.expires <;> rfl

/-- A payload is written back as it was received, and its signing body is cut out of what was
received, exactly when the headers do not spell out an empty extension map. -/
theorem payload_canonical_iff {b : Bytes} {p : Payload} (h : fromDetCbor b = .ok p) :
    (p.detCbor = b ↔ spellsEmptyExt b = false) ∧
      ∃ m, decode b = .ok (.map m) ∧
        (p.signingBody = encode (.map (m.filter (fun q => decide (q.1 ≠ 2)))) ↔
          spellsEmptyExt b = false) := by
  obtain ⟨m, hm, hread⟩ := fromDetCbor_read_eq_ok h
  have hdist := keysDistinct_of_decode hm
  constructor
  · rw [spellsEmptyExt_eq_false hm]
    exact respellsFields.rewrites.encode_eq_iff hm hread
  · refine ⟨m, hm, ?_⟩
    rw [spellsEmptyExt_eq_false_signed hm, signingBody, signed_fields]
    exact (respellsFields.filter (fun k => decide (k ≠ 2)) hdist hread).enc_eq_iff

/-- A payload with nothing in it but the required fields. -/
def plainBytes : Bytes :=
  [0xa6, 0x01, 0x40, 0x02, 0x40, 0x03, 0xa1, 0x04, 0x80, 0x04, 0x40, 0x05, 0x80, 0x06, 0x80]

theorem payload_canonical_plain :
    ∃ p, fromDetCbor plainBytes = .ok p ∧ p.detCbor = plainBytes := by
  have hok : (fromDetCbor plainBytes).toOption.any (fun _ => true) = true := by decide
  obtain ⟨p, hp, -⟩ := exists_ok_of_any hok
  have hplain : spellsEmptyExt plainBytes = false := by decide
  exact ⟨p, hp, (payload_canonical_iff hp).1.mpr hplain⟩

/-- The same payload with the headers `a2 04 80 05 a0`. -/
def emptyExtBytes : Bytes :=
  [0xa6, 0x01, 0x40, 0x02, 0x40, 0x03, 0xa2, 0x04, 0x80, 0x05, 0xa0, 0x04, 0x40, 0x05, 0x80, 0x06,
    0x80]

theorem payload_emptyExt_rewritten :
    ∃ p, fromDetCbor emptyExtBytes = .ok p ∧ p.detCbor ≠ emptyExtBytes := by
  have hne : (fromDetCbor emptyExtBytes).toOption.any
      (fun p => decide (p.detCbor ≠ emptyExtBytes)) = true := by
    decide
  obtain ⟨p, hp, hdet⟩ := exists_ok_of_any hne
  exact ⟨p, hp, of_decide_eq_true hdet⟩

end Payload
end Dmtap.Mote
