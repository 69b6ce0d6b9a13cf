import Dmtap.Wire

/-! Public objects: manifests, announcements and the entries and heads of author feeds. -/
namespace Dmtap.Pub
open Dmtap.Lib Dmtap.Cbor

inductive PubError
  | unsupportedVersion
  | manifestKeyPresent
  | manifestTypeMismatch
  | announceSigInvalid
  | announceIdMismatch
  | feedSigInvalid
  | feedRollback
  | feedChainBroken
  | manifestHashMismatch
  | chunkHashMismatch
  | supersedeInvalid
  | notServed
  | serveQuota
  | subscriptionSigInvalid
  | subscriptionExpired
  | subscriptionRevoked
  | subscriptionRevokeInvalid
  | subscribeQuota
  | hintRateLimited
  | cbor (e : CborError)
  deriving DecidableEq, Repr

instance : ErrorFrom CborError PubError := ⟨.cbor⟩

instance : ErrorFrom PubError PubError := ⟨id⟩

/-- The only object version. -/
def pubV0 : UInt8 := 0

/-- Unknown suites and known ones that are not implemented are refused alike. -/
def pubSuite (cv : Cv) : Except PubError Suite := do
  let b ← (asU8 cv).mapError .cbor
  match Suite.fromU8 b with
  | none => .error .unsupportedVersion
  | some s => if s.isSupported then .ok s else .error .unsupportedVersion

theorem lossless_pubSuite : Lossless pubSuite Suite.toCv := by
  intro cv s hcv h
  obtain ⟨b, hb, h⟩ := except_bind_eq_ok.mp h
  have hb' : asU8 cv = .ok b := by
    cases ha : asU8 cv with
    | error e =>
      rw [ha] at hb
      cases hb
    | ok b' =>
      rw [ha] at hb
      exact congrArg Except.ok (Except.ok.inj hb)
  cases hs : Suite.fromU8 b with
  | none =>
    rw [hs] at h
    cases h
  | some s' =>
    rw [hs] at h
    dsimp only at h
    split_ifs at h with hsup
    obtain rfl : s' = s := Except.ok.inj h
    rw [Suite.toCv, Suite.asU8_of_fromU8 hs]
    exact lossless_u8 hcv hb'

def topicLabelMaxBytes : ℕ := 128

/-- The topic label rules that need no normalization table: at most 128 bytes, no control
characters below U+0020, no `/`, no U+007F. -/
def validateTopicLabel (label : String) : Except PubError Unit :=
  if (utf8 label).length > topicLabelMaxBytes then .error (.cbor .typeMismatch)
  else if label.toList.any (fun c => c.toNat ≤ 0x1f || c = '/' || c.toNat = 0x7f) then
    .error (.cbor .typeMismatch)
  else .ok ()

/-- The manifest of a public blob. Key 5 must not appear. -/
structure PubManifest where
  id : ContentId
  size : UInt64
  chunkSz : UInt32
  chunks : List ContentId
  suite : Suite

namespace PubManifest

def fields (m : PubManifest) : Fields :=
  [(1, m.id.toCv), (2, .u64 m.size), (3, .u64 m.chunkSz.toUInt64),
    (4, .array (m.chunks.map ContentId.toCv)), (6, m.suite.toCv)]

def detCbor (m : PubManifest) : Bytes := encode (.map m.fields)

def reader : FieldReader PubError PubManifest := do
  if Fields.has 5 (← get) then throw .manifestKeyPresent
  else
    let id ← Fields.req 1 ContentId.fromCv
    let size ← Fields.req 2 asU64
    let chunkSz ← Fields.req 3 asU32
    let chunks ← Fields.req 4 (asArrayOf ContentId.fromCv)
    if chunks.isEmpty then throw (.cbor .manifestEmptyChunks)
    else
      let suite ← Fields.req 6 pubSuite
      Fields.denyUnknown
      return { id, size, chunkSz, chunks, suite }

def fromDetCbor : Bytes → Except PubError PubManifest := Cbor.fromDetCbor (Fields.read reader)

theorem readsFields : ReadsFields reader fields := by
  apply Record.yields_get
  intro s
  apply Record.yields_guard
  intro _
  apply yields_req ContentId.lossless
  intro id
  apply yields_req lossless_u64
  intro size
  apply yields_req lossless_u32
  intro chunkSz
  apply yields_req (lossless_array ContentId.lossless)
  intro chunks
  apply Record.yields_guard
  intro _
  apply yields_req lossless_pubSuite
  intro suite
  exact Record.yields_deny_pure (by simp [fields])

theorem canonical : Canonical fromDetCbor detCbor := readsFields.lossless.canonical

end PubManifest

/-- A bare, signed public announcement; `metadata` is the field `meta` of the source. -/
structure PubAnnounce where
  v : UInt8
  suite : Suite
  publisher : Bytes
  roots : List ContentId
  metadata : List (String × Cv)
  supersedes : Option ContentId
  ts : UInt64
  signer : Bytes
  sig : Bytes

namespace PubAnnounce

/-- A text-keyed map, or the empty map, which carries no key kind. -/
def metaFromCv : Cv → Except PubError (List (String × Cv))
  | .textMap m => .ok m
  | .map [] => .ok []
  | _ => .error (.cbor .typeMismatch)

theorem lossless_meta : Lossless metaFromCv .textMap := by
  intro cv m _ h
  unfold metaFromCv at h
  split at h <;> cases h
  · rfl
  · rfl

def fields (includeSig : Bool) (a : PubAnnounce) : Fields :=
  [(1, .u64 a.v.toUInt64), (2, a.suite.toCv), (3, .bytes a.publisher),
    (4, .array (a.roots.map ContentId.toCv)), (5, .textMap a.metadata)] ++
    Fields.opt 6 ContentId.toCv a.supersedes ++ [(7, .u64 a.ts), (8, .bytes a.signer)] ++
    if includeSig then [(9, .bytes a.sig)] else []

def detCbor (a : PubAnnounce) : Bytes := encode (.map (fields true a))

def signingPreimage (a : PubAnnounce) : Bytes := encode (.map (fields false a))

def announceId (blake3 : Bytes → Digest) (a : PubAnnounce) : ContentId := .of blake3 a.detCbor

def reader : FieldReader PubError PubAnnounce := do
  let v ← Fields.req 1 asU8
  if v ≠ pubV0 then throw .unsupportedVersion
  else
    let suite ← Fields.req 2 pubSuite
    let publisher ← Fields.req 3 asBytes
    let roots ← Fields.req 4 (asArrayOf ContentId.fromCv)
    if roots.isEmpty then throw (.cbor .typeMismatch)
    else
      let metadata ← Fields.req 5 metaFromCv
      let supersedes ← Fields.take 6 ContentId.fromCv
      let ts ← Fields.req 7 asU64
      let signer ← Fields.req 8 asBytes
      let sig ← Fields.req 9 asBytes
      Fields.denyUnknown
      return { v, suite, publisher, roots, metadata, supersedes, ts, signer, sig }

def fromDetCbor : Bytes → Except PubError PubAnnounce := Cbor.fromDetCbor (Fields.read reader)

theorem readsFields : ReadsFields reader (fields true) := by
  apply yields_req lossless_u8
  intro v
  apply Record.yields_guard
  intro _
  apply yields_req lossless_pubSuite
  intro suite
  apply yields_req lossless_bytes
  intro publisher
  apply yields_req (lossless_array ContentId.lossless)
  intro roots
  apply Record.yields_guard
  intro _
  apply yields_req lossless_meta
  intro metadata
  apply yields_take ContentId.lossless
  intro supersedes
  apply yields_req lossless_u64
  intro ts
  apply yields_req lossless_bytes
  intro signer
  apply yields_req lossless_bytes
  intro sig
  exact Record.yields_deny_pure (by simp [fields])

theorem canonical : Canonical fromDetCbor detCbor := readsFields.lossless.canonical

theorem signsReceived : SignsReceived fromDetCbor signingPreimage (· ≠ 9) := by
  refine readsFields.signsReceived (fun a => ?_)
  unfold fields
  cases a.supersedes <;> rfl

end PubAnnounce

/-- One position in an author feed. -/
structure FeedEntry where
  seq : UInt64
  announce : ContentId
  prev : Option ContentId
  ts : UInt64

namespace FeedEntry

def fields (e : FeedEntry) : Fields :=
  [(1, .u64 e.seq), (2, e.announce.toCv)] ++ Fields.opt 3 ContentId.toCv e.prev ++
    [(4, .u64 e.ts)]

def detCbor (e : FeedEntry) : Bytes := encode (.map e.fields)

def entryId (blake3 : Bytes → Digest) (e : FeedEntry) : ContentId := .of blake3 e.detCbor

/-- The genesis entry has no predecessor and every other entry has one. -/
def prevMisplaced (seq : UInt64) (prev : Option ContentId) : Bool :=
  seq = 0 && prev.isSome || seq ≠ 0 && prev.isNone

def reader : FieldReader PubError FeedEntry := do
  let seq ← Fields.req 1 asU64
  let announce ← Fields.req 2 ContentId.fromCv
  let prev ← Fields.take 3 ContentId.fromCv
  let ts ← Fields.req 4 asU64
  Fields.denyUnknown
  if prevMisplaced seq prev then throw .feedChainBroken
  else return { seq, announce, prev, ts }

def fromDetCbor : Bytes → Except PubError FeedEntry := Cbor.fromDetCbor (Fields.read reader)

theorem readsFields : ReadsFields reader fields := by
  apply yields_req lossless_u64
  intro seq
  apply yields_req ContentId.lossless
  intro announce
  apply yields_take ContentId.lossless
  intro prev
  apply yields_req lossless_u64
  intro ts
  apply Record.yields_deny
  intro e t h
  split_ifs at h with hprev
  · cases h
  · obtain ⟨rfl, rfl⟩ := Prod.mk.inj (Except.ok.inj h)
    exact ⟨rfl, by simp [fields]⟩

theorem canonical : Canonical fromDetCbor detCbor := readsFields.lossless.canonical

end FeedEntry

/-- The signed head of an author feed. -/
structure FeedHead where
  v : UInt8
  suite : Suite
  publisher : Bytes
  seq : UInt64
  tip : ContentId
  ts : UInt64
  signer : Bytes
  sig : Bytes
  topic : String

namespace FeedHead

/-- The empty topic is spelt by leaving the key out. -/
def topicFromCv (cv : Cv) : Except PubError String := do
  let t ← (asText cv).mapError .cbor
  if t.isEmpty then .error (.cbor .typeMismatch)
  else
    validateTopicLabel t
    return t

def topicFields (topic : String) : Fields := if topic.isEmpty then [] else [(64, .text topic)]

def fields (includeSig : Bool) (h : FeedHead) : Fields :=
  [(1, .u64 h.v.toUInt64), (2, h.suite.toCv), (3, .bytes h.publisher), (4, .u64 h.seq),
    (5, h.tip.toCv), (6, .u64 h.ts), (7, .bytes h.signer)] ++
    (if includeSig then [(8, .bytes h.sig)] else []) ++ topicFields h.topic

def detCbor (h : FeedHead) : Bytes := encode (.map (fields true h))

def signingPreimage (h : FeedHead) : Bytes := encode (.map (fields false h))

def reader : FieldReader PubError FeedHead := do
  let v ← Fields.req 1 asU8
  if v ≠ pubV0 then throw .unsupportedVersion
  else
    let suite ← Fields.req 2 pubSuite
    let publisher ← Fields.req 3 asBytes
    let seq ← Fields.req 4 asU64
    let tip ← Fields.req 5 ContentId.fromCv
    let ts ← Fields.req 6 asU64
    let signer ← Fields.req 7 asBytes
    let sig ← Fields.req 8 asBytes
    let topic ← Fields.take 64 topicFromCv
    Fields.denyUnknown
    return { v, suite, publisher, seq, tip, ts, signer, sig, topic := topic.getD "" }

def fromDetCbor : Bytes → Except PubError FeedHead := Cbor.fromDetCbor (Fields.read reader)

theorem topicFromCv_eq_ok {cv : Cv} {t : String} (h : topicFromCv cv = .ok t) :
    cv = .text t ∧ t.isEmpty = false := by
  obtain ⟨t', ht', h⟩ := except_bind_eq_ok.mp h
  have hcv : cv = .text t' := by
    cases cv <;> cases ht'
    rfl
  split_ifs at h with hempty
  obtain ⟨_, -, h⟩ := except_bind_eq_ok.mp h
  obtain rfl : t' = t := Except.ok.inj h
  exact ⟨hcv, Bool.eq_false_iff.mpr hempty⟩

theorem readsFields : ReadsFields reader (fields true) := by
  apply yields_req lossless_u8
  intro v
  apply Record.yields_guard
  intro _
  apply yields_req lossless_pubSuite
  intro suite
  apply yields_req lossless_bytes
  intro publisher
  apply yields_req lossless_u64
  intro seq
  apply yields_req ContentId.lossless
  intro tip
  apply yields_req lossless_u64
  intro ts
  apply yields_req lossless_bytes
  intro signer
  apply yields_req lossless_bytes
  intro sig
  apply Record.yields_optField
  · exact Record.yields_deny_pure (by simp [fields, topicFields])
  · intro cv topic _ htopic
    obtain ⟨rfl, hempty⟩ := topicFromCv_eq_ok htopic
    exact Record.yields_deny_pure (by simp [fields, topicFields, hempty])

theorem canonical : Canonical fromDetCbor detCbor := readsFields.lossless.canonical

theorem signsReceived : SignsReceived fromDetCbor signingPreimage (· ≠ 8) := by
  refine readsFields.signsReceived (fun h => ?_)
  unfold fields topicFields
  cases h.topic.isEmpty <;> rfl

end FeedHead
end Dmtap.Pub
