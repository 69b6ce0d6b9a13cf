import Dmtap.Wire

/-! The envelope of a message and the swarm-distributed file manifest. -/
namespace Dmtap.Mote
open Dmtap.Lib Dmtap.Cbor

/-- The message kinds. -/
inductive Kind
  | mail
  | chat
  | reaction
  | edit
  | redact
  | fileOffer
  | groupEvent
  | receipt
  | presence
  | identity
  | system
  | deniable
  | pubAnnounce
  | feedHint
  | feedSubscribe
  | feedUnsubscribe
  | rtcSignal
  deriving DecidableEq, Repr

namespace Kind

def asU8 : Kind → UInt8
  | mail => 0x00
  | chat => 0x01
  | reaction => 0x02
  | edit => 0x03
  | redact => 0x04
  | fileOffer => 0x05
  | groupEvent => 0x06
  | receipt => 0x07
  | presence => 0x08
  | identity => 0x09
  | system => 0x0a
  | deniable => 0x0b
  | pubAnnounce => 0x40
  | feedHint => 0x41
  | feedSubscribe => 0x42
  | feedUnsubscribe => 0x43
  | rtcSignal => 0x44

def fromU8 (b : UInt8) : Option Kind :=
  if b = 0x00 then some mail
  else if b = 0x01 then some chat
  else if b = 0x02 then some reaction
  else if b = 0x03 then some edit
  else if b = 0x04 then some redact
  else if b = 0x05 then some fileOffer
  else if b = 0x06 then some groupEvent
  else if b = 0x07 then some receipt
  else if b = 0x08 then some presence
  else if b = 0x09 then some identity
  else if b = 0x0a then some system
  else if b = 0x0b then some deniable
  else if b = 0x40 then some pubAnnounce
  else if b = 0x41 then some feedHint
  else if b = 0x42 then some feedSubscribe
  else if b = 0x43 then some feedUnsubscribe
  else if b = 0x44 then some rtcSignal
  else none

private theorem table_agrees : ∀ b : UInt8, (fromU8 b).all (fun k => k.asU8 = b) = true := by
  decide +kernel

theorem asU8_of_fromU8 {b : UInt8} {k : Kind} (h : fromU8 b = some k) : k.asU8 = b := by
  have hb := table_agrees b
  rw [h] at hb
  exact of_decide_eq_true hb

/-- An unknown kind is reported as discriminant 0, whatever the byte. -/
def fromCv : Cv → Except CborError Kind := codeFromCv fromU8 (fun _ => .unknownDiscriminant 0)

def toCv (k : Kind) : Cv := .u64 k.asU8.toUInt64

theorem lossless : Lossless fromCv toCv := lossless_code asU8_of_fromU8 _

end Kind

structure ArcToken where
  issuer : Bytes
  token : Bytes
  origin : Bytes
  nonce : Option Bytes

structure PowSolution where
  algo : String
  params : UInt32 × UInt32 × UInt32
  epochNonce : Bytes
  solution : Bytes
  difficulty : UInt8

structure PostageStamp where
  issuer : Bytes
  serial : Bytes
  amount : UInt64
  currency : String
  expiry : UInt64
  audience : Option Bytes
  sig : Bytes

structure Vouch where
  voucher : Bytes
  subject : Bytes
  recipient : Bytes
  exp : UInt64
  sig : Bytes

/-- The anti-abuse proof of a cold sender; key 0 of its map names the variant. -/
inductive ChallengeResponse
  | arc (a : ArcToken)
  | pow (p : PowSolution)
  | postage (s : PostageStamp)
  | vouch (v : Vouch)

namespace ChallengeResponse

def paramsToCv (p : UInt32 × UInt32 × UInt32) : Cv :=
  .array [.u64 p.1.toUInt64, .u64 p.2.1.toUInt64, .u64 p.2.2.toUInt64]

def paramsFromCv (cv : Cv) : Except CborError (UInt32 × UInt32 × UInt32) := do
  match ← asArray cv with
  | [m, t, p] =>
    let m ← asU32 m
    let t ← asU32 t
    let p ← asU32 p
    return (m, t, p)
  | _ => throw .typeMismatch

def fields : ChallengeResponse → Fields
  | arc a =>
    [(0, .u64 1), (1, .bytes a.issuer), (2, .bytes a.token), (3, .bytes a.origin)] ++
      Fields.opt 4 .bytes a.nonce
  | pow p =>
    [(0, .u64 2), (1, .text p.algo), (2, paramsToCv p.params), (3, .bytes p.epochNonce),
      (4, .bytes p.solution), (5, .u64 p.difficulty.toUInt64)]
  | postage s =>
    [(0, .u64 3), (1, .bytes s.issuer), (2, .bytes s.serial), (3, .u64 s.amount),
      (4, .text s.currency), (5, .u64 s.expiry)] ++
      Fields.opt 6 .bytes s.audience ++ [(7, .bytes s.sig)]
  | vouch v =>
    [(0, .u64 4), (1, .bytes v.voucher), (2, .bytes v.subject), (3, .bytes v.recipient),
      (4, .u64 v.exp), (5, .bytes v.sig)]

def toCv (c : ChallengeResponse) : Cv := .map c.fields

def detCbor (c : ChallengeResponse) : Bytes := encode c.toCv

def reader : FieldReader CborError ChallengeResponse := do
  let disc ← Fields.req 0 asU64
  if disc = 1 then do
    let issuer ← Fields.req 1 asBytes
    let token ← Fields.req 2 asBytes
    let origin ← Fields.req 3 asBytes
    let nonce ← Fields.take 4 asBytes
    Fields.denyUnknown
    return arc { issuer, token, origin, nonce }
  else if disc = 2 then do
    let algo ← Fields.req 1 asText
    let params ← Fields.req 2 paramsFromCv
    let epochNonce ← Fields.req 3 asBytes
    let solution ← Fields.req 4 asBytes
    let difficulty ← Fields.req 5 asU8
    Fields.denyUnknown
    return pow { algo, params, epochNonce, solution, difficulty }
  else if disc = 3 then do
    let issuer ← Fields.req 1 asBytes
    let serial ← Fields.req 2 asBytes
    let amount ← Fields.req 3 asU64
    let currency ← Fields.req 4 asText
    let expiry ← Fields.req 5 asU64
    let audience ← Fields.take 6 asBytes
    let sig ← Fields.req 7 asBytes
    Fields.denyUnknown
    return postage { issuer, serial, amount, currency, expiry, audience, sig }
  else if disc = 4 then do
    let voucher ← Fields.req 1 asBytes
    let subject ← Fields.req 2 asBytes
    let recipient ← Fields.req 3 asBytes
    let exp ← Fields.req 4 asU64
    let sig ← Fields.req 5 asBytes
    Fields.denyUnknown
    return vouch { voucher, subject, recipient, exp, sig }
  else throw (.unknownDiscriminant disc)

def fromCv : Cv → Except CborError ChallengeResponse := Fields.read reader

theorem lossless_params : Lossless paramsFromCv paramsToCv := by
  intro cv q hcv h
  obtain ⟨a, ha, h⟩ := except_bind_eq_ok.mp h
  cases cv with
  | array b =>
    obtain rfl : b = a := Except.ok.inj ha
    have hb := Cv.keysDistinct_array.mp hcv
    match b, h with
    | [x, y, z], h =>
      obtain ⟨m, hm, h⟩ := except_bind_eq_ok.mp h
      obtain ⟨t, ht, h⟩ := except_bind_eq_ok.mp h
      obtain ⟨p, hp, h⟩ := except_bind_eq_ok.mp h
      obtain rfl : (m, t, p) = q := Except.ok.inj h
      have hx := lossless_u32 (hb x (by simp)) hm
      have hy := lossless_u32 (hb y (by simp)) ht
      have hz := lossless_u32 (hb z (by simp)) hp
      dsimp only at hx hy hz
      simp only [paramsToCv, enc, encArray] at hx hy hz ⊢
      rw [hx, hy, hz]
      rfl
    | [], h => cases h
    | [_], h => cases h
    | [_, _], h => cases h
    | _ :: _ :: _ :: _ :: _, h => cases h
  | _ => cases ha

theorem readsFields : ReadsFields reader fields := by
  apply yields_req lossless_u64
  intro disc
  by_cases h1 : disc = 1
  · subst h1
    rw [if_pos rfl]
    apply yields_req lossless_bytes
    intro issuer
    apply yields_req lossless_bytes
    intro token
    apply yields_req lossless_bytes
    intro origin
    apply yields_take lossless_bytes
    intro nonce
    exact Record.yields_deny_pure (by simp [fields])
  rw [if_neg h1]
  by_cases h2 : disc = 2
  · subst h2
    rw [if_pos rfl]
    apply yields_req lossless_text
    intro algo
    apply yields_req lossless_params
    intro params
    apply yields_req lossless_bytes
    intro epochNonce
    apply yields_req lossless_bytes
    intro solution
    apply yields_req lossless_u8
    intro difficulty
    exact Record.yields_deny_pure (by simp [fields])
  rw [if_neg h2]
  by_cases h3 : disc = 3
  · subst h3
    rw [if_pos rfl]
    apply yields_req lossless_bytes
    intro issuer
    apply yields_req lossless_bytes
    intro serial
    apply yields_req lossless_u64
    intro amount
    apply yields_req lossless_text
    intro currency
    apply yields_req lossless_u64
    intro expiry
    apply yields_take lossless_bytes
    intro audience
    apply yields_req lossless_bytes
    intro sig
    exact Record.yields_deny_pure (by simp [fields])
  rw [if_neg h3]
  by_cases h4 : disc = 4
  · subst h4
    rw [if_pos rfl]
    apply yields_req lossless_bytes
    intro voucher
    apply yields_req lossless_bytes
    intro subject
    apply yields_req lossless_bytes
    intro recipient
    apply yields_req lossless_u64
    intro exp
    apply yields_req lossless_bytes
    intro sig
    exact Record.yields_deny_pure (by simp [fields])
  rw [if_neg h4]
  exact Record.yields_throw _

theorem lossless : Lossless fromCv toCv := readsFields.lossless

end ChallengeResponse

/-- A routing target. -/
inductive DeliveryTag
  | key (b : Bytes)
  | group (b : Bytes)
  | blinded (b : Bytes)

namespace DeliveryTag

def fields : DeliveryTag → Fields
  | key b => [(0, .u64 1), (1, .bytes b)]
  | group b => [(0, .u64 2), (1, .bytes b)]
  | blinded b => [(0, .u64 3), (1, .bytes b)]

def toCv (t : DeliveryTag) : Cv := .map t.fields

def detCbor (t : DeliveryTag) : Bytes := encode t.toCv

def reader : FieldReader CborError DeliveryTag := do
  let disc ← Fields.req 0 asU64
  let val ← Fields.req 1 asBytes
  Fields.denyUnknown
  if disc = 1 then return key val
  else if disc = 2 then return group val
  else if disc = 3 then return blinded val
  else throw (.unknownDiscriminant disc)

def fromCv : Cv → Except CborError DeliveryTag := Fields.read reader

theorem readsFields : ReadsFields reader fields := by
  apply yields_req lossless_u64
  intro disc
  apply yields_req lossless_bytes
  intro val
  apply Record.yields_deny
  intro tag t h
  split_ifs at h with h1 h2 h3
  · obtain ⟨rfl, rfl⟩ := Prod.mk.inj (Except.ok.inj h)
    simp [fields, h1]
  · obtain ⟨rfl, rfl⟩ := Prod.mk.inj (Except.ok.inj h)
    simp [fields, h2]
  · obtain ⟨rfl, rfl⟩ := Prod.mk.inj (Except.ok.inj h)
    simp [fields, h3]
  · cases h

theorem lossless : Lossless fromCv toCv := readsFields.lossless

end DeliveryTag

/-- The recipient key package consumed to initiate a session. -/
structure KeyPackageRef where
  reference : ContentId
  suite : Suite
  loc : Option String

namespace KeyPackageRef

def fields (k : KeyPackageRef) : Fields :=
  [(1, k.reference.toCv), (2, k.suite.toCv)] ++ Fields.opt 3 .text k.loc

def toCv (k : KeyPackageRef) : Cv := .map k.fields

def reader : FieldReader CborError KeyPackageRef := do
  let reference ← Fields.req 1 ContentId.fromCv
  let suite ← Fields.req 2 suiteFromCv
  let loc ← Fields.take 3 asText
  Fields.denyUnknown
  return { reference, suite, loc }

def fromCv : Cv → Except CborError KeyPackageRef := Fields.read reader

theorem readsFields : ReadsFields reader fields := by
  apply yields_req ContentId.lossless
  intro reference
  apply yields_req lossless_suite
  intro suite
  apply yields_take lossless_text
  intro loc
  exact Record.yields_deny_pure (by simp [fields])

theorem lossless : Lossless fromCv toCv := readsFields.lossless

end KeyPackageRef

structure Envelope where
  v : UInt8
  suite : Suite
  id : ContentId
  toTag : DeliveryTag
  epoch : Option Bytes
  ts : UInt64
  kind : Kind
  keypkg : Option KeyPackageRef
  challenge : Option ChallengeResponse
  ciphertext : Bytes
  senderSig : Option Bytes
  senderEph : Option Bytes

namespace Envelope

def fields (e : Envelope) : Fields :=
  [(1, .u64 e.v.toUInt64), (2, e.suite.toCv), (3, e.id.toCv), (4, e.toTag.toCv)] ++
    Fields.opt 5 .bytes e.epoch ++ [(6, .u64 e.ts), (7, e.kind.toCv)] ++
    Fields.opt 8 KeyPackageRef.toCv e.keypkg ++
    Fields.opt 9 ChallengeResponse.toCv e.challenge ++ [(10, .bytes e.ciphertext)] ++
    Fields.opt 11 .bytes e.senderSig ++ Fields.opt 12 .bytes e.senderEph

def toCv (e : Envelope) : Cv := .map e.fields

def detCbor (e : Envelope) : Bytes := encode e.toCv

/-- The preimage body of the sender signature. An absent challenge is spelt as the null byte. -/
def senderSigBody (e : Envelope) : Bytes :=
  e.id.bytes ++ e.toTag.detCbor ++ toBe 8 e.ts.toNat ++ [e.kind.asU8] ++
    match e.challenge with
    | some c => c.detCbor
    | none => [0xf6]

def reader : FieldReader CborError Envelope := do
  let v ← Fields.req 1 asU8
  let suite ← Fields.req 2 suiteFromCv
  let id ← Fields.req 3 ContentId.fromCv
  let toTag ← Fields.req 4 DeliveryTag.fromCv
  let epoch ← Fields.take 5 asBytes
  let ts ← Fields.req 6 asU64
  let kind ← Fields.req 7 Kind.fromCv
  let keypkg ← Fields.take 8 KeyPackageRef.fromCv
  let challenge ← Fields.take 9 ChallengeResponse.fromCv
  let ciphertext ← Fields.req 10 asBytes
  let senderSig ← Fields.take 11 asBytes
  let senderEph ← Fields.take 12 asBytes
  Fields.denyUnknown
  return ⟨v, suite, id, toTag, epoch, ts, kind, keypkg, challenge, ciphertext, senderSig,
    senderEph⟩

def fromDetCbor : Bytes → Except CborError Envelope := Cbor.fromDetCbor (Fields.read reader)

theorem readsFields : ReadsFields reader fields := by
  apply yields_req lossless_u8
  intro v
  apply yields_req lossless_suite
  intro suite
  apply yields_req ContentId.lossless
  intro id
  apply yields_req DeliveryTag.lossless
  intro toTag
  apply yields_take lossless_bytes
  intro epoch
  apply yields_req lossless_u64
  intro ts
  apply yields_req Kind.lossless
  intro kind
  apply yields_take KeyPackageRef.lossless
  intro keypkg
  apply yields_take ChallengeResponse.lossless
  intro challenge
  apply yields_req lossless_bytes
  intro ciphertext
  apply yields_take lossless_bytes
  intro senderSig
  apply yields_take lossless_bytes
  intro senderEph
  exact Record.yields_deny_pure (by simp [fields])

theorem canonical : Canonical fromDetCbor detCbor := readsFields.lossless.canonical

example : (fromDetCbor [0xa9, 0x01, 0x00, 0x02, 0x01, 0x03, 0x41, 0x1e, 0x04, 0xa2, 0x00, 0x03,
    0x01, 0x40, 0x06, 0x07, 0x07, 0x00, 0x08, 0xa2, 0x01, 0x40, 0x02, 0x01, 0x09, 0xa6, 0x00, 0x02,
    0x01, 0x60, 0x02, 0x83, 0x01, 0x02, 0x03, 0x03, 0x40, 0x04, 0x40, 0x05, 0x18, 0x20, 0x0a, 0x41,
    0xff]).isOk = true := by
  decide

/-- The objects nested in the sender signature's preimage are encoded there as received. -/
theorem senderSigReceived ⦃b : Bytes⦄ ⦃e : Envelope⦄ (h : fromDetCbor b = .ok e) :
    ∃ m toTag tail, decode b = .ok (.map m) ∧ (4, toTag) ∈ m ∧
      ((∃ c, (9, c) ∈ m ∧ tail = encode c) ∨ ((∀ c, (9, c) ∉ m) ∧ tail = [0xf6])) ∧
      e.senderSigBody =
        e.id.bytes ++ encode toTag ++ toBe 8 e.ts.toNat ++ [e.kind.asU8] ++ tail := by
  obtain ⟨m, hm, hread⟩ := fromDetCbor_read_eq_ok h
  have hdist := keysDistinct_of_decode hm
  obtain ⟨toTag, hmem, htag⟩ := readsFields.received (k := 4) (w := e.toTag.toCv) hdist hread
    (by simp [fields])
  refine ⟨m, toTag, ?_⟩
  cases hc : e.challenge with
  | none =>
    refine ⟨[0xf6], hm, hmem, Or.inr ⟨fun c hmem' => ?_, rfl⟩, ?_⟩
    · obtain ⟨w, hw⟩ := readsFields.known hdist hread hmem'
      simp [fields, hc, Fields.mem_opt] at hw
    · simp [senderSigBody, hc, DeliveryTag.detCbor, encode, htag]
  | some c =>
    obtain ⟨v, hv, hcv⟩ := readsFields.received (k := 9) (w := c.toCv) hdist hread
      (by simp [fields, hc, Fields.mem_opt])
    refine ⟨encode v, hm, hmem, Or.inl ⟨v, hv, rfl⟩, ?_⟩
    simp [senderSigBody, hc, DeliveryTag.detCbor, ChallengeResponse.detCbor, encode, htag, hcv]

end Envelope

/-- The list of chunk hashes of a file. Key 5, the content key, must not appear. -/
structure Manifest where
  id : ContentId
  size : UInt64
  chunkSz : UInt32
  chunks : List ContentId
  suite : Suite

namespace Manifest

def fields (m : Manifest) : Fields :=
  [(1, m.id.toCv), (2, .u64 m.size), (3, .u64 m.chunkSz.toUInt64),
    (4, .array (m.chunks.map ContentId.toCv)), (6, m.suite.toCv)]

def toCv (m : Manifest) : Cv := .map m.fields

def detCbor (m : Manifest) : Bytes := encode m.toCv

def reader : FieldReader CborError Manifest := do
  if Fields.has 5 (← get) then throw .manifestKeyPresent
  else
    let id ← Fields.req 1 ContentId.fromCv
    let size ← Fields.req 2 asU64
    let chunkSz ← Fields.req 3 asU32
    let chunks ← Fields.req 4 (asArrayOf ContentId.fromCv)
    if chunks = [] then throw .manifestEmptyChunks
    else
      let suite ← Fields.req 6 suiteFromCv
      Fields.denyUnknown
      return { id, size, chunkSz, chunks, suite }

def fromDetCbor : Bytes → Except CborError Manifest := Cbor.fromDetCbor (Fields.read reader)

theorem readsFields : ReadsFields reader fields := by
  apply Record.yields_get
  intro s
  apply Record.yields_guard
  intro _
  apply yields_req ContentId.lossless
  intro id
  apply yields_req lossless_u64
  intro size
  apply yields_req lossless_u32
  intro chunkSz
  apply yields_req (lossless_array ContentId.lossless)
  intro chunks
  apply Record.yields_guard
  intro _
  apply yields_req lossless_suite
  intro suite
  exact Record.yields_deny_pure (by simp [fields])

theorem canonical : Canonical fromDetCbor detCbor := readsFields.lossless.canonical

end Manifest
end Dmtap.Mote
