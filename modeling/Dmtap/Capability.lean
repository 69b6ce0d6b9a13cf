import Dmtap.Wire

/-! Capability tokens and their wire form. -/
namespace Dmtap
open Dmtap.Lib Dmtap.Cbor

/-- One granted capability. The caveats are a text-keyed map, kept as received. -/
structure Capability where
  resource : String
  ability : String
  caveats : Option Cv

namespace Capability

/-- A text-keyed map, or the empty map, which carries no key kind. -/
def caveatsFromCv : Cv → Except CborError Cv
  | .textMap m => .ok (.textMap m)
  | .map [] => .ok (.textMap [])
  | _ => .error .typeMismatch

def fields (c : Capability) : Fields :=
  [(1, .text c.resource), (2, .text c.ability)] ++ Fields.opt 3 id c.caveats

def toCv (c : Capability) : Cv := .map c.fields

def reader : FieldReader CborError Capability := do
  let resource ← Fields.req 1 asText
  let ability ← Fields.req 2 asText
  let caveats ← Fields.take 3 caveatsFromCv
  Fields.denyUnknown
  return { resource, ability, caveats }

def fromCv : Cv → Except CborError Capability := Fields.read reader

theorem lossless_caveats : Lossless caveatsFromCv id := by
  intro cv c _ h
  unfold caveatsFromCv at h
  split at h <;> cases h
  · rfl
  · rfl

theorem readsFields : ReadsFields reader fields := by
  apply yields_req lossless_text
  intro resource
  apply yields_req lossless_text
  intro ability
  apply yields_take lossless_caveats
  intro caveats
  exact Record.yields_deny_pure (by simp [fields])

theorem lossless : Lossless fromCv toCv := readsFields.lossless

end Capability

/-- A signed, attenuable delegation. -/
structure CapabilityToken where
  suite : Suite
  iss : Bytes
  aud : Bytes
  caps : List Capability
  nbf : UInt64
  exp : UInt64
  nonce : Bytes
  prnt : Option ContentId
  sig : Bytes

namespace CapabilityToken

def fields (includeSig : Bool) (t : CapabilityToken) : Fields :=
  [(1, t.suite.toCv), (2, .bytes t.iss), (3, .bytes t.aud),
    (4, .array (t.caps.map Capability.toCv)), (5, .u64 t.nbf), (6, .u64 t.exp),
    (7, .bytes t.nonce)] ++ Fields.opt 8 ContentId.toCv t.prnt ++
    if includeSig then [(9, .bytes t.sig)] else []

def detCbor (t : CapabilityToken) : Bytes := encode (.map (fields true t))

def signingBody (t : CapabilityToken) : Bytes := encode (.map (fields false t))

def contentId (blake3 : Bytes → Digest) (t : CapabilityToken) : ContentId := .of blake3 t.detCbor

def reader : FieldReader CborError CapabilityToken := do
  let suite ← Fields.req 1 suiteFromCv
  let iss ← Fields.req 2 asBytes
  let aud ← Fields.req 3 asBytes
  let caps ← Fields.req 4 (asArrayOf Capability.fromCv)
  if caps.isEmpty then throw .typeMismatch
  else
    let nbf ← Fields.req 5 asU64
    let exp ← Fields.req 6 asU64
    let nonce ← Fields.req 7 asBytes
    let prnt ← Fields.take 8 ContentId.fromCv
    let sig ← Fields.req 9 asBytes
    Fields.denyUnknown
    return { suite, iss, aud, caps, nbf, exp, nonce, prnt, sig }

def fromDetCbor : Bytes → Except CborError CapabilityToken := Cbor.fromDetCbor (Fields.read reader)

theorem readsFields : ReadsFields reader (fields true) := by
  apply yields_req lossless_suite
  intro suite
  apply yields_req lossless_bytes
  intro iss
  apply yields_req lossless_bytes
  intro aud
  apply yields_req (lossless_array Capability.lossless)
  intro caps
  apply Record.yields_guard
  intro _
  apply yields_req lossless_u64
  intro nbf
  apply yields_req lossless_u64
  intro exp
  apply yields_req lossless_bytes
  intro nonce
  apply yields_take ContentId.lossless
  intro prnt
  apply yields_req lossless_bytes
  intro sig
  exact Record.yields_deny_pure (by simp [fields])

theorem canonical : Canonical fromDetCbor detCbor := readsFields.lossless.canonical

theorem signsReceived : SignsReceived fromDetCbor signingBody (· ≠ 9) := by
  refine readsFields.signsReceived (fun t => ?_)
  unfold fields
  cases t.prnt <;> rfl

end CapabilityToken
end Dmtap
