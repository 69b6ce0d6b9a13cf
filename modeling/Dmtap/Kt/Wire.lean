import Dmtap.Wire
import Dmtap.Kt.Log

/-! The wire form of the key-transparency objects. -/
namespace Dmtap.Kt
open Dmtap.Lib Dmtap.Cbor

namespace SignedTreeHead

/-- The map of a tree head; without `sig` it is the signing body. -/
def fields (includeSig : Bool) (s : SignedTreeHead ContentId) : Fields :=
  [(1, s.suite.toCv), (2, .bytes s.logId), (3, .u64 s.treeSize), (4, .u64 s.timestamp),
    (5, s.rootHash.toCv)] ++ if includeSig then [(6, .bytes s.sig)] else []

def detCbor (s : SignedTreeHead ContentId) : Bytes := encode (.map (fields true s))

def signingBody (s : SignedTreeHead ContentId) : Bytes := encode (.map (fields false s))

def reader : FieldReader CborError (SignedTreeHead ContentId) := do
  let suite ← Fields.req 1 suiteFromCv
  let logId ← Fields.req 2 asBytes
  let treeSize ← Fields.req 3 asU64
  let timestamp ← Fields.req 4 asU64
  let rootHash ← Fields.req 5 ContentId.fromCv
  let sig ← Fields.req 6 asBytes
  Fields.denyUnknown
  return { suite, logId, treeSize, timestamp, rootHash, sig }

def fromDetCbor : Bytes → Except CborError (SignedTreeHead ContentId) :=
  Cbor.fromDetCbor (Fields.read reader)

theorem readsFields : ReadsFields reader (fields true) := by
  apply yields_req lossless_suite
  intro suite
  apply yields_req lossless_bytes
  intro logId
  apply yields_req lossless_u64
  intro treeSize
  apply yields_req lossless_u64
  intro timestamp
  apply yields_req ContentId.lossless
  intro rootHash
  apply yields_req lossless_bytes
  intro sig
  exact Record.yields_deny_pure (by simp [fields])

theorem canonical : Canonical fromDetCbor detCbor := readsFields.lossless.canonical

theorem signsReceived : SignsReceived fromDetCbor signingBody (· ≠ 6) :=
  readsFields.signsReceived (fun _ => rfl)

end SignedTreeHead

namespace InclusionProof

def fields (p : InclusionProof ContentId) : Fields :=
  [(1, .u64 p.treeSize), (2, .u64 p.leafIndex), (3, p.leafHash.toCv),
    (4, .array (p.auditPath.map ContentId.toCv))]

def detCbor (p : InclusionProof ContentId) : Bytes := encode (.map p.fields)

def reader : FieldReader CborError (InclusionProof ContentId) := do
  let treeSize ← Fields.req 1 asU64
  let leafIndex ← Fields.req 2 asU64
  let leafHash ← Fields.req 3 ContentId.fromCv
  let auditPath ← Fields.req 4 (asArrayOf ContentId.fromCv)
  Fields.denyUnknown
  return { treeSize, leafIndex, leafHash, auditPath }

def fromDetCbor : Bytes → Except CborError (InclusionProof ContentId) :=
  Cbor.fromDetCbor (Fields.read reader)

theorem readsFields : ReadsFields reader fields := by
  apply yields_req lossless_u64
  intro treeSize
  apply yields_req lossless_u64
  intro leafIndex
  apply yields_req ContentId.lossless
  intro leafHash
  apply yields_req (lossless_array ContentId.lossless)
  intro auditPath
  exact Record.yields_deny_pure (by simp [fields])

theorem canonical : Canonical fromDetCbor detCbor := readsFields.lossless.canonical

end InclusionProof

namespace ConsistencyProof

def fields (p : ConsistencyProof ContentId) : Fields :=
  [(1, .u64 p.firstSize), (2, .u64 p.secondSize), (3, .array (p.proofPath.map ContentId.toCv))]

def detCbor (p : ConsistencyProof ContentId) : Bytes := encode (.map p.fields)

def reader : FieldReader CborError (ConsistencyProof ContentId) := do
  let firstSize ← Fields.req 1 asU64
  let secondSize ← Fields.req 2 asU64
  let proofPath ← Fields.req 3 (asArrayOf ContentId.fromCv)
  Fields.denyUnknown
  return { firstSize, secondSize, proofPath }

def fromDetCbor : Bytes → Except CborError (ConsistencyProof ContentId) :=
  Cbor.fromDetCbor (Fields.read reader)

theorem readsFields : ReadsFields reader fields := by
  apply yields_req lossless_u64
  intro firstSize
  apply yields_req lossless_u64
  intro secondSize
  apply yields_req (lossless_array ContentId.lossless)
  intro proofPath
  exact Record.yields_deny_pure (by simp [fields])

theorem canonical : Canonical fromDetCbor detCbor := readsFields.lossless.canonical

end ConsistencyProof
end Dmtap.Kt
