import Dmtap.Identity.RecoveryGuard

/-! Location records: where an identity key can be reached, and for how long. -/
namespace Dmtap
open Dmtap.Lib Dmtap.Cbor

def locationRecordDs : Bytes := utf8 "DMTAP-v0/location-record" ++ [0]

/-- The transport substrate of a record that names none. -/
def substrateLibp2p : UInt8 := 0x01

inductive LocationError
  | sigInvalid
  | stale
  | expired
  | unreachable
  deriving DecidableEq, Repr

/-- A signed record of how to reach the holder of a key. -/
structure LocationRecord where
  ik : Bytes
  peerId : Bytes
  addrs : List String
  seq : UInt64
  ttl : UInt64
  ts : UInt64
  sig : Bytes
  substrate : Option UInt8

def saturatingMul (a b : UInt64) : UInt64 := .ofNat (min (a.toNat * b.toNat) (2 ^ 64 - 1))

namespace LocationRecord

/-- The substrate, by default libp2p. -/
def effectiveSubstrate (r : LocationRecord) : UInt8 := r.substrate.getD substrateLibp2p

def fields (includeSig : Bool) (r : LocationRecord) : Fields :=
  [(1, .bytes r.ik), (2, .bytes r.peerId), (3, .array (r.addrs.map .text)), (4, .u64 r.seq),
    (5, .u64 r.ttl), (6, .u64 r.ts)] ++ (if includeSig then [(7, .bytes r.sig)] else []) ++
    Fields.opt 8 (fun s => .u64 s.toUInt64) r.substrate

def signingBody (r : LocationRecord) : Bytes := encode (.map (fields false r))

def verify (E : Ed25519) (r : LocationRecord) : Except IdentityError Unit :=
  E.verifyDomain r.ik locationRecordDs r.signingBody r.sig

/-- Live from `ts`, up to the tolerated skew, and before `ts + ttl`; `ttl` counts seconds. -/
def checkFresh (r : LocationRecord) (now skewMs : UInt64) : Except LocationError Unit :=
  if saturatingAdd now skewMs < r.ts then .error .expired
  else if saturatingAdd r.ts (saturatingMul r.ttl 1000) ≤ now then .error .expired
  else .ok ()

/-- Signature, then freshness, then a substrate that can be dialled. -/
def validate (E : Ed25519) (r : LocationRecord) (now skewMs : UInt64) (supported : List UInt8) :
    Except LocationError Unit := do
  (r.verify E).mapError fun _ => .sigInvalid
  r.checkFresh now skewMs
  if r.effectiveSubstrate ∉ supported then .error .unreachable else .ok ()

end LocationRecord
end Dmtap
