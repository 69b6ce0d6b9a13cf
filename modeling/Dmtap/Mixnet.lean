import Dmtap.Identity.Keys

/-! The mix fleet: signed descriptors of mix nodes, and the directory that lists them. -/
namespace Dmtap
open Dmtap.Lib Dmtap.Cbor

def mixDirectoryDs : Bytes := utf8 "DMTAP-v0/mix-directory" ++ [0]

/-- A mix key of one epoch. -/
structure MixKeyEntry where
  epoch : UInt64
  mixKey : Bytes
  validUntil : UInt64

namespace MixKeyEntry

def fields (e : MixKeyEntry) : Fields :=
  [(1, .u64 e.epoch), (2, .bytes e.mixKey), (3, .u64 e.validUntil)]

def toCv (e : MixKeyEntry) : Cv := .map e.fields

end MixKeyEntry

/-- A mix node's description of itself. -/
structure MixNodeDescriptor where
  suite : Suite
  nodeIk : Bytes
  addrs : List String
  mixKeys : List MixKeyEntry
  layer : UInt8
  ts : UInt64
  sig : Bytes
  substrate : Option UInt8
  operator : Option Bytes

namespace MixNodeDescriptor

def fields (includeSig : Bool) (d : MixNodeDescriptor) : Fields :=
  [(1, d.suite.toCv), (2, .bytes d.nodeIk), (3, .array (d.addrs.map .text)),
    (4, .array (d.mixKeys.map MixKeyEntry.toCv)), (5, .u64 d.layer.toUInt64), (6, .u64 d.ts)] ++
    Fields.opt 8 (fun s => .u64 s.toUInt64) d.substrate ++ Fields.opt 9 .bytes d.operator ++
    if includeSig then [(7, .bytes d.sig)] else []

def toCv (includeSig : Bool) (d : MixNodeDescriptor) : Cv := .map (fields includeSig d)

end MixNodeDescriptor

/-- A snapshot of the fleet that a directory authority signs. -/
structure MixDirectory where
  suite : Suite
  authority : Bytes
  epoch : UInt64
  version : UInt64
  mixes : List MixNodeDescriptor
  prev : ContentId
  ts : UInt64
  sig : Bytes

namespace MixDirectory

def fields (includeSig : Bool) (d : MixDirectory) : Fields :=
  [(1, d.suite.toCv), (2, .bytes d.authority), (3, .u64 d.epoch), (4, .u64 d.version),
    (5, .array (d.mixes.map (MixNodeDescriptor.toCv true))), (6, .bytes d.prev.bytes),
    (7, .u64 d.ts)] ++ if includeSig then [(8, .bytes d.sig)] else []

def signingBody (d : MixDirectory) : Bytes := encode (.map (fields false d))

/-- The authority's signature; the descriptors are not verified again. -/
def verify (E : Ed25519) (d : MixDirectory) : Except IdentityError Unit :=
  if d.suite.isSupported = false then .error (.unsupportedSuite d.suite.asU8)
  else E.verifyDomain d.authority mixDirectoryDs d.signingBody d.sig

end MixDirectory
end Dmtap
