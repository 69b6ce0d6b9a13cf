import Dmtap.Lib.Bytes

/-! Content addresses: an algorithm prefix byte followed by a digest. -/
namespace Dmtap
open Dmtap.Lib

/-- A 32-byte digest. -/
abbrev Digest := { b : Bytes // b.length = 32 }

/-- The algorithm code of BLAKE3 with 256 bits of output. -/
def mhBlake3 : UInt8 := 0x1e

structure ContentId where
  bytes : Bytes
  deriving DecidableEq, Repr

namespace ContentId

/-- The content address of `bytes` under the hash function `blake3`. -/
def of (blake3 : Bytes → Digest) (bytes : Bytes) : ContentId := ⟨mhBlake3 :: (blake3 bytes).val⟩

def algorithm (id : ContentId) : Option UInt8 := id.bytes.head?

/-- Everything after the prefix byte. -/
def digest (id : ContentId) : Bytes := id.bytes.tail

/-- Whether this is the content address of `bytes`. -/
def verify (blake3 : Bytes → Digest) (id : ContentId) (bytes : Bytes) : Bool :=
  id.algorithm = some mhBlake3 && id.digest.length = 32 && (blake3 bytes).val = id.digest

theorem verify_of (blake3 : Bytes → Digest) (bytes : Bytes) :
    (of blake3 bytes).verify blake3 bytes = true := by
  simp [verify, of, algorithm, digest, (blake3 bytes).2]

end ContentId
end Dmtap
