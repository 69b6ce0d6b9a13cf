import Dmtap.Id
import Dmtap.Suite
import Dmtap.Cbor.Lossless

/-! Coercions that the wire objects share. -/
namespace Dmtap
open Dmtap.Lib Dmtap.Cbor

/-- A value coded as one byte; a byte outside the table is refused with `err`. -/
def codeFromCv {α : Type} (fromU8 : UInt8 → Option α) (err : UInt8 → CborError) (cv : Cv) :
    Except CborError α := do
  let b ← asU8 cv
  match fromU8 b with
  | some a => .ok a
  | none => .error (err b)

theorem lossless_code {α : Type} {fromU8 : UInt8 → Option α} {toU8 : α → UInt8}
    (hcode : ∀ {b a}, fromU8 b = some a → toU8 a = b) (err : UInt8 → CborError) :
    Lossless (codeFromCv fromU8 err) (fun a => .u64 (toU8 a).toUInt64) := by
  intro cv a hcv h
  obtain ⟨b, hb, h⟩ := except_bind_eq_ok.mp h
  cases ha : fromU8 b with
  | none =>
    rw [ha] at h
    cases h
  | some a' =>
    rw [ha] at h
    obtain rfl : a' = a := Except.ok.inj h
    dsimp only
    rw [hcode ha]
    exact lossless_u8 hcv hb

def suiteFromCv : Cv → Except CborError Suite := codeFromCv Suite.fromU8 .unknownSuite

def Suite.toCv (s : Suite) : Cv := .u64 s.asU8.toUInt64

theorem lossless_suite : Lossless suiteFromCv Suite.toCv := lossless_code Suite.asU8_of_fromU8 _

namespace ContentId

def fromCv (cv : Cv) : Except CborError ContentId := (asBytes cv).map ContentId.mk

def toCv (id : ContentId) : Cv := .bytes id.bytes

theorem lossless : Lossless fromCv toCv := by
  intro cv id _ h
  cases cv <;> cases h
  rfl

end ContentId
end Dmtap
