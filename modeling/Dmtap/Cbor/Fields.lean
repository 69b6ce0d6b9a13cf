import Dmtap.Lib.Record
import Dmtap.Cbor.Canonical

/-! Field extraction: consuming readers over integer-keyed maps and the coercions from
values to field types. A decoder is lossless when what it returns encodes to what it read. -/
namespace Dmtap.Cbor
open Dmtap.Lib

abbrev Fields := List (UInt64 × Cv)

/-- Error conversion along `?`. -/
class ErrorFrom (ε ε' : Type) where
  conv : ε → ε'

instance : ErrorFrom CborError CborError := ⟨id⟩

abbrev FieldReader (ε : Type) := Reader Fields ε

namespace Fields

def fromCv : Cv → Except CborError Fields
  | .map m => .ok m
  | _ => .error .typeMismatch

def has (k : UInt64) (f : Fields) : Bool := f.any (fun p => p.1 = k)

section
variable {ε ε' α : Type} [ErrorFrom CborError ε] [ErrorFrom ε' ε]

/-- The value at required key `k`, coerced by `dec`. -/
def req (k : UInt64) (dec : Cv → Except ε' α) : FieldReader ε α :=
  Record.field (fun k => ErrorFrom.conv (CborError.missingKey k)) ErrorFrom.conv k dec

/-- The value at optional key `k`, coerced by `dec` where present. -/
def take (k : UInt64) (dec : Cv → Except ε' α) : FieldReader ε (Option α) :=
  Record.optField ErrorFrom.conv k dec

def denyUnknown : FieldReader ε Unit :=
  Record.deny (fun k => ErrorFrom.conv (CborError.unknownKey k))

/-- Run a reader over the fields of a map. -/
def read (r : FieldReader ε α) (cv : Cv) : Except ε α :=
  match fromCv cv with
  | .error e => .error (ErrorFrom.conv e)
  | .ok m => (r.run m).map Prod.fst

omit [ErrorFrom ε' ε] in
theorem read_eq_ok {r : FieldReader ε α} {cv : Cv} {a : α} :
    read r cv = .ok a ↔ ∃ m t, cv = .map m ∧ r.run m = .ok (a, t) := by
  cases cv with
  | map m =>
    change (r.run m).map Prod.fst = .ok a ↔ _
    cases hrun : r.run m with
    | error e => simp [Except.map, hrun]
    | ok res => simp [Except.map, hrun, Prod.ext_iff]
  | _ => simp [read, fromCv]

end

/-- The entry an optional field contributes to a map. -/
def opt {α : Type} (k : UInt64) (put : α → Cv) : Option α → Fields
  | none => []
  | some a => [(k, put a)]

theorem mem_opt {α : Type} {k k' : UInt64} {put : α → Cv} {o : Option α} {v : Cv} :
    (k', v) ∈ opt k put o ↔ k' = k ∧ ∃ a, o = some a ∧ v = put a := by
  cases o <;> simp [opt]

end Fields

/-- Decode bytes to a value and the value to an object. -/
def fromDetCbor {ε ε' α : Type} [ErrorFrom CborError ε] [ErrorFrom ε' ε] (dec : Cv → Except ε' α)
    (bytes : Bytes) : Except ε α :=
  match decode bytes with
  | .error e => .error (ErrorFrom.conv e)
  | .ok cv => (dec cv).mapError ErrorFrom.conv

def asU64 : Cv → Except CborError UInt64
  | .u64 n => .ok n
  | _ => .error .typeMismatch

def asU8 (cv : Cv) : Except CborError UInt8 := do
  let n ← asU64 cv
  if n.toNat < 2 ^ 8 then .ok n.toUInt8 else .error .intRange

def asU32 (cv : Cv) : Except CborError UInt32 := do
  let n ← asU64 cv
  if n.toNat < 2 ^ 32 then .ok n.toUInt32 else .error .intRange

def asBytes : Cv → Except CborError Bytes
  | .bytes b => .ok b
  | _ => .error .typeMismatch

def asText : Cv → Except CborError String
  | .text s => .ok s
  | _ => .error .typeMismatch

def asBool : Cv → Except CborError Bool
  | .bool b => .ok b
  | _ => .error .typeMismatch

def asArray : Cv → Except CborError (List Cv)
  | .array a => .ok a
  | _ => .error .typeMismatch

/-- An array whose items are coerced one by one. -/
def asArrayOf {α : Type} (dec : Cv → Except CborError α) (cv : Cv) : Except CborError (List α) := do
  let a ← asArray cv
  a.mapM dec

end Dmtap.Cbor
