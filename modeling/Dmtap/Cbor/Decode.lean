import Dmtap.Cbor.Encode

/-! The strict recursive-descent decoder. -/
namespace Dmtap.Cbor
open Dmtap.Lib

/-- The greatest depth at which an item is accepted, the root being at depth 0. -/
def maxNestingDepth : ℕ := 64

inductive KeyKind
  | int
  | text

/-- What the map reader carries from one entry to the next; `prevKey` is absent exactly
before the first entry. -/
structure MapState where
  prevKey : Option Bytes
  kind : Option KeyKind
  intOut : List (UInt64 × Cv)
  textOut : List (String × Cv)

namespace Decoder

/-- The key order check: encoded keys ascend strictly. -/
def checkKeyOrder (prevKey : Option Bytes) (key : Cv) (keyBytes : Bytes) : Decoder Unit :=
  match prevKey with
  | none => pure ()
  | some prev =>
    if keyBytes < prev then throw .mapKeyOrder
    else if keyBytes = prev then
      match key with
      | .u64 k => throw (.duplicateKey k)
      | _ => throw .duplicateTextKey
    else pure ()

/-- The first key fixes the kind of the map; a later key of the other kind, or a key that
is neither an integer nor text, is refused. -/
def pushEntry (st : MapState) (key val : Cv) : Decoder MapState :=
  match st.kind, key with
  | none, .u64 k => pure { st with kind := some .int, intOut := st.intOut ++ [(k, val)] }
  | none, .text s => pure { st with kind := some .text, textOut := st.textOut ++ [(s, val)] }
  | some .int, .u64 k => pure { st with intOut := st.intOut ++ [(k, val)] }
  | some .text, .text s => pure { st with textOut := st.textOut ++ [(s, val)] }
  | _, _ => throw .mixedMapKeys

/-- One round of the map loop; `item` reads a value one level down. -/
def mapEntry (item : Decoder Cv) (st : MapState) : Decoder MapState := do
  let start ← get
  let key ← item
  let stop ← get
  let keyBytes := start.take (start.length - stop.length)
  checkKeyOrder st.prevKey key keyBytes
  let val ← item
  pushEntry { st with prevKey := some keyBytes } key val

def mapEntries (item : Decoder Cv) : ℕ → MapState → Decoder MapState
  | 0, st => pure st
  | n + 1, st => do mapEntries item n (← mapEntry item st)

def map (item : Decoder Cv) (ai : UInt8) : Decoder Cv := do
  let n ← argument ai
  if n.toNat = 0 then return .map []
  else
    let st ← mapEntries item n.toNat ⟨none, none, [], []⟩
    match st.kind with
    | some .text => return .textMap st.textOut
    | _ => return .map st.intOut

def arrayItems (item : Decoder Cv) : ℕ → Decoder (List Cv)
  | 0 => pure []
  | n + 1 => do
    let v ← item
    let out ← arrayItems item n
    return v :: out

def simple (ai : UInt8) : Decoder Cv := do
  if ai = 20 then return .bool false
  else if ai = 21 then return .bool true
  else if ai = 22 then throw .nullPresent
  else if ai = 23 then throw .tagOrUndefined
  else if ai = 24 then
    let _ ← byte
    throw .tagOrUndefined
  else if ai = 25 ∨ ai = 26 ∨ ai = 27 then
    let _ ← take (if ai = 25 then 2 else if ai = 26 then 4 else 8)
    throw .floatPresent
  else if ai = 28 ∨ ai = 29 ∨ ai = 30 then throw .malformed
  else throw .indefiniteLength

/-- Read one item with `left` nesting levels to spare, this one included: the item is at
depth `maxNestingDepth + 1 - left`, and a depth past the bound leaves none. -/
def value : ℕ → Decoder Cv
  | 0 => throw .malformed
  | left + 1 => do
    let ib ← byte
    let ai := ib &&& 0x1f
    match (ib >>> 5).toNat with
    | 0 =>
      let n ← argument ai
      return .u64 n
    | 1 =>
      let _ ← argument ai
      throw .intRange
    | 2 =>
      let n ← argument ai
      let b ← take n.toNat
      return .bytes b
    | 3 =>
      let n ← argument ai
      let b ← take n.toNat
      match fromUtf8 b with
      | some s => return .text s
      | none => throw .malformed
    | 4 =>
      let n ← argument ai
      let a ← arrayItems (value left) n.toNat
      return .array a
    | 5 => map (value left) ai
    | 6 =>
      let _ ← argument ai
      throw .tagOrUndefined
    | _ => simple ai

end Decoder

/-- One top-level item and nothing after it. -/
def decode (bytes : Bytes) : Except CborError Cv := do
  let (cv, rest) ← (Decoder.value (maxNestingDepth + 1)).run bytes
  if rest = [] then return cv else throw .trailingData

end Dmtap.Cbor
