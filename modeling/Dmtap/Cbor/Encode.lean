import Dmtap.Lib.Sorting
import Dmtap.Cbor.Head

/-! The deterministic encoder and the normal form of a value. -/
namespace Dmtap.Cbor
open Dmtap.Lib

/-- The encoded bytes of an integer map key. -/
def intKey (k : UInt64) : Bytes := writeHead 0 k

/-- The encoded bytes of a text map key, which are those of a text item. -/
def textKey (s : String) : Bytes := writeHead 3 (UInt64.ofNat (utf8 s).length) ++ utf8 s

/-- The entries of a map under its head: sorted by encoded key bytes, key before value. -/
def encEntries (items : List (Bytes × Bytes)) : Bytes :=
  writeHead 5 (UInt64.ofNat items.length) ++
    (sortByKey Prod.fst items).flatMap (fun p => p.1 ++ p.2)

mutual
/-- The bytes `enc` appends for a value. A map entry is carried as its encoded key and
encoded value, so that the entries can be sorted without looking at the value again. -/
def enc : Cv → Bytes
  | .u64 n => writeHead 0 n
  | .bytes b => writeHead 2 (UInt64.ofNat b.length) ++ b
  | .text s => writeHead 3 (UInt64.ofNat (utf8 s).length) ++ utf8 s
  | .bool b => [if b then 0xf5 else 0xf4]
  | .array a => writeHead 4 (UInt64.ofNat a.length) ++ encArray a
  | .map m => encEntries (encMap m)
  | .textMap m => encEntries (encTextMap m)
def encArray : List Cv → Bytes
  | [] => []
  | e :: a => enc e ++ encArray a
def encMap : List (UInt64 × Cv) → List (Bytes × Bytes)
  | [] => []
  | (k, val) :: m => (intKey k, enc val) :: encMap m
def encTextMap : List (String × Cv) → List (Bytes × Bytes)
  | [] => []
  | (k, val) :: m => (textKey k, enc val) :: encTextMap m
end

def encode (v : Cv) : Bytes := enc v

mutual
/-- The normal form: every map sorted by encoded key bytes, the empty text map replaced
by the empty integer map, from which its encoding cannot be told apart. -/
def norm : Cv → Cv
  | .array a => .array (normArray a)
  | .map m => .map (sortByKey (fun p => intKey p.1) (normMap m))
  | .textMap [] => .map []
  | .textMap (p :: m) => .textMap (sortByKey (fun p => textKey p.1) (normTextMap (p :: m)))
  | v => v
def normArray : List Cv → List Cv
  | [] => []
  | v :: a => norm v :: normArray a
def normMap : List (UInt64 × Cv) → List (UInt64 × Cv)
  | [] => []
  | (k, v) :: m => (k, norm v) :: normMap m
def normTextMap : List (String × Cv) → List (String × Cv)
  | [] => []
  | (k, v) :: m => (k, norm v) :: normTextMap m
end

theorem encArray_eq (a : List Cv) : encArray a = a.flatMap enc := by
  induction a with
  | nil => rfl
  | cons v a ih => simp [encArray, ih]

theorem encMap_eq (m : List (UInt64 × Cv)) :
    encMap m = m.map (fun p => (intKey p.1, enc p.2)) := by
  induction m with
  | nil => rfl
  | cons p m ih => simp [encMap, ih]

theorem encTextMap_eq (m : List (String × Cv)) :
    encTextMap m = m.map (fun p => (textKey p.1, enc p.2)) := by
  induction m with
  | nil => rfl
  | cons p m ih => simp [encTextMap, ih]

theorem normMap_eq (m : List (UInt64 × Cv)) : normMap m = m.map (fun p => (p.1, norm p.2)) := by
  induction m with
  | nil => rfl
  | cons p m ih => simp [normMap, ih]

theorem normTextMap_eq (m : List (String × Cv)) :
    normTextMap m = m.map (fun p => (p.1, norm p.2)) := by
  induction m with
  | nil => rfl
  | cons p m ih => simp [normTextMap, ih]

end Dmtap.Cbor
