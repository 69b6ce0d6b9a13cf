import Dmtap.Wire

/-! Objects of the artifact profile: metadata of an artifact, and the parts of an assembly. The maps
are not signed, and their readers pass over keys that they do not know. -/
namespace Dmtap.Cad
open Dmtap.Lib Dmtap.Cbor

inductive CadError
  | missingLicense
  | missingLengthUnit
  | badRefKind
  | cycle
  | structural (message : String)
  | cbor (e : CborError)
  deriving DecidableEq, Repr

instance : ErrorFrom CborError CadError := ⟨.cbor⟩

instance : ErrorFrom CadError CadError := ⟨id⟩

/-- An array whose items are read one by one. -/
def arrayOf {α : Type} (dec : Cv → Except CadError α) (cv : Cv) : Except CadError (List α) := do
  let a ← (asArray cv).mapError .cbor
  a.mapM dec

structure Units where
  lengthUnit : String
  angleUnit : Option String
  massUnit : Option String

namespace Units

def toFields (u : Units) : Fields :=
  [(1, .text u.lengthUnit)] ++ Fields.opt 2 .text u.angleUnit ++ Fields.opt 3 .text u.massUnit

def toCv (u : Units) : Cv := .map u.toFields

def reader : FieldReader CadError Units := do
  let lengthUnit ← Fields.take 1 asText
  match lengthUnit with
  | none => throw .missingLengthUnit
  | some lengthUnit =>
    if lengthUnit.isEmpty then throw .missingLengthUnit
    else
      let angleUnit ← Fields.take 2 asText
      let massUnit ← Fields.take 3 asText
      return { lengthUnit, angleUnit, massUnit }

def fromFields : Cv → Except CadError Units := Fields.read reader

end Units

/-- One rendition of an artifact. -/
structure ArtifactFormat where
  formatId : UInt64
  manifestRoot : ContentId
  role : UInt64
  derivedFromFormat : Option ContentId
  formatVersion : Option String

namespace ArtifactFormat

def toFields (f : ArtifactFormat) : Fields :=
  [(1, .u64 f.formatId), (2, f.manifestRoot.toCv), (3, .u64 f.role)] ++
    Fields.opt 4 ContentId.toCv f.derivedFromFormat ++ Fields.opt 5 .text f.formatVersion

def toCv (f : ArtifactFormat) : Cv := .map f.toFields

def reader : FieldReader CadError ArtifactFormat := do
  let formatId ← Fields.req 1 asU64
  let manifestRoot ← Fields.req 2 ContentId.fromCv
  let role ← Fields.req 3 asU64
  let derivedFromFormat ← Fields.take 4 ContentId.fromCv
  let formatVersion ← Fields.take 5 asText
  return { formatId, manifestRoot, role, derivedFromFormat, formatVersion }

def fromCv : Cv → Except CadError ArtifactFormat := Fields.read reader

end ArtifactFormat

/-- What the profile says of one artifact. -/
structure ArtifactMetadata where
  name : String
  description : String
  artifactKind : UInt64
  formats : List ArtifactFormat
  units : Units
  tags : List String
  license : String
  deprecated : Bool
  deprecationReason : Option String
  derivedFrom : Option ContentId

namespace ArtifactMetadata

/-- Empty tags and a false mark are left out. -/
def toFields (a : ArtifactMetadata) : Fields :=
  [(1, .text a.name), (2, .text a.description), (3, .u64 a.artifactKind),
    (4, .array (a.formats.map ArtifactFormat.toCv)), (5, a.units.toCv)] ++
    (if a.tags.isEmpty then [] else [(6, .array (a.tags.map Cv.text))]) ++ [(7, .text a.license)] ++
    (if a.deprecated then [(8, .bool true)] else []) ++ Fields.opt 9 .text a.deprecationReason ++
    Fields.opt 10 ContentId.toCv a.derivedFrom

def toCv (a : ArtifactMetadata) : Cv := .map a.toFields

def detCbor (a : ArtifactMetadata) : Bytes := encode a.toCv

def reader : FieldReader CadError ArtifactMetadata := do
  let name ← Fields.req 1 asText
  let description ← Fields.req 2 asText
  let artifactKind ← Fields.req 3 asU64
  let formats ← Fields.req 4 (arrayOf ArtifactFormat.fromCv)
  let units ← Fields.req 5 Units.fromFields
  let tags ← Fields.take 6 (asArrayOf asText)
  let license ← Fields.take 7 asText
  match license with
  | none => throw .missingLicense
  | some license =>
    if license.isEmpty then throw .missingLicense
    else
      let deprecated ← Fields.take 8 asBool
      let deprecationReason ← Fields.take 9 asText
      let derivedFrom ← Fields.take 10 ContentId.fromCv
      return {
        name, description, artifactKind, formats, units, license, deprecationReason, derivedFrom
        tags := tags.getD []
        deprecated := deprecated.getD false }

def fromDetCbor : Bytes → Except CadError ArtifactMetadata := Cbor.fromDetCbor (Fields.read reader)

end ArtifactMetadata

def pin : UInt64 := 1

def track : UInt64 := 2

/-- One direct part of an assembly. -/
structure AssemblyChild where
  refKind : UInt64
  reference : ContentId
  quantity : UInt64
  transform : Option Bytes
  deriving DecidableEq

namespace AssemblyChild

def toFields (c : AssemblyChild) : Fields :=
  [(1, .u64 c.refKind), (2, c.reference.toCv), (3, .u64 c.quantity)] ++
    Fields.opt 4 .bytes c.transform

def toCv (c : AssemblyChild) : Cv := .map c.toFields

def reader : FieldReader CadError AssemblyChild := do
  let refKind ← Fields.req 1 asU64
  if refKind ≠ pin ∧ refKind ≠ track then throw .badRefKind
  else
    let reference ← Fields.req 2 ContentId.fromCv
    let quantity ← Fields.req 3 asU64
    if quantity < 1 then
      throw (.structural "assembly child quantity must be >= 1 (§23.6.2)")
    else
      let transform ← Fields.take 4 asBytes
      return { refKind, reference, quantity, transform }

def fromCv : Cv → Except CadError AssemblyChild := Fields.read reader

end AssemblyChild

/-- The direct parts of an assembly. -/
structure AssemblyStructure where
  children : List AssemblyChild
  deriving DecidableEq

namespace AssemblyStructure

def toFields (s : AssemblyStructure) : Fields :=
  [(1, .array (s.children.map AssemblyChild.toCv))]

def toCv (s : AssemblyStructure) : Cv := .map s.toFields

def detCbor (s : AssemblyStructure) : Bytes := encode s.toCv

def reader : FieldReader CadError AssemblyStructure := do
  let children ← Fields.req 1 (arrayOf AssemblyChild.fromCv)
  if children.isEmpty then throw (.structural "assembly must have >= 1 child (§23.6.2)")
  else return { children }

def fromDetCbor : Bytes → Except CadError AssemblyStructure := Cbor.fromDetCbor (Fields.read reader)

end AssemblyStructure
end Dmtap.Cad
