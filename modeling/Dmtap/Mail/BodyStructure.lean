import Dmtap.Mail.TransferEncoding

/-! The MIME tree of a message. The tree is read from the message in one go, while a client asks for
one part after the other by its path, and the two agree: at every path the tree has what the bytes
served for that path say. -/
namespace Dmtap.Mail
open Lib Imap

inductive BodyPart where
  | multipart (subtype : String) (parts : List BodyPart) (params : List (String × String))
  | single (mimeType subtype : String) (params : List (String × String))
    (id description : Option String) (encoding : String) (octets lines : ℕ)

def countLines (body : Bytes) : ℕ := if body = [] then 0 else max (body.count 10) 1

/-- The part of a message that is not cut any further. -/
def singlePart (headers : List (String × String)) (body : Bytes) : BodyPart :=
  let (mt, st, params) := contentType headers
  .single mt st params (headerVal headers "Content-ID") (headerVal headers "Content-Description")
    (trim ((headerVal headers "Content-Transfer-Encoding").getD "7BIT")).toUpper body.length
    (if mt = "text" then countLines body else 0)

def boundaryOf (params : List (String × String)) : Option String :=
  (params.find? fun kv => kv.1 = "boundary").map Prod.snd

/-- The tree of a part. A piece of a body is shorter than the body, so that the length of the body
is depth enough. -/
def parseStructureWith : ℕ → List (String × String) → Bytes → BodyPart
  | depth, headers, body =>
    let (mt, st, params) := contentType headers
    if mt = "multipart" then
      match depth, boundaryOf params with
      | depth + 1, some boundary =>
        .multipart st ((splitMultipart body boundary).map fun seg =>
          let (h, b) := splitHeaders seg
          parseStructureWith depth h b) params
      | _, _ => .multipart st [] params
    else singlePart headers body

def parseStructure (headers : List (String × String)) (body : Bytes) : BodyPart :=
  parseStructureWith body.length headers body

def ParsedMessage.structure (p : ParsedMessage) : BodyPart := parseStructure p.headers p.body

/-- The part a path of part numbers leads to, which count from one. -/
def BodyPart.part : BodyPart → List ℕ → Option BodyPart
  | p, [] => some p
  | .multipart _ parts _, idx :: path =>
    if idx = 0 then none else parts[idx - 1]?.bind fun p => p.part path
  | .single .., _ :: _ => none

section Depth

theorem length_stripLineEnd_le (seg : Bytes) : (stripLineEnd seg).length ≤ seg.length := by
  unfold stripLineEnd
  split
  · simp only [List.length_cons]
    omega
  · simp only [List.length_cons]
    omega
  · exact le_refl _

theorem length_splitMultipart_lt {body seg : Bytes} {boundary : String}
    (h : seg ∈ splitMultipart body boundary) : seg.length < body.length := by
  unfold splitMultipart segmentsAt at h
  obtain ⟨w, hw, rfl⟩ := List.mem_map.mp h
  obtain ⟨k, -, hk⟩ := prefix_of_mem_positionsFrom (List.of_mem_zip hw).1
  have hdelim := List.length_pos_of_ne_nil (delimiter_ne_nil boundary)
  have hroom := hk.length_le
  have hstrip := length_stripLineEnd_le
    ((body.drop (w.1 + (delimiter boundary).length)).take (w.2 - (w.1 + (delimiter boundary).length)))
  rw [List.length_drop] at hroom
  rw [List.length_take, List.length_drop] at hstrip
  dsimp only
  omega

theorem length_splitHeaders_le (raw : Bytes) : (splitHeaders raw).2.length ≤ raw.length := by
  unfold splitHeaders
  rw [List.length_drop]
  exact Nat.sub_le _ _

theorem parseStructureWith_eq {depth : ℕ} {headers : List (String × String)} {body : Bytes}
    (h : body.length ≤ depth) : parseStructureWith depth headers body = parseStructure headers body := by
  induction hlen : body.length using Nat.strong_induction_on generalizing depth headers body with
  | _ n ih =>
    subst hlen
    unfold parseStructure parseStructureWith
    dsimp only
    split_ifs
    · cases hboundary : boundaryOf (contentType headers).2.2 with
      | none => cases depth <;> cases body.length <;> rfl
      | some boundary =>
        cases hbody : body.length with
        | zero =>
          have hnil : body = [] := List.length_eq_zero_iff.mp hbody
          have hnone : splitMultipart body boundary = [] := by rw [hnil]; rfl
          cases depth with
          | zero => rfl
          | succ depth =>
            dsimp only
            rw [hnone]
            rfl
        | succ m =>
          cases depth with
          | zero => omega
          | succ depth =>
            dsimp only
            congr 1
            refine List.map_congr_left fun seg hseg => ?_
            have hlt := length_splitMultipart_lt hseg
            have hle := length_splitHeaders_le seg
            rw [ih _ (lt_of_le_of_lt hle hlt) (by omega) rfl,
              ih _ (lt_of_le_of_lt hle hlt) (by omega) rfl]
    · rfl

end Depth

/-- The tree of a message. -/
def structureOf (raw : Bytes) : BodyPart := (ParsedMessage.parse raw).structure

theorem structureOf_eq (raw : Bytes) : structureOf raw =
    if (contentType (splitHeaders raw).1).1 = "multipart" then
      .multipart (contentType (splitHeaders raw).1).2.1 ((partSegments raw).map structureOf)
        (contentType (splitHeaders raw).1).2.2
    else singlePart (splitHeaders raw).1 (splitHeaders raw).2 := by
  change parseStructureWith (splitHeaders raw).2.length (splitHeaders raw).1 (splitHeaders raw).2 = _
  unfold parseStructureWith partSegments boundaryOf
  dsimp only
  by_cases hmt : (contentType (splitHeaders raw).1).1 = "multipart"
  · rw [if_pos hmt, if_pos hmt, if_neg (not_not.mpr hmt)]
    cases (contentType (splitHeaders raw).1).2.2.find? fun kv => kv.1 = "boundary" with
    | none => cases (splitHeaders raw).2.length <;> rfl
    | some found =>
      obtain ⟨name, boundary⟩ := found
      cases hlen : (splitHeaders raw).2.length with
      | zero =>
        have hnil : (splitHeaders raw).2 = [] := List.length_eq_zero_iff.mp hlen
        rw [hnil]
        rfl
      | succ m =>
        dsimp only [Option.map_some]
        congr 1
        refine List.map_congr_left fun seg hseg => ?_
        have hlt := length_splitMultipart_lt hseg
        have hle := length_splitHeaders_le seg
        exact parseStructureWith_eq (by omega)
  · rw [if_neg hmt, if_neg hmt]

theorem partSegments_of_ne {raw : Bytes} (h : (contentType (splitHeaders raw).1).1 ≠ "multipart") :
    partSegments raw = [] := by
  unfold partSegments
  dsimp only
  rw [if_pos h]

/-- Taking a part of the tree is taking the tree of a part. -/
theorem part_structureOf (raw : Bytes) (path : List ℕ) :
    (structureOf raw).part path = (extractPart raw path).map structureOf := by
  induction path generalizing raw with
  | nil =>
    rw [structureOf_eq]
    unfold extractPart
    rw [Option.map_some, structureOf_eq]
    unfold BodyPart.part
    rfl
  | cons idx path ih =>
    unfold extractPart
    rw [structureOf_eq]
    by_cases hmt : (contentType (splitHeaders raw).1).1 = "multipart"
    · rw [if_pos hmt]
      change (if idx = 0 then none else
        ((partSegments raw).map structureOf)[idx - 1]?.bind fun p => p.part path) = _
      split_ifs
      · rfl
      · rw [List.getElem?_map]
        cases (partSegments raw)[idx - 1]? with
        | none => rfl
        | some seg => exact ih seg
    · rw [if_neg hmt, partSegments_of_ne hmt]
      change none = _
      split_ifs
      · rfl
      · rfl

section Sections

/-- A body decoded by the encoding that its part of the tree names. -/
def transferDecoded (encoding : String) (body : Bytes) : Bytes :=
  if encoding = "BASE64" then (base64Decode (fromUtf8Lossy body)).getD []
  else if encoding = "QUOTED-PRINTABLE" then decodeQuotedPrintable body
  else body

theorem toNat_toLower (c : Char) :
    c.toLower.toNat = if 65 ≤ c.toNat ∧ c.toNat ≤ 90 then c.toNat + 32 else c.toNat := by
  have hupper : (c.val ≥ 'A'.val ∧ c.val ≤ 'Z'.val) ↔ 65 ≤ c.toNat ∧ c.toNat ≤ 90 := by
    rw [ge_iff_le, UInt32.le_iff_toNat_le, UInt32.le_iff_toNat_le]
    rfl
  unfold Char.toLower
  by_cases h : 65 ≤ c.toNat ∧ c.toNat ≤ 90
  · rw [dif_pos (hupper.mpr h), if_pos h]
    change (c.val + ('a'.val - 'A'.val)).toNat = c.val.toNat + 32
    have hval : ('a'.val - 'A'.val).toNat = 32 := by decide
    have hlt : c.val.toNat ≤ 90 := h.2
    rw [UInt32.toNat_add, hval]
    omega
  · rw [dif_neg (mt hupper.mp h), if_neg h]

theorem toNat_toUpper (c : Char) :
    c.toUpper.toNat = if 97 ≤ c.toNat ∧ c.toNat ≤ 122 then c.toNat - 32 else c.toNat := by
  have hlower : (c.val ≥ 'a'.val ∧ c.val ≤ 'z'.val) ↔ 97 ≤ c.toNat ∧ c.toNat ≤ 122 := by
    rw [ge_iff_le, UInt32.le_iff_toNat_le, UInt32.le_iff_toNat_le]
    rfl
  unfold Char.toUpper
  by_cases h : 97 ≤ c.toNat ∧ c.toNat ≤ 122
  · rw [dif_pos (hlower.mpr h), if_pos h]
    change (c.val + ('A'.val - 'a'.val)).toNat = c.val.toNat - 32
    have hval : ('A'.val - 'a'.val).toNat = 4294967264 := by decide
    have hlow : 97 ≤ c.val.toNat := h.1
    have hlt : c.val.toNat ≤ 122 := h.2
    rw [UInt32.toNat_add, hval]
    omega
  · rw [dif_neg (mt hlower.mp h), if_neg h]

/-- Letters that agree in one case agree in the other. -/
theorem toLower_eq_iff (c d : Char) : c.toLower = d.toLower ↔ c.toUpper = d.toUpper := by
  rw [← Char.toNat_inj, ← Char.toNat_inj, toNat_toLower, toNat_toLower, toNat_toUpper,
    toNat_toUpper]
  split_ifs <;> omega

theorem toUpper_eq_iff (s t : String) : s.toUpper = t.toUpper ↔ s.toLower = t.toLower := by
  have hlower (s : String) : s.toLower.toList = s.toList.map Char.toLower := String.toList_map
  have hupper (s : String) : s.toUpper.toList = s.toList.map Char.toUpper := String.toList_map
  rw [← String.toList_inj, ← String.toList_inj, hlower, hlower, hupper, hupper,
    ← List.forall₂_eq_eq_eq, List.forall₂_map_left_iff, List.forall₂_map_right_iff,
    List.forall₂_map_left_iff, List.forall₂_map_right_iff]
  simp only [toLower_eq_iff]

/-- What a part says of itself, told by its header and its body. -/
theorem structureOf_headerAndBody (raw : Bytes) : structureOf raw =
    parseStructure (parseHeaderBlock (headerAndBody raw).1) (headerAndBody raw).2 := by
  have hheader : parseHeaderBlock (headerAndBody raw).1 = (splitHeaders raw).1 := headersOnly_eq raw
  have hbody : (headerAndBody raw).2 = (splitHeaders raw).2 := drop_bodyOffset raw
  rw [hheader, hbody]
  rfl

theorem extractBinary_eq_of_extractPart {raw seg : Bytes} {path : List ℕ}
    (h : extractPart raw path = some seg) : extractBinary raw path =
      transferDecoded (trim ((headerVal (splitHeaders seg).1 "Content-Transfer-Encoding").getD
        "7BIT")).toUpper (splitHeaders seg).2 := by
  have hseg : (if path.isEmpty then some raw else extractPart raw path) = some seg := by
    cases path with
    | nil => exact h
    | cons idx path => exact h
  have hbody : seg.drop (bodyOffset seg) = (splitHeaders seg).2 := drop_bodyOffset seg
  have hbase64 (s : String) : s.toUpper = "BASE64" ↔ s.toLower = "base64" := by
    have hupper : "base64".toUpper = "BASE64" := toUpper_of_toList (by decide)
    have hlower : "base64".toLower = "base64" := toLower_of_toList (by decide)
    have h := toUpper_eq_iff s "base64"
    rwa [hupper, hlower] at h
  have hprintable (s : String) : s.toUpper = "QUOTED-PRINTABLE" ↔ s.toLower = "quoted-printable" := by
    have hupper : "quoted-printable".toUpper = "QUOTED-PRINTABLE" := toUpper_of_toList (by decide)
    have hlower : "quoted-printable".toLower = "quoted-printable" := toLower_of_toList (by decide)
    have h := toUpper_eq_iff s "quoted-printable"
    rwa [hupper, hlower] at h
  unfold extractBinary transferDecoded
  rw [hseg]
  dsimp only
  rw [headersOnly_eq, hbody]
  simp only [hbase64, hprintable]
  cases headerVal (splitHeaders seg).1 "Content-Transfer-Encoding" with
  | none =>
    have hplain : (trim "7BIT").toLower = "7bit" := toLower_of_toList (by decide)
    rw [Option.map_none, Option.getD_none, Option.getD_none, hplain]
    rfl
  | some v => rfl

end Sections

/-- At every path the tree of a message has what a client finds under this path: the tree of the
part's own header and body, nothing where nothing is served, and at a leaf the number of bytes and
the encoding of the body that is served, raw and decoded. -/
theorem structure_describes_parts (raw : Bytes) (path : List ℕ) :
    (structureOf raw).part path = (extractPart raw path).map (fun _ =>
      parseStructure (parseHeaderBlock (extractSection raw (.partMime path)))
        (extractSection raw (.part path))) ∧
    ((structureOf raw).part path = none → extractSection raw (.partMime path) = [] ∧
      extractSection raw (.part path) = [] ∧ extractBinary raw path = []) ∧
    ∀ mt st params id description encoding octets lines, (structureOf raw).part path =
        some (.single mt st params id description encoding octets lines) →
      (extractSection raw (.part path)).length = octets ∧
        extractBinary raw path = transferDecoded encoding (extractSection raw (.part path)) := by
  have hbody (seg : Bytes) : seg.drop (bodyOffset seg) = (splitHeaders seg).2 := drop_bodyOffset seg
  rw [part_structureOf]
  cases hpart : extractPart raw path with
  | none =>
    have hpath : ¬path.isEmpty = true := by
      intro hempty
      rw [List.isEmpty_iff.mp hempty] at hpart
      cases hpart
    refine ⟨rfl, fun _ => ⟨?_, ?_, ?_⟩, ?_⟩
    · unfold extractSection
      dsimp only
      rw [hpart]
      rfl
    · unfold extractSection
      dsimp only
      rw [hpart]
      rfl
    · unfold extractBinary
      rw [if_neg hpath, hpart]
    · intro mt st params id description encoding octets lines h
      cases h
  | some seg =>
    have hmime : extractSection raw (.partMime path) = (headerAndBody seg).1 := by
      unfold extractSection
      dsimp only
      rw [hpart]
      rfl
    have hserved : extractSection raw (.part path) = (headerAndBody seg).2 := by
      unfold extractSection
      dsimp only
      rw [hpart]
      rfl
    refine ⟨?_, ?_, ?_⟩
    · rw [Option.map_some, Option.map_some, hmime, hserved, structureOf_headerAndBody]
    · intro h
      cases h
    · intro mt st params id description encoding octets lines h
      rw [Option.map_some, Option.some.injEq, structureOf_eq] at h
      split_ifs at h
      unfold singlePart at h
      cases h
      have hseg : (headerAndBody seg).2 = (splitHeaders seg).2 := hbody seg
      rw [extractBinary_eq_of_extractPart hpart, hserved, hseg]
      exact ⟨rfl, rfl⟩

end Dmtap.Mail
