import Dmtap.Mail.Rfc5322
import Dmtap.Mote.Build
import Dmtap.Mote.Restores

/-! A submitted message becomes a draft that carries its header block byte for byte, less the
fields that only a trust boundary may have added. -/
namespace Dmtap.Mail
open Lib Mote Cbor

section Strip

def trustBoundaryHeaders : List String :=
  ["authentication-results", "arc-seal", "arc-message-signature", "arc-authentication-results"]

def toAsciiLower (b : UInt8) : UInt8 := if 65 ≤ b && b ≤ 90 then b + 32 else b

def bytesEqIgnoreAsciiCase (a b : Bytes) : Bool := a.map toAsciiLower == b.map toAsciiLower

/-- A line that starts a field under one of the names, spelt in any case. -/
def namesTrustBoundary (content : Bytes) : Bool :=
  content.contains 58 &&
    trustBoundaryHeaders.any fun h => bytesEqIgnoreAsciiCase (nameBytes content) (utf8 h)

/-- `dropping` tells whether the field under way is one to drop. -/
def stripLoop (dropping : Bool) : List Bytes → Bytes
  | [] => []
  | line :: lines =>
    let dropping :=
      if isContinuationLine (content line) then dropping else namesTrustBoundary (content line)
    (if dropping then [] else line) ++ stripLoop dropping lines

def stripTrustBoundaryHeaders (rawHeaders : Bytes) : Bytes :=
  stripLoop false (splitInclusive rawHeaders)

end Strip

section Draft

/-- A draft of a kind, a time and a body, and nothing else. -/
def newDraft (kind : Kind) (ts : UInt64) (body : Bytes) : MoteDraft where
  kind
  ts
  headers :=
    { thread := none, subject := none, mime := none, cc := [], ext := [], sensitive := none }
  body
  refs := []
  attach := []
  expires := none
  epoch := none
  keypkg := none
  challenge := none

def buildMoteDraft (data : Bytes) (ts : UInt64) : MoteDraft :=
  let parsed := ParsedMessage.parse data
  let rawHeaders := stripTrustBoundaryHeaders (headerAndBody data).1
  { newDraft .mail ts parsed.body with
    headers :=
      { thread := none
        subject := (parsed.header "Subject").map decodeEncodedWords
        mime := parsed.header "Content-Type"
        cc := []
        ext := if rawHeaders.isEmpty then [] else [(rawHeadersExtKey, .bytes rawHeaders)]
        sensitive := none } }

end Draft

section Kept

/-- The nearest line at or above line `i` that is not a continuation. -/
def fieldStart (lines : List Bytes) (i : ℕ) : Option Bytes :=
  (lines.take (i + 1)).reverse.find? (!isContinuationLine ·)

/-- The lines whose field does not name a trust boundary. -/
def keptLines (lines : List Bytes) : List Bytes :=
  (lines.zipIdx.filter fun p => !(fieldStart lines p.2).any namesTrustBoundary).map Prod.fst

theorem isContinuationLine_content {lines : List Bytes} (h : IsLines lines) {line : Bytes}
    (hline : line ∈ lines) : isContinuationLine (content line) = isContinuationLine line := by
  rcases h.eq_content hline with heq | heq
  · rw [← heq]
  · conv_rhs => rw [heq]
    cases content line <;> rfl

theorem namesTrustBoundary_content {lines : List Bytes} (h : IsLines lines) {line : Bytes}
    (hline : line ∈ lines) : namesTrustBoundary (content line) = namesTrustBoundary line := by
  have hcolon : (content line).contains 58 = line.contains 58 := by
    simpa [startsField] using h.startsField_content false hline
  unfold namesTrustBoundary
  rw [hcolon]
  by_cases hmem : 58 ∈ content line
  · rw [h.nameBytes_content hline hmem]
  · have hno : line.contains 58 = false := by
      rw [← hcolon]
      simpa using hmem
    rw [hno, Bool.false_and, Bool.false_and]

theorem fieldStart_append (pre suf : List Bytes) (line : Bytes) :
    fieldStart (pre ++ line :: suf) pre.length =
      if isContinuationLine line then pre.reverse.find? (!isContinuationLine ·) else some line := by
  have htake : (pre ++ line :: suf).take (pre.length + 1) = pre ++ [line] := by
    rw [List.take_append]
    simp
  unfold fieldStart
  rw [htake, List.reverse_append, List.reverse_singleton, List.singleton_append, List.find?_cons]
  cases isContinuationLine line <;> rfl

/-- The loop's flag is whether the field under way names a trust boundary, so it drops the lines
that are not kept. -/
theorem stripLoop_eq {lines : List Bytes} (h : IsLines lines) (pre suf : List Bytes)
    (hlines : lines = pre ++ suf) :
    stripLoop ((pre.reverse.find? (!isContinuationLine ·)).any namesTrustBoundary) suf =
      ((((suf.zipIdx pre.length).filter fun p =>
        !(fieldStart lines p.2).any namesTrustBoundary).map Prod.fst)).flatten := by
  induction suf generalizing pre with
  | nil => rfl
  | cons line suf ih =>
    have hmem : line ∈ lines := by
      rw [hlines]
      exact List.mem_append_right _ List.mem_cons_self
    have hstart : (fieldStart lines pre.length).any namesTrustBoundary =
        if isContinuationLine line then
          (pre.reverse.find? (!isContinuationLine ·)).any namesTrustBoundary
        else namesTrustBoundary line := by
      rw [hlines, fieldStart_append]
      cases isContinuationLine line <;> rfl
    have hnext : ((pre ++ [line]).reverse.find? (!isContinuationLine ·)).any namesTrustBoundary =
        (fieldStart lines pre.length).any namesTrustBoundary := by
      have htake : (pre ++ line :: suf).take (pre.length + 1) = pre ++ [line] := by
        rw [List.take_append]
        simp
      rw [fieldStart, hlines, htake]
    have hrest := ih (pre ++ [line]) (by rw [hlines, List.append_assoc, List.singleton_append])
    rw [hnext, List.length_append, List.length_singleton] at hrest
    rw [stripLoop, isContinuationLine_content h hmem, namesTrustBoundary_content h hmem,
      ← hstart, hrest, List.zipIdx_cons, List.filter_cons]
    cases (fieldStart lines pre.length).any namesTrustBoundary <;> rfl

/-- Stripping leaves the kept lines as they are. -/
theorem stripTrustBoundaryHeaders_eq (rawHeaders : Bytes) :
    stripTrustBoundaryHeaders rawHeaders = (keptLines (splitInclusive rawHeaders)).flatten :=
  stripLoop_eq (isLines_splitInclusive rawHeaders) [] (splitInclusive rawHeaders) rfl

theorem keptLines_sublist (lines : List Bytes) : (keptLines lines).Sublist lines := by
  have hsub := (List.filter_sublist (p := fun p : Bytes × ℕ =>
    !(fieldStart lines p.2).any namesTrustBoundary) (l := lines.zipIdx)).map Prod.fst
  rwa [List.zipIdx_map_fst] at hsub

end Kept

section Boundary

/-- The bytes end at an empty line that follows a line feed. -/
def EndsAtBlank (b : Bytes) : Prop := [10, 10] <:+ b ∨ [10, 13, 10] <:+ b

theorem EndsAtBlank.two_le {b : Bytes} (h : EndsAtBlank b) : 2 ≤ b.length := by
  rcases h with h | h
  · exact h.length_le
  · exact (Nat.le_succ 2).trans h.length_le

theorem not_endsAtBlank_nil : ¬ EndsAtBlank [] := fun h => absurd h.two_le (by decide)

theorem EndsAtBlank.two_le_of_take {b : Bytes} {k : ℕ} (h : EndsAtBlank (b.take k)) : 2 ≤ k :=
  h.two_le.trans (List.length_take_le k b)

theorem endsAtBlank_cons {b : UInt8} {rest : Bytes} (h : EndsAtBlank (b :: rest)) :
    (b = 10 ∧ (rest = [10] ∨ rest = [13, 10])) ∨ EndsAtBlank rest := by
  rcases h with h | h
  · rcases List.suffix_cons_iff.mp h with heq | h
    · obtain ⟨rfl, rfl⟩ := List.cons.inj heq
      exact Or.inl ⟨rfl, Or.inl rfl⟩
    · exact Or.inr (Or.inl h)
  · rcases List.suffix_cons_iff.mp h with heq | h
    · obtain ⟨rfl, rfl⟩ := List.cons.inj heq
      exact Or.inl ⟨rfl, Or.inr rfl⟩
    · exact Or.inr (Or.inr h)

theorem EndsAtBlank.cons {rest : Bytes} (h : EndsAtBlank rest) (b : UInt8) :
    EndsAtBlank (b :: rest) :=
  h.imp (fun h => h.trans (List.suffix_cons b rest)) fun h => h.trans (List.suffix_cons b rest)

theorem bodyOffset_spec (raw : Bytes) :
    (∀ k, EndsAtBlank (raw.take k) → bodyOffset raw ≤ k) ∧
      (EndsAtBlank (raw.take (bodyOffset raw)) ∨ raw.drop (bodyOffset raw) = []) := by
  induction raw with
  | nil =>
    refine ⟨fun k h => ?_, Or.inr rfl⟩
    rw [List.take_nil] at h
    exact absurd h not_endsAtBlank_nil
  | cons b raw ih =>
    have hlater : (b = 10 → ∀ k, raw.take k ≠ [10] ∧ raw.take k ≠ [13, 10]) →
        (∀ k, EndsAtBlank ((b :: raw).take k) → bodyOffset raw + 1 ≤ k) ∧
          (EndsAtBlank ((b :: raw).take (bodyOffset raw + 1)) ∨
            (b :: raw).drop (bodyOffset raw + 1) = []) := by
      intro hno
      constructor
      · intro k h
        cases k with
        | zero => exact absurd h not_endsAtBlank_nil
        | succ k =>
          rw [List.take_succ_cons] at h
          rcases endsAtBlank_cons h with ⟨hb, htake⟩ | h
          · exact (htake.elim (hno hb k).1 (hno hb k).2).elim
          · exact Nat.succ_le_succ (ih.1 k h)
      · rw [List.take_succ_cons, List.drop_succ_cons]
        exact ih.2.imp_left fun h => h.cons b
    unfold bodyOffset
    by_cases hb : b = 10
    · subst hb
      rw [if_pos rfl]
      split
      · exact ⟨fun k h => h.two_le_of_take, Or.inl (Or.inl (List.suffix_refl _))⟩
      · refine ⟨fun k h => ?_, Or.inl (Or.inr (List.suffix_refl _))⟩
        rcases Nat.lt_or_eq_of_le h.two_le_of_take with hlt | rfl
        · exact hlt
        · have htwo : EndsAtBlank [10, 13] := h
          rcases htwo with h | h
          · exact absurd (h.eq_of_length rfl) (by decide)
          · exact absurd h.length_le (by decide)
      · rename_i hlf hcrlf
        refine hlater fun _ k => ⟨fun htake => ?_, fun htake => ?_⟩
        · have hraw := List.take_append_drop k raw
          rw [htake] at hraw
          exact hlf _ hraw.symm
        · have hraw := List.take_append_drop k raw
          rw [htake] at hraw
          exact hcrlf _ hraw.symm
    · rw [if_neg hb]
      exact hlater fun h => absurd h hb

end Boundary

section Carriage
variable (blake3 : Bytes → Digest)

theorem headerAndBody_append (raw : Bytes) :
    (headerAndBody raw).1 ++ (headerAndBody raw).2 = raw := List.take_append_drop _ _

/-- The draft's body is what stands behind the header. -/
theorem body_parse (raw : Bytes) : (ParsedMessage.parse raw).body = (headerAndBody raw).2 := by
  have h := isLines_splitInclusive raw
  have hsplit := congrArg Prod.snd h.splitHeaders_flatten
  have hoffset := congrArg Prod.snd h.headerAndBody_flatten
  rw [flatten_splitInclusive] at hsplit hoffset
  rw [ParsedMessage.body_parse, hsplit, hoffset]

theorem rawHeadersExt_canonical {h : Headers} {rawHeaders : Bytes}
    (hext : h.ext = [(rawHeadersExtKey, .bytes rawHeaders)]) :
    rawHeadersExt h.canonical = some rawHeaders := by
  have hcanonical : h.canonical.ext = [(rawHeadersExtKey, .bytes rawHeaders)] := by
    unfold Headers.canonical
    rw [hext]
    rfl
  rw [rawHeadersExt, hcanonical]
  simp

/-- A draft as the payload its sender signs. -/
def carried (data : Bytes) (ts : UInt64) (sender sig : Bytes) (expires : Option UInt64) : Payload :=
  { (buildMoteDraft data ts).payload sender with sig, expires }

theorem ext_carried {data : Bytes} {ts : UInt64} {sender sig : Bytes} {expires : Option UInt64}
    (h : stripTrustBoundaryHeaders (headerAndBody data).1 ≠ []) :
    (carried data ts sender sig expires).headers.ext =
      [(rawHeadersExtKey, .bytes (stripTrustBoundaryHeaders (headerAndBody data).1))] := by
  have hempty : (stripTrustBoundaryHeaders (headerAndBody data).1).isEmpty = false := by
    simpa using h
  unfold carried buildMoteDraft
  dsimp only [MoteDraft.payload]
  rw [hempty, if_neg Bool.false_ne_true]

theorem depth_headers_le {h : Headers} (hcc : h.cc = []) (hext : ∀ e ∈ h.ext, e.2.depth = 0) :
    h.toCv.depth ≤ 2 := by
  have hfields : AllValues (fun v => v.depth ≤ 1) (Headers.extFields h.ext) := by
    unfold Headers.extFields
    split_ifs
    · exact allValues_nil _
    · have hmap : (Cv.textMap h.ext).depth ≤ 1 := Cv.depth_textMap_le.mpr fun e he => by
        rw [hext e he]
      simpa using hmap
  rw [Headers.toCv, depth_map_le_succ, Headers.fields, hcc]
  simp [Cv.depth, Cv.depthArray, hfields]

theorem depth_carried (data : Bytes) (ts : UInt64) (sender sig : Bytes)
    (expires : Option UInt64) :
    (Cv.map (Payload.fields true (carried data ts sender sig expires))).depth ≤
      maxNestingDepth := by
  have hext : ∀ e ∈ (carried data ts sender sig expires).headers.ext, e.2.depth = 0 := by
    unfold carried buildMoteDraft
    dsimp only [MoteDraft.payload]
    split
    · exact fun _ he => absurd he List.not_mem_nil
    · intro e he
      rw [List.mem_singleton.mp he]
      rfl
  have hheaders := depth_headers_le (h := (carried data ts sender sig expires).headers) rfl hext
  have hdepth : (Cv.map (Payload.fields true (carried data ts sender sig expires))).depth ≤ 3 := by
    rw [depth_map_le_succ, Payload.fields]
    have hrefs : (carried data ts sender sig expires).refs = [] := rfl
    have hattach : (carried data ts sender sig expires).attach = [] := rfl
    rw [hrefs, hattach]
    simp [Cv.depth, Cv.depthArray, hheaders]
  exact hdepth.trans (by decide)

theorem fromDetCbor_carried {data : Bytes} {ts : UInt64} {sender sig : Bytes}
    {expires : Option UInt64}
    (hne : stripTrustBoundaryHeaders (headerAndBody data).1 ≠ [])
    (hfit : (Cv.map (Payload.fields true (carried data ts sender sig expires))).LengthsFit) :
    Payload.fromDetCbor (carried data ts sender sig expires).detCbor =
      .ok (carried data ts sender sig expires).canonical := by
  have hext : (Cv.textMap (carried data ts sender sig expires).headers.ext).KeysDistinct := by
    rw [ext_carried hne, Cv.keysDistinct_textMap]
    simp
  have hclasses : (carried data ts sender sig expires).ClassesDecoded := fun _ ha =>
    absurd ha List.not_mem_nil
  exact Payload.fromDetCbor_detCbor hfit hext (depth_carried data ts sender sig expires) hclasses

theorem renderRfc5322_carried {data : Bytes} {ts : UInt64} {sender sig : Bytes}
    {expires : Option UInt64} (hne : stripTrustBoundaryHeaders (headerAndBody data).1 ≠ [])
    (later : ℕ) :
    renderRfc5322 blake3 (carried data ts sender sig expires).canonical later =
      stripTrustBoundaryHeaders (headerAndBody data).1 ++ (headerAndBody data).2 := by
  have hraw : rawHeadersExt (carried data ts sender sig expires).canonical.headers =
      some (stripTrustBoundaryHeaders (headerAndBody data).1) :=
    rawHeadersExt_canonical (ext_carried hne)
  have hbody : (carried data ts sender sig expires).canonical.body = (headerAndBody data).2 :=
    body_parse data
  rw [renderRfc5322, hraw, ← hbody]

/-- A submitted message goes through draft, payload and encoding and is written again as its
header less the lines of the stripped fields, and its body. -/
theorem buildMoteDraft_carries (data : Bytes) (ts : UInt64) (sender sig : Bytes)
    (expires : Option UInt64)
    (hne : stripTrustBoundaryHeaders (headerAndBody data).1 ≠ [])
    (hfit : (Cv.map (Payload.fields true { (buildMoteDraft data ts).payload sender with
      sig, expires })).LengthsFit) :
    (∃ received, Payload.fromDetCbor ({ (buildMoteDraft data ts).payload sender with
        sig, expires } : Payload).detCbor = .ok received ∧
      ∀ later, renderRfc5322 blake3 received later =
        stripTrustBoundaryHeaders (headerAndBody data).1 ++ (headerAndBody data).2) ∧
    (headerAndBody data).1 ++ (headerAndBody data).2 = data ∧
    (EndsAtBlank (headerAndBody data).1 ∨ (headerAndBody data).2 = []) ∧
    (∀ k, EndsAtBlank (data.take k) → (headerAndBody data).1.length ≤ k) ∧
    stripTrustBoundaryHeaders (headerAndBody data).1 =
      (((splitInclusive (headerAndBody data).1).zipIdx.filter fun p =>
        !(fieldStart (splitInclusive (headerAndBody data).1) p.2).any
          namesTrustBoundary).map Prod.fst).flatten := by
  have hoffset := bodyOffset_spec data
  refine ⟨⟨_, fromDetCbor_carried hne hfit, renderRfc5322_carried blake3 hne⟩,
    headerAndBody_append data, hoffset.2, fun k hk => ?_, stripTrustBoundaryHeaders_eq _⟩
  exact (List.length_take_le _ _).trans (hoffset.1 k hk)

/-- A message with a folded seal in front of a field. -/
def sealedMessage : Bytes := utf8 "ARC-Seal: x\r\n y\r\nA: b\r\n\r\nhi"

theorem buildMoteDraft_carries_sealed :
    ∃ received, Payload.fromDetCbor ({ (buildMoteDraft sealedMessage 0).payload [] with
        sig := [], expires := none } : Payload).detCbor = .ok received ∧
      ∀ later, renderRfc5322 (fun _ => ⟨List.replicate 32 0, rfl⟩) received later =
        utf8 "A: b\r\n\r\nhi" := by
  obtain ⟨⟨received, hread, hrender⟩, -⟩ := buildMoteDraft_carries
    (fun _ => ⟨List.replicate 32 0, rfl⟩) sealedMessage 0 [] [] none (by decide)
    (by decide +kernel)
  exact ⟨received, hread, fun later => (hrender later).trans (by decide)⟩

end Carriage

end Dmtap.Mail
