import Dmtap.Mail.EncodedWords
import Dmtap.Mail.Imap.Command
import Dmtap.Mail.Mime

/-! Multipart messages: the pieces between delimiters, the part a path leads to, and what a section
of a message shows. A piece keeps the line end in front of the next delimiter. -/
namespace Dmtap.Mail
open Lib

section Splitting

/-- Where the delimiter stands, from `i` on. The first `skip` bytes belong to one found before. -/
def positionsFrom (delim : Bytes) : ℕ → ℕ → Bytes → List ℕ
  | _, _, [] => []
  | skip + 1, i, _ :: text => positionsFrom delim skip (i + 1) text
  | 0, i, b :: text =>
    if delim <+: b :: text then i :: positionsFrom delim (delim.length - 1) (i + 1) text
    else positionsFrom delim 0 (i + 1) text

def delimiter (boundary : String) : Bytes := utf8 ("--" ++ boundary)

/-- A piece without the line end behind its opening delimiter. -/
def stripLineEnd : Bytes → Bytes
  | 13 :: 10 :: seg => seg
  | 10 :: seg => seg
  | seg => seg

/-- What stands between consecutive delimiters. -/
def segmentsAt (delim body : Bytes) (positions : List ℕ) : List Bytes :=
  (positions.zip positions.tail).map fun w =>
    let start := w.1 + delim.length
    stripLineEnd ((body.drop start).take (w.2 - start))

def splitMultipart (body : Bytes) (boundary : String) : List Bytes :=
  let delim := delimiter boundary
  segmentsAt delim body (positionsFrom delim 0 0 body)

/-- Main type, subtype and parameters. -/
def parseContentType (v : String) : String × String × List (String × String) :=
  let parts := split ';' v
  let full := trim (parts.headD "text/plain")
  let types := (splitOnce '/' full).getD ("text", "plain")
  let params := parts.tail.filterMap fun p =>
    (splitOnce '=' p).map fun kv =>
      ((trim kv.1).toLower, String.ofList (trimMatches '"' (trim kv.2).toList))
  ((trim types.1).toLower, (trim types.2).toLower, params)

/-- The first value under a name. -/
def headerVal (headers : List (String × String)) (name : String) : Option String :=
  (headers.find? fun field => eqIgnoreAsciiCase field.1 name).map Prod.snd

theorem headerVal_cons (name value : String) (rest : List (String × String)) (wanted : String) :
    headerVal ((name, value) :: rest) wanted =
      if eqIgnoreAsciiCase name wanted then some value else headerVal rest wanted := by
  unfold headerVal
  rw [List.find?_cons]
  split_ifs with h
  · rw [h]
    rfl
  · rw [Bool.eq_false_iff.mpr h]

def contentType (headers : List (String × String)) : String × String × List (String × String) :=
  parseContentType ((headerVal headers "Content-Type").getD "text/plain")

def partSegments (raw : Bytes) : List Bytes :=
  let (headers, body) := splitHeaders raw
  let (mt, _, params) := contentType headers
  if mt ≠ "multipart" then []
  else
    match params.find? fun kv => kv.1 = "boundary" with
    | some (_, boundary) => splitMultipart body boundary
    | none => []

end Splitting

section Sections
open Imap

/-- The piece a path of part numbers leads to, which count from one. -/
def extractPart (raw : Bytes) : List ℕ → Option Bytes
  | [] => some raw
  | idx :: path =>
    if idx = 0 then none
    else (partSegments raw)[idx - 1]?.bind fun seg => extractPart seg path

def selectedHeaders (raw : Bytes) (fields : List String) (wantedOnly : Bool) : Bytes :=
  let wanted := fields.map String.toLower
  let lines := (headersOnly raw).filterMap fun field =>
    if wanted.contains field.1.toLower == wantedOnly then
      some (field.1 ++ ": " ++ field.2 ++ "\r\n")
    else none
  utf8 (String.join lines ++ "\r\n")

def extractSection (raw : Bytes) : Section → Bytes
  | .full => raw
  | .header => raw.take (bodyOffset raw)
  | .text => raw.drop (bodyOffset raw)
  | .headerFields fields => selectedHeaders raw fields true
  | .headerFieldsNot fields => selectedHeaders raw fields false
  | .part path => ((extractPart raw path).map fun seg => seg.drop (bodyOffset seg)).getD []
  | .partMime path => ((extractPart raw path).map fun seg => seg.take (bodyOffset seg)).getD []

end Sections

section Positions
variable {delim : Bytes}

theorem positionsFrom_skip (found text : Bytes) (i : ℕ) :
    positionsFrom delim found.length i (found ++ text) =
      positionsFrom delim 0 (i + found.length) text := by
  induction found generalizing i with
  | nil => rfl
  | cons b found ih =>
    have hrest := ih (i + 1)
    rw [List.length_cons, List.cons_append, positionsFrom, hrest]
    congr 1
    omega

theorem positionsFrom_found (hdelim : delim ≠ []) (text : Bytes) (i : ℕ) :
    positionsFrom delim 0 i (delim ++ text) =
      i :: positionsFrom delim 0 (i + delim.length) text := by
  obtain ⟨b, found, hcons⟩ := List.exists_cons_of_ne_nil hdelim
  have hstart : delim <+: b :: (found ++ text) := by
    rw [hcons]
    exact List.prefix_append _ text
  have hlength : delim.length = found.length + 1 := by rw [hcons, List.length_cons]
  have hskip : positionsFrom delim found.length (i + 1) (found ++ text) = _ :=
    positionsFrom_skip found text (i + 1)
  have happend : delim ++ text = b :: (found ++ text) := by rw [hcons, List.cons_append]
  rw [happend, positionsFrom, if_pos hstart, hlength, Nat.add_sub_cancel, hskip]
  congr 2
  omega

/-- Where the delimiter does not stand nothing is found. -/
theorem positionsFrom_free {front : Bytes} (text : Bytes)
    (h : ∀ k < front.length, ¬ delim <+: (front ++ text).drop k) (i : ℕ) :
    positionsFrom delim 0 i (front ++ text) =
      positionsFrom delim 0 (i + front.length) text := by
  induction front generalizing i with
  | nil => rfl
  | cons b front ih =>
    have hhere := h 0 (by simp)
    have hrest := ih (fun k hk => h (k + 1) (by simpa using hk)) (i + 1)
    rw [List.drop_zero, List.cons_append] at hhere
    rw [List.cons_append, positionsFrom, if_neg hhere, hrest, List.length_cons]
    congr 1
    omega

/-- What is found is the delimiter. -/
theorem prefix_of_mem_positionsFrom {skip i j : ℕ} {text : Bytes}
    (h : j ∈ positionsFrom delim skip i text) : ∃ k, j = i + k ∧ delim <+: text.drop k := by
  have hlater : ∀ {i : ℕ} {text : Bytes} {b : UInt8}, (∃ k, j = i + 1 + k ∧ delim <+: text.drop k) →
      ∃ k, j = i + k ∧ delim <+: (b :: text).drop k := by
    intro i text b ⟨k, hj, hk⟩
    exact ⟨k + 1, by omega, hk⟩
  induction text generalizing skip i with
  | nil => exact absurd h List.not_mem_nil
  | cons b text ih =>
    cases skip with
    | succ skip => exact hlater (ih h)
    | zero =>
      unfold positionsFrom at h
      by_cases hstart : delim <+: b :: text
      · rw [if_pos hstart] at h
        rcases List.mem_cons.mp h with rfl | h
        · exact ⟨0, rfl, hstart⟩
        · exact hlater (ih h)
      · rw [if_neg hstart] at h
        exact hlater (ih h)

end Positions

section Assembly

def lineEnd : Bytes := [13, 10]

/-- A multipart body made of parts. -/
def assembled (boundary : String) (parts : List Bytes) : Bytes :=
  parts.flatMap (fun p => delimiter boundary ++ lineEnd ++ p ++ lineEnd) ++
    delimiter boundary ++ utf8 "--" ++ lineEnd

theorem delimiter_eq (boundary : String) :
    delimiter boundary = 45 :: 45 :: utf8 boundary := by
  have hdashes : utf8 "--" = [45, 45] := by decide
  rw [delimiter, utf8_append, hdashes]
  rfl

theorem delimiter_ne_nil (boundary : String) : delimiter boundary ≠ [] := by
  rw [delimiter_eq]
  exact List.cons_ne_nil _ _

/-- A delimiter does not start with a line end. -/
theorem not_delimiter_prefix {b : UInt8} (hb : b ≠ 45) (boundary : String) (text : Bytes) :
    ¬ delimiter boundary <+: b :: text := by
  rw [delimiter_eq]
  intro hprefix
  exact hb (List.cons_prefix_cons.mp hprefix).1.symm

/-- The places after an opening delimiter are those behind its line end. -/
theorem positionsFrom_opening (boundary : String) (text : Bytes) (i : ℕ) :
    positionsFrom (delimiter boundary) 0 i (delimiter boundary ++ (lineEnd ++ text)) =
      i :: positionsFrom (delimiter boundary) 0 (i + (delimiter boundary).length + 2) text := by
  have hfree : ∀ k < lineEnd.length, ¬ delimiter boundary <+: (lineEnd ++ text).drop k := by
    intro k hk
    have hlength : lineEnd.length = 2 := rfl
    obtain rfl | rfl : k = 0 ∨ k = 1 := by omega
    · exact not_delimiter_prefix (by decide) boundary _
    · exact not_delimiter_prefix (by decide) boundary _
  rw [positionsFrom_found (delimiter_ne_nil boundary), positionsFrom_free text hfree]
  rfl

/-- The first piece of a body that starts with a delimiter and a line end. -/
theorem head_splitMultipart {boundary : String} {text : Bytes} {piece : Bytes} {pieces : List Bytes}
    (h : splitMultipart (delimiter boundary ++ (lineEnd ++ text)) boundary = piece :: pieces) :
    ∃ k, piece = text.take k ∧ delimiter boundary <+: text.drop k := by
  unfold splitMultipart segmentsAt at h
  dsimp only at h
  rw [positionsFrom_opening, List.tail_cons] at h
  cases hnext : positionsFrom (delimiter boundary) 0 (0 + (delimiter boundary).length + 2) text with
  | nil =>
    rw [hnext, List.zip_nil_right, List.map_nil] at h
    exact absurd h.symm (List.cons_ne_nil _ _)
  | cons j later =>
    have hmem : j ∈ positionsFrom (delimiter boundary) 0
        (0 + (delimiter boundary).length + 2) text := by
      rw [hnext]
      exact List.mem_cons_self
    obtain ⟨k, rfl, hk⟩ := prefix_of_mem_positionsFrom hmem
    have hsize : 0 + (delimiter boundary).length + 2 + k - (0 + (delimiter boundary).length) =
        k + 2 := by omega
    rw [hnext, List.zip_cons_cons, List.map_cons] at h
    have hpiece := (List.cons.inj h).1
    rw [hsize, Nat.zero_add, List.drop_left] at hpiece
    exact ⟨k, hpiece.symm, hk⟩

theorem assembled_cons (boundary : String) (part : Bytes) (parts : List Bytes) :
    assembled boundary (part :: parts) =
      delimiter boundary ++ (lineEnd ++ (part ++ lineEnd ++ assembled boundary parts)) := by
  unfold assembled
  simp only [List.flatMap_cons, List.append_assoc]

/-- No body made of parts is split into these parts: the line end in front of the second delimiter
stays with the first. -/
theorem splitMultipart_assembled_ne (boundary : String) (part : Bytes) (parts : List Bytes) :
    splitMultipart (assembled boundary (part :: parts)) boundary ≠ part :: parts := by
  intro h
  rw [assembled_cons, List.append_assoc part] at h
  obtain ⟨k, hpart, hk⟩ := head_splitMultipart h
  have hinside : k < (part ++ (lineEnd ++ assembled boundary parts)).length := by
    by_contra hover
    rw [List.drop_eq_nil_of_le (Nat.le_of_not_lt hover)] at hk
    exact delimiter_ne_nil boundary (List.prefix_nil.mp hk)
  have hlength := congrArg List.length hpart
  rw [List.length_take, Nat.min_eq_left hinside.le] at hlength
  rw [← hlength, List.drop_left] at hk
  exact not_delimiter_prefix (by decide) boundary _ hk

theorem splitMultipart_assembled_sample :
    (∀ line ∈ splitInclusive (utf8 "A: b\r\n\r\nhi"), ¬ delimiter "x" <+: line) ∧
      splitMultipart (assembled "x" [utf8 "A: b\r\n\r\nhi"]) "x" = [utf8 "A: b\r\n\r\nhi\r\n"] ∧
      splitMultipart (assembled "x" [utf8 "A: b\r\n\r\nhi"]) "x" ≠ [utf8 "A: b\r\n\r\nhi"] := by
  decide

/-- A delimiter without a line end is found in front of one only if it stands there whole. -/
theorem prefix_of_prefix_append {delim front more : Bytes} (hline : 13 ∉ delim)
    (h : delim <+: front ++ 13 :: more) : delim <+: front := by
  rcases List.prefix_or_prefix_of_prefix h (List.prefix_append front _) with hfront | ⟨rest, rfl⟩
  · exact hfront
  · rw [List.prefix_append_right_inj] at h
    cases rest with
    | nil => exact (List.append_nil front).symm ▸ List.prefix_refl front
    | cons b rest =>
      obtain ⟨rfl, -⟩ := List.cons_prefix_cons.mp h
      exact absurd (List.mem_append_right front List.mem_cons_self) hline

/-- A boundary and parts it can delimit: it has no line end, and stands in no part. -/
structure Delimits (boundary : String) (parts : List Bytes) : Prop where
  nonempty : boundary ≠ ""
  line : 13 ∉ delimiter boundary
  apart : ∀ part ∈ parts, ¬ delimiter boundary <:+: part

theorem positionsFrom_closing {boundary : String} (h : Delimits boundary []) (i : ℕ) :
    positionsFrom (delimiter boundary) 0 i (assembled boundary []) = [i] := by
  have hbody : assembled boundary [] = delimiter boundary ++ ([45, 45, 13, 10] ++ []) := by
    have hdashes : utf8 "--" = [45, 45] := by decide
    simp [assembled, hdashes, lineEnd]
  have hne : utf8 boundary ≠ [] := by
    intro hnil
    have hchars := fromUtf8_utf8 boundary
    rw [hnil] at hchars
    exact h.nonempty (Option.some.inj hchars).symm
  obtain ⟨b, name, hname⟩ := List.exists_cons_of_ne_nil hne
  have hfree : ∀ k < ([45, 45, 13, 10] : Bytes).length,
      ¬ delimiter boundary <+: (([45, 45, 13, 10] : Bytes) ++ []).drop k := by
    intro k hk
    have hline := h.line
    rw [delimiter_eq, hname] at hline ⊢
    have hlength : ([45, 45, 13, 10] : Bytes).length = 4 := rfl
    obtain rfl | rfl | rfl | rfl : k = 0 ∨ k = 1 ∨ k = 2 ∨ k = 3 := by omega
    · intro hprefix
      obtain ⟨rfl, -⟩ : b = 13 ∧ name <+: [10] := by
        simpa [List.cons_prefix_cons] using hprefix
      exact hline (by simp)
    · simp [List.cons_prefix_cons]
    · simp [List.cons_prefix_cons]
    · simp [List.cons_prefix_cons]
  rw [hbody, positionsFrom_found (delimiter_ne_nil boundary), positionsFrom_free _ hfree]
  rfl

/-- The delimiters of a body are where its parts start. -/
theorem positionsFrom_assembled_cons {boundary : String} {part : Bytes} {parts : List Bytes}
    (h : Delimits boundary (part :: parts)) (i : ℕ) :
    positionsFrom (delimiter boundary) 0 i (assembled boundary (part :: parts)) =
      i :: positionsFrom (delimiter boundary) 0
        (i + (delimiter boundary).length + 2 + (part ++ lineEnd).length)
        (assembled boundary parts) := by
  have hfree : ∀ k < (part ++ lineEnd).length,
      ¬ delimiter boundary <+: (part ++ lineEnd ++ assembled boundary parts).drop k := by
    intro k hk hprefix
    rw [List.append_assoc] at hprefix
    by_cases hinside : k ≤ part.length
    · rw [List.drop_append_of_le_length hinside] at hprefix
      have hfront := prefix_of_prefix_append h.line hprefix
      exact h.apart part List.mem_cons_self (hfront.isInfix.trans (List.drop_suffix k part).isInfix)
    · have hlast : k = part.length + 1 := by
        rw [List.length_append, lineEnd, List.length_cons, List.length_singleton] at hk
        omega
      have hdrop : (part ++ (lineEnd ++ assembled boundary parts)).drop (part.length + 1) =
          10 :: assembled boundary parts := by
        rw [← List.drop_drop, List.drop_left]
        rfl
      rw [hlast, hdrop] at hprefix
      exact not_delimiter_prefix (by decide) boundary _ hprefix
  rw [assembled_cons, positionsFrom_opening, positionsFrom_free _ hfree]

theorem Delimits.tail {boundary : String} {part : Bytes} {parts : List Bytes}
    (h : Delimits boundary (part :: parts)) : Delimits boundary parts :=
  ⟨h.nonempty, h.line, fun p hp => h.apart p (List.mem_cons_of_mem part hp)⟩

theorem exists_positionsFrom_assembled {boundary : String} {parts : List Bytes}
    (h : Delimits boundary parts) (i : ℕ) :
    ∃ later, positionsFrom (delimiter boundary) 0 i (assembled boundary parts) = i :: later := by
  cases parts with
  | nil => exact ⟨_, positionsFrom_closing h i⟩
  | cons part parts => exact ⟨_, positionsFrom_assembled_cons h i⟩

/-- What a body is split into: each part with the line end in front of the next delimiter. By
induction on the parts, `front` being those already split off. -/
theorem segmentsAt_assembled {boundary : String} {parts : List Bytes} (h : Delimits boundary parts)
    (front : Bytes) :
    segmentsAt (delimiter boundary) (front ++ assembled boundary parts)
      (positionsFrom (delimiter boundary) 0 front.length (assembled boundary parts)) =
        parts.map (· ++ lineEnd) := by
  induction parts generalizing front with
  | nil =>
    rw [positionsFrom_closing h]
    rfl
  | cons part parts ih =>
    have hrest := ih h.tail (front ++ (delimiter boundary ++ (lineEnd ++ (part ++ lineEnd))))
    have hlength : (front ++ (delimiter boundary ++ (lineEnd ++ (part ++ lineEnd)))).length =
        front.length + (delimiter boundary).length + 2 + (part ++ lineEnd).length := by
      simp only [List.length_append, lineEnd, List.length_cons, List.length_nil]
      omega
    obtain ⟨later, hlater⟩ := exists_positionsFrom_assembled h.tail
      (front.length + (delimiter boundary).length + 2 + (part ++ lineEnd).length)
    have hsize : front.length + (delimiter boundary).length + 2 + (part ++ lineEnd).length -
        (front.length + (delimiter boundary).length) = (lineEnd ++ (part ++ lineEnd)).length := by
      simp only [List.length_append, lineEnd, List.length_cons, List.length_nil]
      omega
    rw [hlength, hlater] at hrest
    have hbody : front ++ assembled boundary (part :: parts) =
        front ++ (delimiter boundary ++ (lineEnd ++ (part ++ lineEnd))) ++ assembled boundary parts := by
      rw [assembled_cons]
      simp only [List.append_assoc]
    have hpiece : (front ++ assembled boundary (part :: parts)).drop
        (front.length + (delimiter boundary).length) =
          lineEnd ++ (part ++ lineEnd) ++ assembled boundary parts := by
      rw [hbody, List.append_assoc, ← List.drop_drop, List.drop_left, List.append_assoc,
        List.drop_left]
    rw [positionsFrom_assembled_cons h, hlater, segmentsAt, List.tail_cons, List.zip_cons_cons,
      List.map_cons, List.map_cons]
    dsimp only
    rw [hpiece, hsize, List.take_left, hbody]
    exact congrArg _ hrest

theorem splitMultipart_assembled {boundary : String} {parts : List Bytes}
    (h : Delimits boundary parts) :
    splitMultipart (assembled boundary parts) boundary = parts.map (· ++ lineEnd) :=
  segmentsAt_assembled h []

end Assembly

end Dmtap.Mail
