import Dmtap.Lib.AsciiCode
import Dmtap.Mail.Base64
import Dmtap.Mail.Lines
import Dmtap.Mail.Text
import Mathlib.Data.List.ModifyLast

/-! The fields of a header block, as the reader of a stored message finds them. -/
namespace Dmtap.Mail
open Lib

section Reader

def latin1Text (b : Bytes) : String := String.ofList (b.map fun b => Char.ofNat b.toNat)

/-- A block that is not UTF-8 as a whole is read as Latin-1. -/
def headerText (b : Bytes) : String := (fromUtf8 b).getD (latin1Text b)

def stripSuffix (c : Char) (s : String) : Option String :=
  if s.toList.getLast? = some c then some (String.ofList s.toList.dropLast) else none

/-- One line on top of the fields read so far: a folded line goes to the value of the last. -/
def readHeaderLine (out : List (String × String)) (line : String) : List (String × String) :=
  let line := (stripSuffix '\r' line).getD line
  if line = "" then out
  else if (line.toList.head? = some ' ' || line.toList.head? = some '\t') && !out.isEmpty then
    out.modifyLast fun field => (field.1, field.2 ++ " " ++ trim line)
  else
    match splitOnce ':' line with
    | some (name, val) => out ++ [(trim name, trim val)]
    | none => out

def parseHeaderBlock (bytes : Bytes) : List (String × String) :=
  (split '\n' (headerText bytes)).foldl readHeaderLine []

def splitHeaders (raw : Bytes) : List (String × String) × Bytes :=
  let sep := (separator raw).getD (raw.length, raw.length)
  (parseHeaderBlock (raw.take sep.1), raw.drop (min sep.2 raw.length))

def headersOnly (raw : Bytes) : List (String × String) :=
  parseHeaderBlock (raw.take (bodyOffset raw))

structure ParsedMessage where
  headers : List (String × String)
  body : Bytes

def ParsedMessage.parse (raw : Bytes) : ParsedMessage where
  headers := (splitHeaders raw).1
  body := (splitHeaders raw).2

theorem ParsedMessage.headers_parse (raw : Bytes) : (parse raw).headers = (splitHeaders raw).1 := rfl

theorem ParsedMessage.body_parse (raw : Bytes) : (parse raw).body = (splitHeaders raw).2 := rfl

/-- The first value under a name. -/
def ParsedMessage.header (p : ParsedMessage) (name : String) : Option String :=
  (p.headers.find? fun field => eqIgnoreAsciiCase field.1 name).map Prod.snd

example : headersOnly [83, 58, 32, 97, 13, 10, 32, 98, 13, 10, 13, 10, 84, 58] = [("S", "a b")] := by
  decide

end Reader

section Names

theorem stripSuffix_getD (c : Char) (cs : List Char) :
    (stripSuffix c (String.ofList cs)).getD (String.ofList cs) = String.ofList cs ∨
      ∃ cs', cs = cs' ++ [c] ∧
        (stripSuffix c (String.ofList cs)).getD (String.ofList cs) = String.ofList cs' := by
  unfold stripSuffix
  rw [String.toList_ofList]
  split
  · rename_i hlast
    right
    obtain ⟨cs', rfl⟩ := List.getLast?_eq_some_iff.mp hlast
    refine ⟨cs', rfl, ?_⟩
    rw [List.dropLast_concat]
    rfl
  · exact Or.inl rfl

/-- A line starts a field when it has a colon, unless it is indented and a field has been read. -/
def isIndented (line : List Char) : Bool := line.head? = some ' ' || line.head? = some '\t'

theorem map_fst_modifyLast (out : List (String × String)) (f : String × String → String) :
    (out.modifyLast fun field => (field.1, f field)).map Prod.fst = out.map Prod.fst := by
  rcases List.eq_nil_or_concat out with rfl | ⟨out, last, rfl⟩
  · rfl
  · rw [List.concat_eq_append, List.modifyLast_concat, List.map_append, List.map_append]
    rfl

theorem map_fst_readHeaderLine (out : List (String × String)) (cs : List Char) :
    (readHeaderLine out (String.ofList cs)).map Prod.fst = out.map Prod.fst ++
      if ':' ∈ cs ∧ ¬ (isIndented cs ∧ out ≠ []) then
        [trim (String.ofList (cs.takeWhile (· != ':')))] else [] := by
  unfold readHeaderLine
  dsimp only
  have hline : ∃ cs', (stripSuffix '\r' (String.ofList cs)).getD (String.ofList cs) =
      String.ofList cs' ∧ (':' ∈ cs ↔ ':' ∈ cs') ∧ isIndented cs = isIndented cs' ∧
      (':' ∈ cs → cs.takeWhile (· != ':') = cs'.takeWhile (· != ':')) := by
    rcases stripSuffix_getD '\r' cs with h | ⟨cs', rfl, h⟩
    · exact ⟨cs, h, Iff.rfl, rfl, fun _ => rfl⟩
    · refine ⟨cs', h, by simp, ?_, ?_⟩
      · cases cs' <;> rfl
      · intro hcolon
        exact takeWhile_append_of_mem (by simpa using hcolon) _
  obtain ⟨cs', h, hcolon, hindent, htake⟩ := hline
  rw [h, hindent, String.toList_ofList]
  by_cases hempty : String.ofList cs' = ""
  · have hnil : cs' = [] := by simpa using congrArg String.toList hempty
    have hno : ¬ ':' ∈ cs := by simp [hcolon, hnil]
    rw [if_pos hempty, if_neg (fun hc => hno hc.1), List.append_nil]
  rw [if_neg hempty]
  by_cases hfold : isIndented cs' = true ∧ out ≠ []
  · have hcond : (isIndented cs' && !out.isEmpty) = true := by simp [hfold.1, hfold.2]
    have hno : ¬ (':' ∈ cs ∧ ¬ (isIndented cs' = true ∧ out ≠ [])) := fun hc => hc.2 hfold
    rw [if_neg hno, List.append_nil]
    unfold isIndented at hcond
    rw [if_pos hcond]
    exact map_fst_modifyLast out _
  · have hcond : ¬ (isIndented cs' && !out.isEmpty) = true := by
      intro hc
      rw [Bool.and_eq_true] at hc
      exact hfold ⟨hc.1, by simpa using hc.2⟩
    unfold isIndented at hcond
    rw [if_neg hcond, splitOnce, String.toList_ofList, splitOnceList_eq]
    by_cases hmem : ':' ∈ cs
    · rw [if_pos (hcolon.mp hmem), if_pos ⟨hmem, hfold⟩, htake hmem]
      simp
    · rw [if_neg (fun hc => hmem (hcolon.mpr hc)), if_neg (fun hc => hmem hc.1)]
      simp

end Names

section Coding

/-- Bytes as text: UTF-8, or Latin-1 where the whole of which they are a part is not UTF-8. -/
def decode (valid : Bool) (b : Bytes) : String :=
  if valid then (fromUtf8 b).getD "" else latin1Text b

theorem latin1Text_flatMap {cs : List Char} (h : ∀ c ∈ cs, c.toNat < 256) :
    latin1Text (cs.flatMap fun c => [latin1Byte c]) = String.ofList cs := by
  unfold latin1Text
  congr 1
  induction cs with
  | nil => rfl
  | cons c cs ih =>
    have hc := h c List.mem_cons_self
    have hbyte : (latin1Byte c).toNat = c.toNat := by
      rw [latin1Byte, UInt8.toNat_ofNat']
      omega
    rw [List.flatMap_cons, List.singleton_append, List.map_cons, hbyte, Char.ofNat_toNat,
      ih fun d hd => h d (List.mem_cons_of_mem c hd)]

theorem toNat_ofNat_byte (x : UInt8) : (Char.ofNat x.toNat).toNat = x.toNat := by
  have hx := x.toNat_lt
  have hvalid : Nat.isValidChar x.toNat := Or.inl (by omega)
  unfold Char.ofNat
  rw [dif_pos hvalid]
  rfl

theorem flatMap_latin1Byte (b : Bytes) :
    (b.map fun x => Char.ofNat x.toNat).flatMap (fun c => [latin1Byte c]) = b := by
  induction b with
  | nil => rfl
  | cons x b ih =>
    have hx := x.toNat_lt
    have hbyte : latin1Byte (Char.ofNat x.toNat) = x := by
      have hmin : min x.toNat 255 = x.toNat := by omega
      rw [latin1Byte, toNat_ofNat_byte, hmin, UInt8.ofNat_toNat]
    rw [List.map_cons, List.flatMap_cons, hbyte, ih]
    rfl

/-- The text of a block is written in an encoding that keeps ASCII. -/
theorem exists_encoding (b : Bytes) : ∃ e cs, KeepsAscii e ∧ cs.flatMap e = b ∧
    headerText b = String.ofList cs ∧
      ∀ part, part ⊆ cs → decode (fromUtf8 b).isSome (part.flatMap e) = String.ofList part := by
  cases hb : fromUtf8 b with
  | some s =>
    refine ⟨String.utf8EncodeChar, s.toList, keepsAscii_utf8, ?_, ?_, fun part _ => ?_⟩
    · rw [← utf8_ofList, String.ofList_toList]
      exact utf8_of_fromUtf8 hb
    · rw [headerText, hb, String.ofList_toList]
      rfl
    · rw [decode, Option.isSome_some, if_pos rfl, ← utf8_ofList, fromUtf8_utf8]
      rfl
  | none =>
    refine ⟨fun c => [latin1Byte c], b.map fun x => Char.ofNat x.toNat, keepsAscii_latin1,
      flatMap_latin1Byte b, ?_, fun part hpart => ?_⟩
    · rw [headerText, hb]
      rfl
    · refine latin1Text_flatMap fun c hc => ?_
      obtain ⟨x, _, rfl⟩ := List.mem_map.mp (hpart hc)
      rw [toNat_ofNat_byte]
      exact x.toNat_lt

end Coding

section Starts

def isContinuationLine (line : Bytes) : Bool := line.head? = some 32 || line.head? = some 9

/-- A line starts a field when it has a colon, unless it is indented and a field was read. -/
def startsField (read : Bool) (line : Bytes) : Bool :=
  line.contains 58 && !(read && isContinuationLine line)

/-- The lines that start a field. `read` tells whether a field was read in front of them. -/
def fieldStarts : Bool → List Bytes → List Bytes
  | _, [] => []
  | read, line :: lines =>
    if startsField read line then line :: fieldStarts true lines else fieldStarts read lines

def nameBytes (line : Bytes) : Bytes := line.takeWhile (· != 58)

/-- The name the reader finds in a line that starts a field. -/
def shownName (valid : Bool) (line : Bytes) : String := trim (decode valid (nameBytes line))

variable {e : Char → Bytes} (he : KeepsAscii e)
include he

theorem startsField_flatMap (read : Bool) (cs : List Char) :
    startsField read (cs.flatMap e) = (cs.contains ':' && !(read && isIndented cs)) := by
  have hcolon : (cs.flatMap e).contains 58 = cs.contains ':' := by
    rw [Bool.eq_iff_iff, List.contains_iff_mem, List.contains_iff_mem]
    exact he.mem_flatMap_iff (c := ':') (by decide)
  have hspace : ((cs.flatMap e).head? = some 32) ↔ cs.head? = some ' ' :=
    he.head?_flatMap_iff (c := ' ') (by decide)
  have htab : ((cs.flatMap e).head? = some 9) ↔ cs.head? = some '\t' :=
    he.head?_flatMap_iff (c := '\t') (by decide)
  unfold startsField isContinuationLine isIndented
  rw [hcolon]
  simp only [hspace, htab]

theorem map_fst_foldl_readHeaderLine (valid : Bool) (lines : List (List Char))
    (hdecode : ∀ cs ∈ lines, ∀ part, part ⊆ cs → decode valid (part.flatMap e) = String.ofList part)
    (out : List (String × String)) :
    ((lines.map String.ofList).foldl readHeaderLine out).map Prod.fst = out.map Prod.fst ++
      (fieldStarts (!out.isEmpty) (lines.map (List.flatMap e))).map (shownName valid) := by
  induction lines generalizing out with
  | nil => simp [fieldStarts]
  | cons cs lines ih =>
    have hstart := map_fst_readHeaderLine out cs
    have hname : shownName valid (cs.flatMap e) = trim (String.ofList (cs.takeWhile (· != ':'))) := by
      have htake : nameBytes (cs.flatMap e) = (cs.takeWhile (· != ':')).flatMap e :=
        he.takeWhile_flatMap (c := ':') (by decide) cs
      rw [shownName, htake,
        hdecode cs List.mem_cons_self _ (List.takeWhile_subset _)]
    rw [List.map_cons, List.foldl_cons, ih fun ds hds => hdecode ds (List.mem_cons_of_mem cs hds),
      hstart, List.map_cons, fieldStarts, startsField_flatMap he]
    have hempty : (readHeaderLine out (String.ofList cs)).isEmpty =
        ((readHeaderLine out (String.ofList cs)).map Prod.fst).isEmpty := List.isEmpty_map.symm
    rw [hempty, hstart]
    by_cases hcond : ':' ∈ cs ∧ ¬ (isIndented cs ∧ out ≠ [])
    · have hbool : (cs.contains ':' && !(!out.isEmpty && isIndented cs)) = true := by
        have hnot : isIndented cs = true → out = [] := fun h =>
          not_not.mp fun hne => hcond.2 ⟨h, hne⟩
        cases hindent : isIndented cs with
        | false => simp [hcond.1]
        | true => simp [hcond.1, hnot hindent]
      have hmore : ∀ names : List String,
          (names ++ [trim (String.ofList (cs.takeWhile (· != ':')))]).isEmpty = false := by simp
      rw [if_pos hcond, if_pos hbool, List.map_cons, hname, hmore, List.append_assoc]
      rfl
    · have hbool : ¬ (cs.contains ':' && !(!out.isEmpty && isIndented cs)) = true := by
        intro h
        rw [Bool.and_eq_true, List.contains_iff_mem] at h
        refine hcond ⟨h.1, fun hfold => ?_⟩
        simp [hfold.1, hfold.2] at h
      rw [if_neg hcond, if_neg hbool, List.append_nil, List.isEmpty_map]

end Starts

section Lines

/-- A line without its line feed. -/
def content (line : Bytes) : Bytes := line.takeWhile (· != 10)

theorem content_last {line : Bytes} (h : 10 ∉ line) : content line = line := by
  rw [content, ← List.append_nil line, List.takeWhile_append_of_pos]
  · rfl
  · intro b hb
    rw [bne_iff_ne]
    rintro rfl
    exact h hb

theorem content_line {line : Bytes} (h : 10 ∉ line) : content (line ++ [10]) = line := by
  have hmem : (10 : UInt8) ∈ [10] := List.mem_singleton_self 10
  have hall : ∀ b ∈ line, (b != 10) = true := by
    intro b hb
    rw [bne_iff_ne]
    rintro rfl
    exact h hb
  rw [content, List.takeWhile_append_of_pos hall]
  exact List.append_nil line

theorem IsLines.eq_content {lines : List Bytes} (h : IsLines lines) {line : Bytes}
    (hline : line ∈ lines) : line = content line ∨ line = content line ++ [10] := by
  induction h with
  | nil => exact absurd hline List.not_mem_nil
  | last _ hlast =>
    obtain rfl := List.mem_singleton.mp hline
    exact Or.inl (content_last hlast).symm
  | cons hfirst _ ih =>
    rcases List.mem_cons.mp hline with rfl | hline
    · exact Or.inr (by rw [content_line hfirst])
    · exact ih hline

/-- Splitting at line feeds gives the lines, and one empty piece behind a last line feed. -/
theorem IsLines.splitOn_flatten {lines : List Bytes} (h : IsLines lines) :
    ∃ rest, (rest = [] ∨ rest = [[]]) ∧ lines.flatten.splitOn 10 = lines.map content ++ rest := by
  induction h with
  | nil => exact ⟨[[]], Or.inr rfl, rfl⟩
  | last _ hline =>
    refine ⟨[], Or.inl rfl, ?_⟩
    rw [List.flatten_singleton, List.splitOn_eq_singleton hline, List.map_singleton,
      content_last hline]
    rfl
  | @cons line hline lines _ ih =>
    obtain ⟨rest, hrest, ih⟩ := ih
    refine ⟨rest, hrest, ?_⟩
    rw [List.flatten_cons, List.append_assoc, List.singleton_append,
      List.splitOn_append_cons_self_of_not_mem hline, ih, List.map_cons, content_line hline]
    rfl

theorem startsField_lf (read : Bool) (line : Bytes) :
    startsField read (line ++ [10]) = startsField read line := by
  have hcolon : (line ++ [10]).contains 58 = line.contains 58 := by simp
  have hindent : isContinuationLine (line ++ [10]) = isContinuationLine line := by
    cases line <;> rfl
  rw [startsField, startsField, hcolon, hindent]

theorem IsLines.startsField_content {lines : List Bytes} (h : IsLines lines) (read : Bool)
    {line : Bytes} (hline : line ∈ lines) :
    startsField read (content line) = startsField read line := by
  rcases h.eq_content hline with heq | heq
  · rw [← heq]
  · conv_rhs => rw [heq]
    rw [startsField_lf]

theorem IsLines.nameBytes_content {lines : List Bytes} (h : IsLines lines) {line : Bytes}
    (hline : line ∈ lines) (hcolon : 58 ∈ content line) :
    nameBytes (content line) = nameBytes line := by
  rcases h.eq_content hline with heq | heq
  · rw [← heq]
  · conv_rhs => rw [heq]
    exact (takeWhile_append_of_mem hcolon [10]).symm

theorem fieldStarts_eq_nil (read : Bool) {lines : List Bytes} (h : ∀ line ∈ lines, 58 ∉ line) :
    fieldStarts read lines = [] := by
  induction lines generalizing read with
  | nil => rfl
  | cons line lines ih =>
    have hline : startsField read line = false := by
      rw [startsField, Bool.and_eq_false_iff]
      exact Or.inl (by simpa using h line List.mem_cons_self)
    rw [fieldStarts, hline, if_neg Bool.false_ne_true]
    exact ih read fun l hl => h l (List.mem_cons_of_mem line hl)

theorem fieldStarts_append (read : Bool) (lines : List Bytes) {rest : List Bytes}
    (hrest : ∀ line ∈ rest, 58 ∉ line) : fieldStarts read (lines ++ rest) = fieldStarts read lines := by
  induction lines generalizing read with
  | nil => exact fieldStarts_eq_nil read hrest
  | cons line lines ih => rw [List.cons_append, fieldStarts, fieldStarts, ih, ih]

theorem IsLines.map_shownName_content {lines : List Bytes} (h : IsLines lines) (read valid : Bool)
    {part : List Bytes} (hpart : part ⊆ lines) :
    (fieldStarts read (part.map content)).map (shownName valid) =
      (fieldStarts read part).map (shownName valid) := by
  induction part generalizing read with
  | nil => rfl
  | cons line part ih =>
    obtain ⟨hline, hpart⟩ := List.cons_subset.mp hpart
    rw [List.map_cons, fieldStarts, fieldStarts, h.startsField_content read hline]
    split
    · rename_i hstart
      have hcolon : 58 ∈ content line := by
        rw [← h.startsField_content read hline, startsField, Bool.and_eq_true] at hstart
        exact List.contains_iff_mem.mp hstart.1
      rw [List.map_cons, List.map_cons, ih true hpart, shownName, shownName,
        h.nameBytes_content hline hcolon]
    · exact ih read hpart

/-- The reader's names are those in the lines that start a field. -/
theorem IsLines.names_parseHeaderBlock {lines : List Bytes} (h : IsLines lines) :
    (parseHeaderBlock lines.flatten).map Prod.fst =
      (fieldStarts false lines).map (shownName (fromUtf8 lines.flatten).isSome) := by
  obtain ⟨e, cs, he, hcs, htext, hdecode⟩ := exists_encoding lines.flatten
  obtain ⟨rest, hrest, hsplit⟩ := h.splitOn_flatten
  have hbytes : (cs.splitOn '\n').map (List.flatMap e) = lines.map content ++ rest := by
    rw [← hsplit, ← he.splitOn_flatMap (c := '\n') (by decide) cs, hcs]
    rfl
  rw [parseHeaderBlock, split, htext, String.toList_ofList]
  have hnames := map_fst_foldl_readHeaderLine he (fromUtf8 lines.flatten).isSome (cs.splitOn '\n')
    (fun piece hpiece part hpart =>
      hdecode part (List.Subset.trans hpart (subset_of_mem_splitOn hpiece))) []
  have hcolon : ∀ line ∈ rest, 58 ∉ line := by
    rcases hrest with rfl | rfl <;> simp
  rw [hbytes, fieldStarts_append _ _ hcolon] at hnames
  rw [← h.map_shownName_content false _ (List.Subset.refl lines)]
  exact hnames

end Lines

section Message

/-- The names a reader of the message shows. -/
def shownNames (lines : List Bytes) : List String :=
  (fieldStarts false (headLines lines)).map
    (shownName (fromUtf8 (headLines lines).flatten).isSome)

theorem isBlank_eq_true {line : Bytes} (h : isBlank line = true) : line = [10] ∨ line = [13, 10] := by
  simpa [isBlank] using h

theorem isSome_fromUtf8_iff (b : Bytes) :
    (fromUtf8 b).isSome = true ↔ ∃ cs : List Char, cs.flatMap String.utf8EncodeChar = b := by
  constructor
  · intro h
    obtain ⟨s, hs⟩ := Option.isSome_iff_exists.mp h
    refine ⟨s.toList, ?_⟩
    rw [← utf8_ofList, String.ofList_toList]
    exact utf8_of_fromUtf8 hs
  · rintro ⟨cs, rfl⟩
    rw [← utf8_ofList, fromUtf8_utf8]
    rfl

theorem isSome_fromUtf8_append {c : Char} (hc : c.toNat < 128) (b : Bytes) :
    (fromUtf8 (b ++ [UInt8.ofNat c.toNat])).isSome = (fromUtf8 b).isSome := by
  rw [Bool.eq_iff_iff, isSome_fromUtf8_iff, isSome_fromUtf8_iff]
  constructor
  · rintro ⟨cs, hcs⟩
    exact keepsAscii_utf8.exists_of_flatMap_eq_append hc hcs
  · rintro ⟨cs, rfl⟩
    refine ⟨cs ++ [c], ?_⟩
    rw [List.flatMap_append, List.flatMap_singleton, keepsAscii_utf8.ascii c hc]

theorem isBlank_of_restLines {lines rest : List Bytes} {blank : Bytes}
    (h : restLines lines = blank :: rest) : isBlank blank = true := by
  have hhead := List.head?_dropWhile_not (!isBlank ·) lines.tail
  unfold restLines at h
  rw [h] at hhead
  simpa using hhead

theorem IsLines.splitHeaders_flatten {lines : List Bytes} (h : IsLines lines) :
    splitHeaders lines.flatten = (parseHeaderBlock (headLines lines).flatten,
      (restLines lines).tail.flatten) := by
  unfold splitHeaders
  dsimp only
  rcases h.separator_cases with ⟨hrest, hsep, hflat⟩ | ⟨blank, rest, hrest, hsep, hflat⟩
  · rw [hsep, hrest, hflat, Option.getD_none, Nat.min_self, List.take_length, List.drop_length]
    rfl
  · have hoffset : ((headLines lines).flatten ++ blank).length =
        (headLines lines).flatten.length + blank.length := List.length_append
    have hle : (headLines lines).flatten.length + blank.length ≤ lines.flatten.length := by
      rw [hflat, ← List.append_assoc, List.length_append, hoffset]
      exact Nat.le_add_right _ _
    rw [hsep, hrest, Option.getD_some, Nat.min_eq_left hle, hflat, List.take_left, ← hoffset,
      ← List.append_assoc, List.drop_left]
    rfl

theorem isLines_headLines {lines : List Bytes} (h : IsLines lines) : IsLines (headLines lines) := by
  refine h.sublist ?_
  conv_rhs => rw [← headLines_append_restLines lines]
  exact List.sublist_append_left _ _

theorem IsLines.names_splitHeaders {lines : List Bytes} (h : IsLines lines) :
    (splitHeaders lines.flatten).1.map Prod.fst = shownNames lines := by
  rw [h.splitHeaders_flatten]
  exact (isLines_headLines h).names_parseHeaderBlock

/-- Places on both sides of an empty line that stands behind a line end. -/
def AroundBlank (raw : Bytes) (s : ℕ × ℕ) : Prop :=
  ∃ front blank rest, isBlank blank = true ∧ raw = front ++ [10] ++ blank ++ rest ∧
    s = ((front ++ [10]).length, (front ++ [10] ++ blank).length)

theorem AroundBlank.cons {raw : Bytes} {s : ℕ × ℕ} (h : AroundBlank raw s) (b : UInt8) :
    AroundBlank (b :: raw) (s.1 + 1, s.2 + 1) := by
  obtain ⟨front, blank, rest, hblank, rfl, rfl⟩ := h
  exact ⟨b :: front, blank, rest, hblank, rfl, rfl⟩

theorem aroundBlank_separator {raw : Bytes} {s : ℕ × ℕ} (h : separator raw = some s) :
    AroundBlank raw s := by
  induction raw generalizing s with
  | nil => cases h
  | cons b raw ih =>
    have hlater : (separator raw).map (fun s => (s.1 + 1, s.2 + 1)) = some s →
        AroundBlank (b :: raw) s := by
      intro hmap
      obtain ⟨t, ht, rfl⟩ := Option.map_eq_some_iff.mp hmap
      exact (ih ht).cons b
    unfold separator at h
    dsimp only at h
    split at h
    · rename_i hb
      subst hb
      split at h
      · cases h
        exact ⟨[], [10], _, rfl, rfl, rfl⟩
      · cases h
        exact ⟨[], [13, 10], _, rfl, rfl, rfl⟩
      · exact hlater h
    · exact hlater h

theorem headerText_append_ascii {c : Char} (hc : c.toNat < 128) (b : Bytes) :
    headerText (b ++ [UInt8.ofNat c.toNat]) = headerText b ++ String.ofList [c] := by
  have hbyte : utf8 (String.ofList [c]) = [UInt8.ofNat c.toNat] := by
    rw [utf8_ofList, List.flatMap_singleton, keepsAscii_utf8.ascii c hc]
  have hchar : Char.ofNat (UInt8.ofNat c.toNat).toNat = c := by
    have hnat : (UInt8.ofNat c.toNat).toNat = c.toNat := by
      rw [UInt8.toNat_ofNat']
      omega
    rw [hnat, Char.ofNat_toNat]
  have hsame := isSome_fromUtf8_append hc b
  unfold headerText
  cases htext : fromUtf8 b with
  | some s =>
    have hb := utf8_of_fromUtf8 htext
    have happend : utf8 s ++ utf8 (String.ofList [c]) = utf8 (s ++ String.ofList [c]) := by
      rw [utf8, utf8, utf8, String.toByteArray_append]
      simp
    rw [← hb, ← hbyte, happend, fromUtf8_utf8]
    rfl
  | none =>
    rw [htext, Option.isSome_none, Option.isSome_eq_false_iff, Option.isNone_iff_eq_none] at hsame
    rw [hsame, Option.getD_none, Option.getD_none, latin1Text, List.map_append, String.ofList_append,
      List.map_singleton, hchar]
    rfl

/-- An empty line behind the fields adds none. -/
theorem parseHeaderBlock_append_blank {blank : Bytes} (hblank : isBlank blank = true) (b : Bytes) :
    parseHeaderBlock (b ++ [10] ++ blank) = parseHeaderBlock (b ++ [10]) := by
  have hlf : ∀ b : Bytes, headerText (b ++ [10]) = headerText b ++ String.ofList ['\n'] := fun b =>
    headerText_append_ascii (c := '\n') (by decide) b
  have hcr : ∀ b : Bytes, headerText (b ++ [13]) = headerText b ++ String.ofList ['\r'] := fun b =>
    headerText_append_ascii (c := '\r') (by decide) b
  have hlines : ∀ cs : List Char, split '\n' (headerText b ++ String.ofList ('\n' :: cs)) =
      split '\n' (headerText b) ++ split '\n' (String.ofList cs) := by
    intro cs
    have hsplit := split_append_cons '\n' (headerText b).toList cs
    rwa [String.ofList_append, String.ofList_toList] at hsplit
  have hempty : ∀ out, readHeaderLine out "" = out := fun out => rfl
  have hreturn : ∀ out, readHeaderLine out "\r" = out := fun out => rfl
  have hnone : split '\n' (String.ofList []) = [""] := by decide
  unfold parseHeaderBlock
  rcases isBlank_eq_true hblank with rfl | rfl
  · have htext : headerText (b ++ [10] ++ [10]) = headerText b ++ String.ofList ['\n', '\n'] := by
      rw [hlf, hlf, String.append_assoc, ← String.ofList_append]
      rfl
    have htwo : split '\n' (String.ofList ['\n']) = ["", ""] := by decide
    rw [htext, hlf, hlines, hlines, hnone, htwo, List.foldl_append, List.foldl_append]
    simp only [List.foldl_cons, List.foldl_nil, hempty]
  · have htext : headerText (b ++ [10] ++ [13, 10]) =
        headerText b ++ String.ofList ['\n', '\r', '\n'] := by
      have hbytes : b ++ [10] ++ [13, 10] = b ++ [10] ++ [13] ++ [10] := by simp
      rw [hbytes, hlf, hcr, hlf, String.append_assoc, String.append_assoc, ← String.ofList_append,
        ← String.ofList_append]
      rfl
    have htwo : split '\n' (String.ofList ['\r', '\n']) = ["\r", ""] := by decide
    rw [htext, hlf, hlines, hlines, hnone, htwo, List.foldl_append, List.foldl_append]
    simp only [List.foldl_cons, List.foldl_nil, hempty, hreturn]

/-- The header of a message, read up to the body or up to the empty line in front of it. -/
theorem headersOnly_eq (raw : Bytes) : headersOnly raw = (splitHeaders raw).1 := by
  unfold headersOnly splitHeaders
  rw [bodyOffset_eq]
  cases hsep : separator raw with
  | none => rfl
  | some s =>
    obtain ⟨front, blank, rest, hblank, rfl, rfl⟩ := aroundBlank_separator hsep
    rw [Option.map_some, Option.getD_some, Option.getD_some, List.take_left]
    dsimp only
    rw [parseHeaderBlock_append_blank hblank, List.append_assoc (front ++ [10]), List.take_left]

theorem IsLines.names_headersOnly {lines : List Bytes} (h : IsLines lines) :
    (headersOnly lines.flatten).map Prod.fst = shownNames lines := by
  rw [headersOnly_eq]
  exact h.names_splitHeaders

end Message

end Dmtap.Mail
