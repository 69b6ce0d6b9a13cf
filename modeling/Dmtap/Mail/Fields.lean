import Dmtap.Mail.Ascii
import Dmtap.Mail.HeaderBlock

/-! Header fields as they are written. A value may be folded: each of its line feeds is followed
by a space. A reader then finds the fields that were written, and the body behind them. -/
namespace Dmtap.Mail
open Lib

section Folded

def Folded (b : Bytes) : Prop := ∀ front back, b = front ++ 10 :: back → back.head? = some 32

theorem folded_of_not_mem {b : Bytes} (h : 10 ∉ b) : Folded b := by
  rintro front back rfl
  exact absurd (List.mem_append_right _ List.mem_cons_self) h

theorem Folded.append {a b : Bytes} (ha : Folded a) (hb : Folded b) : Folded (a ++ b) := by
  intro front back h
  rcases List.append_eq_append_iff.mp h with ⟨more, rfl, hrest⟩ | ⟨more, hrest, hback⟩
  · exact hb more back hrest
  · cases more with
    | nil => exact hb [] back hback.symm
    | cons x more =>
      obtain ⟨rfl, rfl⟩ := List.cons.inj hback
      have hhead := ha front more hrest
      obtain ⟨more, rfl⟩ := List.head?_eq_some_iff.mp hhead
      rfl

theorem Folded.cons {x : UInt8} {b : Bytes} (hb : Folded b) (hx : x = 10 → b.head? = some 32) :
    Folded (x :: b) := by
  intro front back h
  cases front with
  | nil =>
    obtain ⟨rfl, rfl⟩ := List.cons.inj h
    exact hx rfl
  | cons y front => exact hb front back (List.cons.inj h).2

theorem Folded.tail {x : UInt8} {b : Bytes} (h : Folded (x :: b)) : Folded b := by
  rintro front back rfl
  exact h (x :: front) back rfl

theorem folded_fold : Folded [13, 10, 32] := by
  have hspace : Folded [32] := folded_of_not_mem (by decide)
  exact (hspace.cons fun _ => rfl).cons (by decide)

theorem Folded.intercalate {sep : Bytes} (hsep : Folded sep) {parts : List Bytes}
    (h : ∀ part ∈ parts, Folded part) : Folded (sep.intercalate parts) := by
  induction parts with
  | nil => exact folded_of_not_mem List.not_mem_nil
  | cons part parts ih =>
    have hpart : Folded part := h part List.mem_cons_self
    cases parts with
    | nil => rwa [List.intercalate_singleton]
    | cons next parts =>
      rw [List.intercalate_cons_cons]
      exact (hpart.append hsep).append (ih fun p hp => h p (List.mem_cons_of_mem part hp))

/-- The lines of a folded value: the first, and indented ones. -/
theorem Folded.lines {b : Bytes} (h : Folded b) :
    ∃ folds, splitInclusive (b ++ [10]) = (b.takeWhile (· != 10) ++ [10]) :: folds ∧
      ∀ line ∈ folds, line.head? = some 32 := by
  induction b with
  | nil => exact ⟨[], rfl, fun _ hline => absurd hline List.not_mem_nil⟩
  | cons x b ih =>
    obtain ⟨folds, hsplit, hfolds⟩ := ih h.tail
    rw [List.cons_append, splitInclusive, hsplit]
    by_cases hx : x = 10
    · subst hx
      refine ⟨(b.takeWhile (· != 10) ++ [10]) :: folds, ?_, ?_⟩
      · rw [if_pos rfl, List.takeWhile_cons, if_neg (by simp)]
        rfl
      · intro line hline
        rcases List.mem_cons.mp hline with rfl | hline
        · obtain ⟨b, rfl⟩ := List.head?_eq_some_iff.mp (h [] b rfl)
          rfl
        · exact hfolds line hline
    · refine ⟨folds, ?_, hfolds⟩
      rw [if_neg hx, List.takeWhile_cons, if_pos (by simpa using hx)]
      rfl

theorem lf_mem_utf8_iff (s : String) : 10 ∈ utf8 s ↔ '\n' ∈ s.toList := by
  rw [utf8_toList]
  exact keepsAscii_utf8.mem_flatMap_iff (c := '\n') (by decide)

/-- Text that may stand in a header field. -/
def FoldedText (s : String) : Prop := Folded (utf8 s)

theorem foldedText_of_not_mem {s : String} (h : '\n' ∉ s.toList) : FoldedText s :=
  folded_of_not_mem (mt (lf_mem_utf8_iff s).mp h)

theorem FoldedText.append {s t : String} (hs : FoldedText s) (ht : FoldedText t) :
    FoldedText (s ++ t) := by
  rw [FoldedText, utf8_append]
  exact Folded.append hs ht

theorem utf8_intercalate (sep : String) (parts : List String) :
    utf8 (sep.intercalate parts) = (utf8 sep).intercalate (parts.map utf8) := by
  induction parts with
  | nil =>
    rw [String.intercalate_nil]
    rfl
  | cons part parts ih =>
    cases parts with
    | nil =>
      rw [String.intercalate_singleton, List.map_singleton, List.intercalate_singleton]
    | cons next parts =>
      rw [String.intercalate_cons_cons, utf8_append, utf8_append, ih]
      simp only [List.map_cons, List.intercalate_cons_cons]

theorem FoldedText.intercalate {sep : String} (hsep : FoldedText sep) {parts : List String}
    (h : ∀ part ∈ parts, FoldedText part) : FoldedText (sep.intercalate parts) := by
  rw [FoldedText, utf8_intercalate]
  refine Folded.intercalate hsep fun part hpart => ?_
  obtain ⟨s, hs, rfl⟩ := List.mem_map.mp hpart
  exact h s hs

end Folded

section Written

theorem trim_eq_self {cs : List Char} (h : ∀ c ∈ cs, isWhitespace c = false) :
    trim (String.ofList cs) = String.ofList cs := by
  have hdrop : ∀ ds : List Char, (∀ c ∈ ds, isWhitespace c = false) →
      ds.dropWhile isWhitespace = ds := by
    intro ds hds
    cases ds with
    | nil => rfl
    | cons d ds => rw [List.dropWhile_cons, hds d List.mem_cons_self, if_neg Bool.false_ne_true]
  unfold trim trimEnd trimStart
  rw [String.toList_ofList, String.toList_ofList, hdrop cs h,
    hdrop cs.reverse fun c hc => h c (List.mem_reverse.mp hc), List.reverse_reverse]

theorem latin1Text_ascii {cs : List Char} (h : ∀ c ∈ cs, c.toNat < 128) :
    latin1Text (cs.map asciiByte) = String.ofList cs := by
  rw [latin1Text, List.map_map]
  congr 1
  refine (List.map_congr_left fun c hc => ?_).trans (List.map_id cs)
  rw [Function.comp_apply, toNat_asciiByte (h c hc), Char.ofNat_toNat, id]

/-- Printable ASCII without a colon. -/
def isFieldName (name : String) : Bool :=
  name != "" && name.toList.all fun c => 33 ≤ c.toNat && c.toNat < 127 && c != ':'

/-- A header field as it is written, its value folded. -/
structure WrittenField where
  name : String
  value : Bytes
  name_ok : isFieldName name = true
  folded : Folded value

namespace WrittenField
variable (f : WrittenField)

def written : Bytes := utf8 f.name ++ utf8 ": " ++ f.value ++ utf8 "\r\n"

theorem name_ne : f.name ≠ "" := by
  have hok := f.name_ok
  rw [isFieldName, Bool.and_eq_true] at hok
  exact bne_iff_ne.mp hok.1

theorem name_printable : ∀ c ∈ f.name.toList, 33 ≤ c.toNat ∧ c.toNat < 127 ∧ c ≠ ':' := by
  intro c hc
  have hok := f.name_ok
  rw [isFieldName, Bool.and_eq_true] at hok
  simpa [and_assoc] using List.all_eq_true.mp hok.2 c hc

theorem utf8_name : utf8 f.name = f.name.toList.map asciiByte := by
  have hascii : ∀ c ∈ f.name.toList, c.toNat < 128 := fun c hc =>
    (f.name_printable c hc).2.1.trans (by decide)
  rw [← utf8_ascii hascii, String.ofList_toList]

theorem name_bytes : ∀ b ∈ utf8 f.name, 33 ≤ b.toNat ∧ b ≠ 58 := by
  intro b hb
  rw [f.utf8_name] at hb
  obtain ⟨c, hc, rfl⟩ := List.mem_map.mp hb
  obtain ⟨hlo, hhi, hcolon⟩ := f.name_printable c hc
  have hascii : (asciiByte c).toNat = c.toNat := toNat_asciiByte (hhi.trans (by decide))
  refine ⟨hascii ▸ hlo, fun h => hcolon (Char.toNat_inj.mp ?_)⟩
  rw [← hascii, h]
  rfl

theorem decode_name (valid : Bool) : decode valid (utf8 f.name) = f.name := by
  cases valid with
  | true =>
    rw [decode, if_pos rfl, fromUtf8_utf8]
    rfl
  | false =>
    rw [decode, if_neg Bool.false_ne_true, f.utf8_name, latin1Text_ascii, String.ofList_toList]
    exact fun c hc => (f.name_printable c hc).2.1.trans (by decide)

theorem trim_name : trim f.name = f.name := by
  rw [← String.ofList_toList (s := f.name)]
  refine trim_eq_self fun c hc => ?_
  obtain ⟨hlo, hhi, -⟩ := f.name_printable c hc
  simp only [isWhitespace, Bool.or_eq_false_iff, Bool.and_eq_false_iff, decide_eq_false_iff_not,
    beq_eq_false_iff_ne]
  omega

theorem lf_not_mem_name : 10 ∉ utf8 f.name := by
  intro h
  exact absurd (f.name_bytes 10 h).1 (by decide)

/-- The line a field starts with, and the indented lines its value folds into. -/
theorem lines : ∃ first folds, splitInclusive f.written = (utf8 f.name ++ 58 :: first) :: folds ∧
    ∀ line ∈ folds, line.head? = some 32 := by
  have hpunct : utf8 ": " = [58, 32] ∧ utf8 "\r\n" = [13, 10] := by decide
  have hvalue : Folded (f.value ++ [13]) := f.folded.append (folded_of_not_mem (by decide))
  have hall : Folded (utf8 f.name ++ (58 :: 32 :: (f.value ++ [13]))) :=
    (folded_of_not_mem f.lf_not_mem_name).append ((hvalue.cons fun h => absurd h (by decide)).cons
      fun h => absurd h (by decide))
  obtain ⟨folds, hsplit, hfolds⟩ := hall.lines
  have hwritten : f.written = utf8 f.name ++ (58 :: 32 :: (f.value ++ [13])) ++ [10] := by
    rw [written, hpunct.1, hpunct.2]
    simp
  have hname : ∀ b ∈ utf8 f.name, (b != 10) = true := by
    intro b hb
    rw [bne_iff_ne]
    rintro rfl
    exact f.lf_not_mem_name hb
  refine ⟨32 :: ((f.value ++ [13]).takeWhile (· != 10) ++ [10]), folds, ?_, hfolds⟩
  rw [hwritten, hsplit, List.takeWhile_append_of_pos hname, List.takeWhile_cons, List.takeWhile_cons]
  simp

variable {f}

theorem nameBytes_start (first : Bytes) : nameBytes (utf8 f.name ++ 58 :: first) = utf8 f.name := by
  have hname : ∀ b ∈ utf8 f.name, (b != 58) = true := by
    intro b hb
    rw [bne_iff_ne]
    exact (f.name_bytes b hb).2
  rw [nameBytes, List.takeWhile_append_of_pos hname, List.takeWhile_cons, if_neg (by decide),
    List.append_nil]

theorem start_line (read : Bool) (first : Bytes) :
    startsField read (utf8 f.name ++ 58 :: first) = true ∧
      isBlank (utf8 f.name ++ 58 :: first) = false := by
  have hne : utf8 f.name ≠ [] := by
    rw [f.utf8_name]
    simpa using f.name_ne
  obtain ⟨b, name, hb⟩ := List.exists_cons_of_ne_nil hne
  have hlo := (f.name_bytes b (hb ▸ List.mem_cons_self)).1
  have hother : ∀ x : UInt8, x.toNat < 33 → b ≠ x := by
    rintro x hx rfl
    omega
  have hindent : isContinuationLine (utf8 f.name ++ 58 :: first) = false := by
    rw [hb, isContinuationLine]
    simp [hother 32 (by decide), hother 9 (by decide)]
  constructor
  · rw [startsField, hindent]
    simp
  · rw [hb, isBlank]
    simp [hother 10 (by decide), hother 13 (by decide)]

theorem fieldStarts_folds {folds : List Bytes} (h : ∀ line ∈ folds, line.head? = some 32)
    (rest : List Bytes) : fieldStarts true (folds ++ rest) = fieldStarts true rest := by
  induction folds with
  | nil => rfl
  | cons line folds ih =>
    have hline : startsField true line = false := by
      rw [startsField, isContinuationLine, h line List.mem_cons_self]
      simp
    rw [List.cons_append, fieldStarts, hline, if_neg Bool.false_ne_true]
    exact ih fun l hl => h l (List.mem_cons_of_mem line hl)

end WrittenField

/-- The lines of fields written one after another. -/
def writtenLines (fields : List WrittenField) : List Bytes :=
  fields.flatMap fun f => splitInclusive f.written

theorem splitInclusive_written (fields : List WrittenField) (rest : Bytes) :
    splitInclusive (fields.flatMap WrittenField.written ++ rest) =
      writtenLines fields ++ splitInclusive rest := by
  induction fields with
  | nil => rfl
  | cons f fields ih =>
    have hlf : f.written = utf8 f.name ++ utf8 ": " ++ f.value ++ [13] ++ [10] := by
      rw [WrittenField.written, show utf8 "\r\n" = [13] ++ [10] by decide]
      simp
    have happend := splitInclusive_append_lf (utf8 f.name ++ utf8 ": " ++ f.value ++ [13])
      (fields.flatMap WrittenField.written ++ rest)
    rw [← hlf, ih] at happend
    rw [List.flatMap_cons, writtenLines, List.flatMap_cons, List.append_assoc, List.append_assoc,
      ← writtenLines, ← happend, hlf]
    simp

theorem fieldStarts_writtenLines (read valid : Bool) (fields : List WrittenField) :
    (fieldStarts read (writtenLines fields)).map (shownName valid) =
      fields.map WrittenField.name := by
  induction fields generalizing read with
  | nil => rfl
  | cons f fields ih =>
    obtain ⟨first, folds, hlines, hfolds⟩ := f.lines
    have hname : shownName valid (utf8 f.name ++ 58 :: first) = f.name := by
      rw [shownName, WrittenField.nameBytes_start, f.decode_name, f.trim_name]
    rw [writtenLines, List.flatMap_cons, ← writtenLines, hlines, List.cons_append, fieldStarts,
      if_pos (WrittenField.start_line read first).1, WrittenField.fieldStarts_folds hfolds,
      List.map_cons, hname, ih]
    rfl

theorem isBlank_writtenLines (fields : List WrittenField) :
    ∀ line ∈ writtenLines fields, isBlank line = false := by
  intro line hline
  obtain ⟨f, -, hline⟩ := List.mem_flatMap.mp hline
  obtain ⟨first, folds, hlines, hfolds⟩ := f.lines
  rw [hlines] at hline
  rcases List.mem_cons.mp hline with rfl | hline
  · exact (WrittenField.start_line true first).2
  · obtain ⟨rest, rfl⟩ := List.head?_eq_some_iff.mp (hfolds line hline)
    simp [isBlank]

/-- The header of written fields ends at the empty line behind them. -/
theorem headLines_writtenLines {fields : List WrittenField} (hne : fields ≠ []) (rest : List Bytes) :
    headLines (writtenLines fields ++ [13, 10] :: rest) = writtenLines fields ∧
      restLines (writtenLines fields ++ [13, 10] :: rest) = [13, 10] :: rest := by
  obtain ⟨f, fields, rfl⟩ := List.exists_cons_of_ne_nil hne
  have hblank := isBlank_writtenLines (f :: fields)
  obtain ⟨first, folds, hlines, -⟩ := f.lines
  rw [writtenLines, List.flatMap_cons, ← writtenLines, hlines, List.cons_append] at hblank ⊢
  have hkeep : ∀ line ∈ folds ++ writtenLines fields, (!isBlank line) = true := by
    intro line hline
    rw [hblank line (List.mem_cons_of_mem _ hline)]
    rfl
  have hstop : (!isBlank [13, 10]) = false := rfl
  constructor
  · rw [List.cons_append, headLines, List.takeWhile_append_of_pos hkeep, List.takeWhile_cons, hstop,
      if_neg Bool.false_ne_true, List.append_nil]
  · rw [List.cons_append, restLines, List.tail_cons, List.dropWhile_append_of_pos hkeep,
      List.dropWhile_cons, hstop, if_neg Bool.false_ne_true]

/-- A reader of written fields finds their names, and what stands behind the empty line. -/
theorem splitHeaders_written {fields : List WrittenField} (hne : fields ≠ []) (body : Bytes) :
    (splitHeaders (fields.flatMap WrittenField.written ++ utf8 "\r\n" ++ body)).1.map Prod.fst =
        fields.map WrittenField.name ∧
      (splitHeaders (fields.flatMap WrittenField.written ++ utf8 "\r\n" ++ body)).2 = body := by
  have hsplit : splitInclusive (fields.flatMap WrittenField.written ++ utf8 "\r\n" ++ body) =
      writtenLines fields ++ [13, 10] :: splitInclusive body := by
    have hcrlf : utf8 "\r\n" ++ body = [13] ++ 10 :: body := by
      rw [show utf8 "\r\n" = [13, 10] by decide]
      rfl
    rw [List.append_assoc, splitInclusive_written, hcrlf, splitInclusive_append_lf]
    rfl
  have hlines := isLines_splitInclusive (fields.flatMap WrittenField.written ++ utf8 "\r\n" ++ body)
  have hnames := hlines.names_splitHeaders
  have hbody := congrArg Prod.snd hlines.splitHeaders_flatten
  rw [flatten_splitInclusive, hsplit] at hnames hbody
  obtain ⟨hhead, hrest⟩ := headLines_writtenLines hne (splitInclusive body)
  constructor
  · rw [hnames, shownNames, hhead, fieldStarts_writtenLines]
  · rw [hbody, hrest]
    exact flatten_splitInclusive body

end Written

end Dmtap.Mail
