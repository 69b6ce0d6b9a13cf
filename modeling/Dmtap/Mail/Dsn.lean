import Dmtap.Mail.BodyStructure
import Dmtap.Mail.Rendered
import Dmtap.Mail.Transactions

/-! Delivery status notifications: who is told of a failure, and what a reader makes of the notice. -/
namespace Dmtap.Mail
open Lib

section Blocks

/-- Lines of text, each with its line end. -/
def block (lines : List String) : Bytes := lines.flatMap fun line => utf8 (line ++ "\r\n")

/-- A line that is not empty, and is one line. -/
def IsBlockLine (line : String) : Prop := line ≠ "" ∧ '\n' ∉ line.toList

/-- One line on top of the fields read so far. -/
def readLine (out : List (String × String)) (line : String) : List (String × String) :=
  readHeaderLine out (line ++ "\r")

theorem utf8_crlf : utf8 "\r\n" = [13, 10] := by decide

theorem utf8_ne_nil {s : String} (h : s ≠ "") : utf8 s ≠ [] := by
  intro hnil
  have hchars := fromUtf8_utf8 s
  rw [hnil] at hchars
  exact h (Option.some.inj hchars).symm

theorem splitInclusive_block {lines : List String} (h : ∀ line ∈ lines, IsBlockLine line)
    (rest : Bytes) : splitInclusive (block lines ++ rest) =
      (lines.map fun line => utf8 (line ++ "\r\n")) ++ splitInclusive rest := by
  induction lines with
  | nil => rfl
  | cons line lines ih =>
    obtain ⟨hline, hlines⟩ := List.forall_mem_cons.mp h
    have hlf : 10 ∉ utf8 line ++ [13] := by
      have htext := mt (lf_mem_utf8_iff line).mp hline.2
      simp [htext]
    have hone : utf8 (line ++ "\r\n") = utf8 line ++ [13] ++ [10] := by
      rw [utf8_append, utf8_crlf, List.append_assoc]
      rfl
    have hsplit := splitInclusive_line hlf (block lines ++ rest)
    rw [ih hlines] at hsplit
    unfold block at hsplit ⊢
    rw [List.flatMap_cons, List.map_cons, hone, List.cons_append, ← hsplit]
    simp only [List.append_assoc, List.cons_append, List.nil_append]

theorem isBlank_line {line : String} (h : line ≠ "") : isBlank (utf8 (line ++ "\r\n")) = false := by
  obtain ⟨b, rest, hcons⟩ := List.exists_cons_of_ne_nil (utf8_ne_nil h)
  rw [utf8_append, utf8_crlf, hcons, isBlank, Bool.or_eq_false_iff, beq_eq_false_iff_ne,
    beq_eq_false_iff_ne]
  refine ⟨fun heq => ?_, fun heq => ?_⟩
  · have hlength := congrArg List.length heq
    simp at hlength
  · have hlength := congrArg List.length heq
    simp at hlength

/-- A header of lines ends at the empty line behind them. -/
theorem splitHeaders_block {lines : List String} (hne : lines ≠ [])
    (h : ∀ line ∈ lines, IsBlockLine line) (body : Bytes) :
    splitHeaders (block lines ++ utf8 "\r\n" ++ body) = (parseHeaderBlock (block lines), body) := by
  have hblank : splitInclusive (utf8 "\r\n" ++ body) = [13, 10] :: splitInclusive body := by
    rw [utf8_crlf]
    exact @splitInclusive_line [13] (by decide) body
  have hsplit := splitInclusive_block h (utf8 "\r\n" ++ body)
  rw [hblank] at hsplit
  obtain ⟨line, lines, rfl⟩ := List.exists_cons_of_ne_nil hne
  have hkeep : ∀ line ∈ lines.map (fun line => utf8 (line ++ "\r\n")), (!isBlank line) = true := by
    intro line hline
    obtain ⟨text, htext, rfl⟩ := List.mem_map.mp hline
    rw [isBlank_line (h text (List.mem_cons_of_mem _ htext)).1]
    rfl
  have hstop : (!isBlank [13, 10]) = false := rfl
  have hblock : (utf8 (line ++ "\r\n") :: lines.map fun line => utf8 (line ++ "\r\n")).flatten =
      block (line :: lines) := by
    rw [block, List.flatMap_def, List.map_cons]
  have hread := (isLines_splitInclusive (block (line :: lines) ++ (utf8 "\r\n" ++
    body))).splitHeaders_flatten
  rw [flatten_splitInclusive, hsplit] at hread
  rw [List.append_assoc, hread, List.map_cons, List.cons_append, headLines, restLines, List.tail_cons,
    List.takeWhile_append_of_pos hkeep, List.takeWhile_cons, hstop, if_neg Bool.false_ne_true,
    List.append_nil, List.dropWhile_append_of_pos hkeep, List.dropWhile_cons, hstop,
    if_neg Bool.false_ne_true, List.tail_cons, flatten_splitInclusive, hblock]

theorem parseHeaderBlock_block {lines : List String} (h : ∀ line ∈ lines, IsBlockLine line) :
    parseHeaderBlock (block lines) = lines.foldl readLine [] := by
  have htext : block lines = utf8 (String.ofList (lines.flatMap fun line =>
      line.toList ++ ['\r', '\n'])) := by
    have hcrlf : "\r\n".toList = ['\r', '\n'] := by decide
    rw [utf8_ofList, List.flatMap_assoc]
    refine List.flatMap_congr fun line _ => ?_
    rw [utf8_toList, String.toList_append, hcrlf]
  have hrun (out : List (String × String)) : (split '\n' (String.ofList (lines.flatMap fun line =>
      line.toList ++ ['\r', '\n']))).foldl readHeaderLine out = lines.foldl readLine out := by
    clear htext
    induction lines generalizing out with
    | nil => rfl
    | cons line lines ih =>
      obtain ⟨hline, hlines⟩ := List.forall_mem_cons.mp h
      have hfree : '\n' ∉ line.toList ++ ['\r'] := by simp [hline.2]
      have hsplit := split_cons hfree (lines.flatMap fun line => line.toList ++ ['\r', '\n'])
      have hone : String.ofList (line.toList ++ ['\r']) = line ++ "\r" := by
        rw [← String.toList_inj, String.toList_ofList, String.toList_append]
        rfl
      have hcons : (line :: lines).flatMap (fun line => line.toList ++ ['\r', '\n']) =
          line.toList ++ ['\r'] ++ '\n' :: lines.flatMap fun line => line.toList ++ ['\r', '\n'] := by
        simp
      rw [hcons, hsplit, List.foldl_cons, hone, ih hlines, List.foldl_cons]
      rfl
  unfold parseHeaderBlock headerText
  rw [htext, fromUtf8_utf8, Option.getD_some, hrun]

theorem readLine_field {name value : String} (hname : isFieldName name = true)
    (hvalue : '\n' ∉ value.toList) (out : List (String × String)) :
    readLine out (name ++ ": " ++ value) = out ++ [(name, trim value)] := by
  have hstart := (TextField.oneLine name value hname hvalue).readHeaderLine_start out
  have htext : String.ofList (name.toList ++ ':' :: ' ' :: value.toList ++ ['\r']) =
      name ++ ": " ++ value ++ "\r" := by
    rw [← String.toList_inj]
    simp
  unfold readLine
  rw [← htext]
  simpa [TextField.oneLine] using hstart

theorem readLine_tab (text : String) (out : List (String × String)) (name val : String) :
    readLine (out ++ [(name, val)]) ("\t" ++ text) = out ++ [(name, val ++ " " ++ trim text)] := by
  have hline : ("\t" ++ text ++ "\r").toList = '\t' :: text.toList ++ ['\r'] := by simp
  have hstrip := stripSuffix_cr ('\t' :: text.toList)
  rw [← hline, String.ofList_toList] at hstrip
  have hne : String.ofList ('\t' :: text.toList) ≠ "" := by simp [← String.toList_inj]
  have hindent : ((String.ofList ('\t' :: text.toList)).toList.head? = some ' ' ||
      (String.ofList ('\t' :: text.toList)).toList.head? = some '\t') = true := by
    rw [String.toList_ofList]
    rfl
  have hopen : (out ++ [(name, val)]).isEmpty = false := by simp
  have htrim : trim (String.ofList ('\t' :: text.toList)) = trim text := by
    have htab : isWhitespace '\t' = true := by decide
    rw [← String.toList_inj, toList_trim, toList_trim, String.toList_ofList,
      List.dropWhile_cons_of_pos htab]
  unfold readLine readHeaderLine
  dsimp only
  rw [hstrip, if_neg hne, hindent, hopen, htrim]
  exact List.modifyLast_concat _ _ _

end Blocks
end Dmtap.Mail

namespace Dmtap.Mail.Smtp
open Lib

inductive DsnAction where
  | failed
  | delayed
  | delivered
  | relayed
  | expanded
  deriving DecidableEq

namespace DsnAction

def wire : DsnAction → String
  | failed => "failed"
  | delayed => "delayed"
  | delivered => "delivered"
  | relayed => "relayed"
  | expanded => "expanded"

def human : DsnAction → String
  | failed => "Delivery to the following recipient failed permanently:"
  | delayed => "Delivery to the following recipient has been delayed:"
  | delivered => "Your message was successfully delivered to:"
  | relayed => "Your message was relayed to:"
  | expanded => "Your message was expanded to:"

end DsnAction

structure DsnRecipient where
  address : String
  action : DsnAction
  status : String
  diagnostic : Option String
  deriving DecidableEq

structure DsnReport where
  notifyTo : String
  reportingMta : String
  originalEnvelopeId : Option String
  recipients : List DsnRecipient
  originalMessage : Bytes
  ret : Ret
  arrival : ℕ
  deriving DecidableEq

/-- Whether a NOTIFY value asks to be told of a failure. No value does; NEVER among the others wins. -/
def wantsFailureDsn : Option String → Bool
  | none => true
  | some v =>
    let asked := (split ',' v.toUpper).map trim
    if asked.contains "NEVER" then false else asked.contains "FAILURE"

namespace DsnReport

/-- The notice of a failure, if a recipient asks for one. A recipient without a NOTIFY of its own is
taken to have none. -/
def failureFor (sub : Submission) (reportingMta status : String) (diagnostic : Option String)
    (now : ℕ) : Option DsnReport :=
  let notified := sub.dsnNotify ++ List.replicate sub.rcptTo.length none
  let recipients := ((sub.rcptTo.zip notified).filter fun p => wantsFailureDsn p.2).map fun p =>
    (⟨p.1, .failed, status, diagnostic⟩ : DsnRecipient)
  if recipients.isEmpty then none
  else some ⟨sub.mailFrom, reportingMta, sub.envid, recipients, sub.data, sub.ret.getD .headers, now⟩

section Render
variable (blake3 : Bytes → Digest) (report : DsnReport)

def stableTag (b : Bytes) : Bytes := (ContentId.of blake3 b).digest.take 8

def boundary : String := "=_dsn_" ++ hex (stableTag blake3 report.originalMessage)

def overall : String :=
  if report.recipients.all fun r => r.action = .delivered then "Delivered"
  else if report.recipients.any fun r => r.action = .failed then "Failure"
  else "Delayed"

/-- The fields of the notice in front of its Content-Type. -/
def headText : String :=
  headerLine "From" ("Mail Delivery System <postmaster@" ++ report.reportingMta ++ ">") ++
    headerLine "To" ("<" ++ report.notifyTo ++ ">") ++
    headerLine "Subject" ("Delivery Status Notification (" ++ report.overall ++ ")") ++
    headerLine "Date" (formatRfc5322Date report.arrival) ++ headerLine "MIME-Version" "1.0" ++
    headerLine "Auto-Submitted" "auto-replied"

def humanText : String :=
  "This is an automatically generated Delivery Status Notification.\r\n\r\n" ++
    String.join (report.recipients.map fun r =>
      r.action.human ++ "\r\n  " ++ r.address ++ " (status " ++ r.status ++ ")\r\n" ++
        ((r.diagnostic.map fun d => "  " ++ d ++ "\r\n").getD ""))

/-- The fields of one recipient. -/
def recipientText (r : DsnRecipient) : String :=
  headerLine "Original-Recipient" ("rfc822;" ++ r.address) ++
    headerLine "Final-Recipient" ("rfc822;" ++ r.address) ++ headerLine "Action" r.action.wire ++
    headerLine "Status" r.status ++
    ((r.diagnostic.map fun d => headerLine "Diagnostic-Code" ("smtp; " ++ d)).getD "")

def statusText : String :=
  headerLine "Reporting-MTA" ("dns; " ++ report.reportingMta) ++
    ((report.originalEnvelopeId.map fun envid => headerLine "Original-Envelope-Id" envid).getD "") ++
    headerLine "Arrival-Date" (formatRfc5322Date report.arrival) ++
    String.join (report.recipients.map fun r => "\r\n" ++ recipientText r)

/-- The message that is returned, or its header block. -/
def returned : Bytes :=
  match report.ret with
  | .full => report.originalMessage
  | .headers => (headerAndBody report.originalMessage).1

def returnedType : String :=
  match report.ret with
  | .full => "message/rfc822"
  | .headers => "text/rfc822-headers"

def render : Bytes :=
  let b := report.boundary blake3
  let m := report.headText ++
    "Content-Type: multipart/report; report-type=delivery-status;\r\n\tboundary=\"" ++ b ++
    "\"\r\n\r\n" ++
    "--" ++ b ++ "\r\n" ++ headerLine "Content-Type" "text/plain; charset=utf-8" ++ "\r\n" ++
    report.humanText ++ "\r\n" ++
    "--" ++ b ++ "\r\n" ++ headerLine "Content-Type" "message/delivery-status" ++ "\r\n" ++
    report.statusText ++ "\r\n" ++
    "--" ++ b ++ "\r\n"
  let bytes := utf8 m ++ (utf8 (headerLine "Content-Type" report.returnedType ++ "\r\n") ++
    report.returned)
  let bytes := if [13, 10] <:+ bytes then bytes else bytes ++ [13, 10]
  bytes ++ utf8 ("--" ++ b ++ "--\r\n")

end Render
section Reading
variable (blake3 : Bytes → Digest) (report : DsnReport)

def field (name value : String) : String := name ++ ": " ++ value

/-- The lines of the header in front of its Content-Type. -/
def headFields : List (String × String) :=
  [("From", "Mail Delivery System <postmaster@" ++ report.reportingMta ++ ">"),
    ("To", "<" ++ report.notifyTo ++ ">"),
    ("Subject", "Delivery Status Notification (" ++ report.overall ++ ")"),
    ("Date", formatRfc5322Date report.arrival), ("MIME-Version", "1.0"),
    ("Auto-Submitted", "auto-replied")]

def statusFields : List (String × String) :=
  [("Reporting-MTA", "dns; " ++ report.reportingMta)] ++
    (report.originalEnvelopeId.map fun envid => ("Original-Envelope-Id", envid)).toList ++
    [("Arrival-Date", formatRfc5322Date report.arrival)]

def recipientFields (r : DsnRecipient) : List (String × String) :=
  [("Original-Recipient", "rfc822;" ++ r.address), ("Final-Recipient", "rfc822;" ++ r.address),
    ("Action", r.action.wire), ("Status", r.status)] ++
    (r.diagnostic.map fun d => ("Diagnostic-Code", "smtp; " ++ d)).toList

/-- Fields as they are written. -/
def fieldBlock (fields : List (String × String)) : Bytes := block (fields.map fun f => field f.1 f.2)

/-- Fields as they are read. -/
def shownFields (fields : List (String × String)) : List (String × String) :=
  fields.map fun f => (f.1, trim f.2)

/-- Fields that may be written: named as fields are, and each on one line. -/
def AreFields (fields : List (String × String)) : Prop :=
  ∀ f ∈ fields, isFieldName f.1 = true ∧ '\n' ∉ f.2.toList

theorem AreFields.nil : AreFields [] := fun _ hf => absurd hf List.not_mem_nil

theorem AreFields.cons {name value : String} {fields : List (String × String)}
    (hname : isFieldName name = true) (hvalue : '\n' ∉ value.toList) (h : AreFields fields) :
    AreFields ((name, value) :: fields) :=
  List.forall_mem_cons.mpr ⟨⟨hname, hvalue⟩, h⟩

theorem AreFields.append {fields more : List (String × String)} (h : AreFields fields)
    (hmore : AreFields more) : AreFields (fields ++ more) := fun f hf =>
  (List.mem_append.mp hf).elim (h f) (hmore f)

/-- A field that need not be there. -/
theorem AreFields.optional {name : String} {value : Option String} {f : String → String}
    (hname : isFieldName name = true) (hvalue : ∀ v, value = some v → '\n' ∉ (f v).toList) :
    AreFields (value.map fun v => (name, f v)).toList := by
  cases value with
  | none => exact .nil
  | some v => exact .cons hname (hvalue v rfl) .nil

theorem isBlockLine_field {name value : String} (hname : isFieldName name = true)
    (hvalue : '\n' ∉ value.toList) : IsBlockLine (field name value) := by
  have hok := hname
  rw [isFieldName, Bool.and_eq_true] at hok
  have hlf : '\n' ∉ name.toList := by
    intro hmem
    have hchar := List.all_eq_true.mp hok.2 '\n' hmem
    exact absurd hchar (by decide)
  refine ⟨?_, ?_⟩
  · intro hempty
    have hchars := congrArg String.toList hempty
    simp [field] at hchars
  · unfold field
    simp [hlf, hvalue]

theorem AreFields.lines {fields : List (String × String)} (h : AreFields fields) :
    ∀ line ∈ fields.map (fun f => field f.1 f.2), IsBlockLine line := by
  intro line hline
  obtain ⟨f, hf, rfl⟩ := List.mem_map.mp hline
  exact isBlockLine_field (h f hf).1 (h f hf).2

theorem foldl_fields {fields : List (String × String)} (h : AreFields fields)
    (out : List (String × String)) :
    (fields.map fun f => field f.1 f.2).foldl readLine out = out ++ shownFields fields := by
  induction fields generalizing out with
  | nil => simp [shownFields]
  | cons f fields ih =>
    obtain ⟨hf, hfields⟩ := List.forall_mem_cons.mp h
    rw [List.map_cons, List.foldl_cons, field, readLine_field hf.1 hf.2, ih hfields]
    simp [shownFields]

/-- Fields are read back as they were written. -/
theorem splitHeaders_fields {fields : List (String × String)} (hne : fields ≠ [])
    (h : AreFields fields) (body : Bytes) :
    splitHeaders (fieldBlock fields ++ utf8 "\r\n" ++ body) = (shownFields fields, body) := by
  have hlines : (fields.map fun f => field f.1 f.2) ≠ [] := by simpa using hne
  rw [fieldBlock, splitHeaders_block hlines h.lines, parseHeaderBlock_block h.lines, foldl_fields h,
    List.nil_append]

theorem fieldBlock_append (fields more : List (String × String)) :
    fieldBlock (fields ++ more) = fieldBlock fields ++ fieldBlock more := by
  unfold fieldBlock block
  rw [List.map_append, List.flatMap_append]

theorem utf8_headerLine (name value : String) :
    utf8 (headerLine name value) = fieldBlock [(name, value)] := by
  simp [fieldBlock, block, field, headerLine]

theorem utf8_headText : utf8 report.headText = fieldBlock report.headFields := by
  unfold headText
  simp only [utf8_append, utf8_headerLine, ← fieldBlock_append]
  rfl

theorem utf8_recipientText (r : DsnRecipient) :
    utf8 (recipientText r) = fieldBlock (recipientFields r) := by
  unfold recipientText recipientFields
  cases r.diagnostic with
  | none =>
    have hempty : utf8 "" = fieldBlock [] := rfl
    simp only [Option.map_none, Option.getD_none, Option.toList_none, utf8_append, utf8_headerLine,
      hempty, ← fieldBlock_append]
    rfl
  | some d =>
    simp only [Option.map_some, Option.getD_some, Option.toList_some, utf8_append, utf8_headerLine,
      ← fieldBlock_append]
    rfl

theorem utf8_join (l : List String) : utf8 (String.join l) = l.flatMap utf8 := by
  induction l with
  | nil => rfl
  | cons s l ih => simp [utf8_append, ih]

theorem utf8_statusText : utf8 report.statusText =
    fieldBlock report.statusFields ++ report.recipients.flatMap fun r =>
      utf8 "\r\n" ++ fieldBlock (recipientFields r) := by
  have hrecipients : utf8 (String.join (report.recipients.map fun r => "\r\n" ++ recipientText r)) =
      report.recipients.flatMap fun r => utf8 "\r\n" ++ fieldBlock (recipientFields r) := by
    rw [utf8_join, List.flatMap_map]
    exact List.flatMap_congr fun r _ => by rw [utf8_append, utf8_recipientText]
  have hfields : utf8 (headerLine "Reporting-MTA" ("dns; " ++ report.reportingMta) ++
      ((report.originalEnvelopeId.map fun envid => headerLine "Original-Envelope-Id" envid).getD "") ++
      headerLine "Arrival-Date" (formatRfc5322Date report.arrival)) =
        fieldBlock report.statusFields := by
    have hempty : utf8 "" = fieldBlock [] := rfl
    unfold statusFields
    cases report.originalEnvelopeId <;>
      simp only [Option.map_none, Option.map_some, Option.getD_none, Option.getD_some,
        Option.toList_none, Option.toList_some, utf8_append, utf8_headerLine, hempty,
        fieldBlock_append]
  rw [statusText, utf8_append, hfields, hrecipients]

/-- The fields and the body of a part, with the line end that is written behind it. -/
def closedPart (mime : String) (body : Bytes) : Bytes :=
  fieldBlock [("Content-Type", mime)] ++ utf8 "\r\n" ++ body

/-- What is returned, on lines. -/
def closedReturned : Bytes :=
  if report.returned = [] ∨ [13, 10] <:+ report.returned then report.returned
  else report.returned ++ [13, 10]

/-- The parts of the notice, each without the line end behind it. -/
def parts : List Bytes :=
  [closedPart "text/plain; charset=utf-8" (utf8 report.humanText),
    closedPart "message/delivery-status" (utf8 report.statusText),
    (closedPart report.returnedType report.closedReturned).dropLast.dropLast]

theorem suffix_append_iff {a b c : Bytes} (h : a.length ≤ c.length) : a <:+ b ++ c ↔ a <:+ c :=
  ⟨fun hab => List.suffix_of_suffix_length_le hab (List.suffix_append b c) h,
    fun hac => hac.trans (List.suffix_append b c)⟩

theorem closedPart_suffix (mime : String) (body : Bytes) :
    [13, 10] <:+ closedPart mime body ↔ body = [] ∨ [13, 10] <:+ body := by
  unfold closedPart
  rw [utf8_crlf]
  cases body with
  | nil => simp [List.suffix_append]
  | cons b rest =>
    cases rest with
    | nil =>
      have hone : ¬([13, 10] : Bytes) <:+ [b] := by
        intro hsuffix
        have hlength := hsuffix.length_le
        simp at hlength
      have htwo : ¬([13, 10] : Bytes) <:+ fieldBlock [("Content-Type", mime)] ++ [13, 10, b] := by
        intro hsuffix
        have hshort : ([13, 10] : Bytes) <:+ [10, b] := by
          refine List.suffix_of_suffix_length_le hsuffix ?_ (by simp)
          exact ⟨fieldBlock [("Content-Type", mime)] ++ [13], by simp⟩
        have heq := hshort.eq_of_length rfl
        exact absurd (List.cons.inj heq).1 (by decide)
      simp [hone, htwo]
    | cons c rest =>
      rw [suffix_append_iff (by simp)]
      simp

/-- A part that ends a line is what is in front of the line end, and the line end. -/
theorem dropLast_lineEnd {b : Bytes} (h : [13, 10] <:+ b) : b.dropLast.dropLast ++ lineEnd = b := by
  obtain ⟨front, rfl⟩ := h
  have hlast : front ++ [13, 10] = front ++ [13] ++ [10] := by simp
  rw [hlast, List.dropLast_concat, List.dropLast_concat, List.append_assoc]
  rfl

theorem closed_returned_suffix :
    [13, 10] <:+ closedPart report.returnedType report.closedReturned := by
  rw [closedPart_suffix]
  unfold closedReturned
  split_ifs with h
  · exact h
  · exact Or.inr (List.suffix_append _ _)

/-- The lines of the header. -/
def headLines : List String :=
  report.headFields.map (fun f => field f.1 f.2) ++
    ["Content-Type: multipart/report; report-type=delivery-status;",
      "\t" ++ ("boundary=\"" ++ report.boundary blake3 ++ "\"")]

theorem two_le_length_closedPart (mime : String) (body : Bytes) :
    ([13, 10] : Bytes).length ≤ (closedPart mime body).length := by
  unfold closedPart
  rw [utf8_crlf, List.length_append, List.length_append]
  omega

/-- However the message returned ends, the last part ends a line. -/
theorem closed_bytes (m : Bytes) :
    (if [13, 10] <:+ m ++ closedPart report.returnedType report.returned then
      m ++ closedPart report.returnedType report.returned
    else m ++ closedPart report.returnedType report.returned ++ [13, 10]) =
      m ++ closedPart report.returnedType report.closedReturned := by
  have hsuffix := suffix_append_iff (b := m)
    (two_le_length_closedPart report.returnedType report.returned)
  rw [closedPart_suffix] at hsuffix
  unfold closedReturned
  by_cases h : report.returned = [] ∨ [13, 10] <:+ report.returned
  · rw [if_pos (hsuffix.mpr h), if_pos h]
  · rw [if_neg (mt hsuffix.mp h), if_neg h]
    simp [closedPart]

theorem render_eq : report.render blake3 = block (report.headLines blake3) ++ utf8 "\r\n" ++
    assembled (report.boundary blake3) report.parts := by
  have hopen : "Content-Type: multipart/report; report-type=delivery-status;\r\n\tboundary=\"" =
      "Content-Type: multipart/report; report-type=delivery-status;" ++ "\r\n" ++ "\t" ++
        "boundary=\"" := by decide
  have hclose : "\"\r\n\r\n" = "\"" ++ "\r\n" ++ "\r\n" := by decide
  have hend : utf8 "\r\n" = lineEnd := utf8_crlf
  have hlast (rest : Bytes) : (closedPart report.returnedType
      report.closedReturned).dropLast.dropLast ++ (lineEnd ++ rest) =
        closedPart report.returnedType report.closedReturned ++ rest := by
    rw [← List.append_assoc, dropLast_lineEnd report.closed_returned_suffix]
  have hreturned : utf8 (headerLine "Content-Type" report.returnedType ++ "\r\n") ++ report.returned =
      closedPart report.returnedType report.returned := by
    rw [utf8_append, utf8_headerLine]
    rfl
  have hhead : block (report.headLines blake3) = fieldBlock report.headFields ++
      (utf8 ("Content-Type: multipart/report; report-type=delivery-status;" ++ "\r\n") ++
        utf8 ("\t" ++ ("boundary=\"" ++ report.boundary blake3 ++ "\"") ++ "\r\n")) := by
    simp [block, headLines, fieldBlock]
  unfold render
  dsimp only
  have hdashes : "--\r\n" = "--" ++ "\r\n" := by decide
  rw [hreturned, closed_bytes, hhead, hopen, hclose, hdashes]
  unfold assembled parts delimiter
  simp only [List.flatMap_cons, List.flatMap_nil, List.append_assoc, List.nil_append, hlast]
  simp only [closedPart, utf8_append, utf8_headerLine, utf8_headText, hend, List.append_assoc]

/-- What the notice says in its fields is on one line each. -/
structure OneLine : Prop where
  mta : '\n' ∉ report.reportingMta.toList
  sender : '\n' ∉ report.notifyTo.toList
  envid : ∀ envid, report.originalEnvelopeId = some envid → '\n' ∉ envid.toList
  recipients : ∀ r ∈ report.recipients, '\n' ∉ r.address.toList ∧ '\n' ∉ r.status.toList ∧
    ∀ d, r.diagnostic = some d → '\n' ∉ d.toList

variable {report} (h : report.OneLine)
include h

theorem OneLine.headFields : AreFields report.headFields := by
  have hoverall : '\n' ∉ report.overall.toList := by
    unfold overall
    split_ifs <;> decide
  refine .cons (by decide) (by simp [h.mta]) (.cons (by decide) (by simp [h.sender]) ?_)
  refine .cons (by decide) (by simp [hoverall]) ?_
  refine .cons (by decide) (lf_not_mem_formatRfc5322Date _) ?_
  exact .cons (by decide) (by decide) (.cons (by decide) (by decide) .nil)

theorem OneLine.statusFields : AreFields report.statusFields := by
  refine AreFields.append (.append ?_ ?_) ?_
  · exact .cons (by decide) (by simp [h.mta]) .nil
  · exact @AreFields.optional _ _ id (by decide) h.envid
  · exact .cons (by decide) (lf_not_mem_formatRfc5322Date _) .nil

theorem OneLine.recipientFields {r : DsnRecipient} (hr : r ∈ report.recipients) :
    AreFields (DsnReport.recipientFields r) := by
  obtain ⟨haddress, hstatus, hdiagnostic⟩ := h.recipients r hr
  have hwire : '\n' ∉ r.action.wire.toList := by cases r.action <;> decide
  refine AreFields.append ?_ (.optional (by decide) fun d hd => by simp [hdiagnostic d hd])
  refine .cons (by decide) (by simp [haddress]) (.cons (by decide) (by simp [haddress]) ?_)
  exact .cons (by decide) hwire (.cons (by decide) hstatus .nil)

end Reading

section Boundary
variable (blake3 : Bytes → Digest) (report : DsnReport)

/-- The boundary is of letters that stand for themselves in a parameter. -/
theorem allChars_boundary : AllChars (fun c => isWhitespace c = false ∧ c ≠ ';' ∧ c ≠ '"' ∧ c ≠ '\r')
    (report.boundary blake3) := by
  have hdigit : ∀ n, isWhitespace (hexDigit n) = false ∧ hexDigit n ≠ ';' ∧ hexDigit n ≠ '"' ∧
      hexDigit n ≠ '\r' :=
    forall_getD (P := fun c => isWhitespace c = false ∧ c ≠ ';' ∧ c ≠ '"' ∧ c ≠ '\r') (by decide)
      (by decide)
  refine AllChars.append (by unfold AllChars; decide) ?_
  intro c hc
  rw [hex, String.toList_ofList, List.mem_flatMap] at hc
  obtain ⟨x, -, hx⟩ := hc
  simp only [List.mem_cons, List.not_mem_nil, or_false] at hx
  rcases hx with rfl | rfl
  · exact hdigit _
  · exact hdigit _

/-- The Content-Type of a notice as it is read. -/
def noticeType : String :=
  "multipart/report; report-type=delivery-status; boundary=\"" ++ report.boundary blake3 ++ "\""

theorem trimMatches_quoted {cs : List Char} (hne : cs ≠ []) (h : ∀ c ∈ cs, c ≠ '"') :
    trimMatches '"' ('"' :: cs ++ ['"']) = cs :=
  dropWhile_ends (a := ['"']) (b := ['"']) (by simp) (by simp) (List.head?_eq_some_head hne)
    (beq_eq_false_iff_ne.mpr (h _ (List.head_mem hne))) (List.getLast?_eq_some_getLast hne)
    (beq_eq_false_iff_ne.mpr (h _ (List.getLast_mem hne)))

theorem parseContentType_notice : parseContentType (noticeType blake3 report) =
    ("multipart", "report", [("report-type", "delivery-status"),
      ("boundary", report.boundary blake3)]) := by
  have hchars := report.allChars_boundary blake3
  obtain ⟨third, hparam⟩ : ∃ third, third = " boundary=\"" ++ report.boundary blake3 ++ "\"" :=
    ⟨_, rfl⟩
  have htext : noticeType blake3 report = String.ofList ("multipart/report".toList ++ ';' ::
      (" report-type=delivery-status".toList ++ ';' :: third.toList)) := by
    have hopen : "multipart/report; report-type=delivery-status; boundary=\"" =
        "multipart/report" ++ ";" ++ " report-type=delivery-status" ++ ";" ++ " boundary=\"" := by
      decide
    have hsemicolon : ";".toList = [';'] := by decide
    unfold noticeType
    rw [hopen, hparam, ← String.toList_inj, String.toList_ofList]
    simp only [String.toList_append, hsemicolon, List.append_assoc, List.cons_append,
      List.nil_append]
  have hlast : ';' ∉ third.toList := by
    have hfree : ';' ∉ (report.boundary blake3).toList := fun hmem => (hchars ';' hmem).2.1 rfl
    simp [hparam, hfree]
  have hparts : split ';' (noticeType blake3 report) =
      ["multipart/report", " report-type=delivery-status", third] := by
    have hfirst : ';' ∉ "multipart/report".toList := by decide
    have hnext : ';' ∉ " report-type=delivery-status".toList := by decide
    rw [htext, split_cons hfirst, split_cons hnext, split_last hlast]
    simp only [String.ofList_toList]
  have hsecond : (splitOnce '=' " report-type=delivery-status").map (fun kv =>
      ((trim kv.1).toLower, String.ofList (trimMatches '"' (trim kv.2).toList))) =
        some ("report-type", "delivery-status") := by
    have hcut : splitOnce '=' " report-type=delivery-status" =
        some (" report-type", "delivery-status") := by decide
    have hname : (trim " report-type").toLower = "report-type" := toLower_of_toList (by decide)
    have hvalue : String.ofList (trimMatches '"' (trim "delivery-status").toList) =
        "delivery-status" := by decide
    rw [hcut, Option.map_some, hname, hvalue]
  have hthird : (splitOnce '=' third).map (fun kv =>
      ((trim kv.1).toLower, String.ofList (trimMatches '"' (trim kv.2).toList))) =
        some ("boundary", report.boundary blake3) := by
    have hcut : third = String.ofList (" boundary".toList ++ '=' ::
        ('"' :: (report.boundary blake3).toList ++ ['"'])) := by
      have hopen : " boundary=\"" = " boundary" ++ "=" ++ "\"" := by decide
      have hequals : "=".toList = ['='] := by decide
      have hquote : "\"".toList = ['"'] := by decide
      rw [← String.toList_inj, String.toList_ofList, hparam, hopen]
      simp only [String.toList_append, hequals, hquote, List.append_assoc,
        List.cons_append, List.nil_append]
    have hname : (trim (String.ofList " boundary".toList)).toLower = "boundary" := toLower_of_toList (by decide)
    have hne : (report.boundary blake3).toList ≠ [] := by simp [boundary]
    have hself : trim (String.ofList ('"' :: (report.boundary blake3).toList ++ ['"'])) =
        String.ofList ('"' :: (report.boundary blake3).toList ++ ['"']) := by
      refine trim_eq_self fun c hc => ?_
      simp only [List.cons_append, List.mem_cons, List.mem_append, List.not_mem_nil, or_false] at hc
      rcases hc with rfl | hc | rfl
      · decide
      · exact (hchars c hc).1
      · decide
    rw [hcut, splitOnce_append (by decide), Option.map_some]
    dsimp only
    rw [hname, hself, String.toList_ofList, trimMatches_quoted hne fun c hc =>
      (hchars c hc).2.2.1, String.ofList_toList]
  have htypes : (splitOnce '/' (trim "multipart/report")).getD ("text", "plain") =
      ("multipart", "report") := by decide
  have hlower : (trim "multipart").toLower = "multipart" ∧ (trim "report").toLower = "report" :=
    ⟨toLower_of_toList (by decide), toLower_of_toList (by decide)⟩
  unfold parseContentType
  rw [hparts]
  dsimp only [List.headD_cons, List.tail_cons]
  rw [htypes, List.filterMap_cons, hsecond, List.filterMap_cons, hthird, List.filterMap_nil,
    hlower.1, hlower.2]

end Boundary

section Notice
variable {blake3 : Bytes → Digest} {report : DsnReport}

theorem splitHeaders_render (h : report.OneLine) : splitHeaders (report.render blake3) =
    (shownFields report.headFields ++ [("Content-Type", noticeType blake3 report)],
      assembled (report.boundary blake3) report.parts) := by
  have hchars := report.allChars_boundary blake3
  have hfolded : '\n' ∉ ("\t" ++ ("boundary=\"" ++ report.boundary blake3 ++ "\"")).toList := by
    have hfree : '\n' ∉ (report.boundary blake3).toList := fun hmem =>
      absurd (hchars '\n' hmem).1 (by decide)
    simp [hfree]
  have hlines : ∀ line ∈ report.headLines blake3, IsBlockLine line := by
    refine List.forall_mem_append.mpr ⟨h.headFields.lines, List.forall_mem_cons.mpr ⟨⟨by decide,
      by decide⟩, List.forall_mem_cons.mpr ⟨⟨?_, hfolded⟩, fun _ hnil => absurd hnil
        List.not_mem_nil⟩⟩⟩
    intro hempty
    have hchars := congrArg String.toList hempty
    simp at hchars
  have hne : report.headLines blake3 ≠ [] :=
    List.append_ne_nil_of_right_ne_nil _ (List.cons_ne_nil _ _)
  have hfirst (out : List (String × String)) :
      readLine out "Content-Type: multipart/report; report-type=delivery-status;" =
        out ++ [("Content-Type", "multipart/report; report-type=delivery-status;")] := by
    have htrim : trim "multipart/report; report-type=delivery-status;" =
        "multipart/report; report-type=delivery-status;" := by decide
    have hread := @readLine_field "Content-Type" "multipart/report; report-type=delivery-status;"
      (by decide) (by decide) out
    rw [htrim] at hread
    exact hread
  have htrim : trim ("boundary=\"" ++ report.boundary blake3 ++ "\"") =
      "boundary=\"" ++ report.boundary blake3 ++ "\"" := by
    refine Unblank.trimmed (AllChars.append (AllChars.append ?_ fun c hc => (hchars c hc).1) ?_)
    · unfold AllChars
      decide
    · unfold AllChars
      decide
  have hvalue : "multipart/report; report-type=delivery-status;" ++ " " ++
      ("boundary=\"" ++ report.boundary blake3 ++ "\"") = noticeType blake3 report := by
    have hopen : "multipart/report; report-type=delivery-status; boundary=\"" =
        "multipart/report; report-type=delivery-status;" ++ " " ++ "boundary=\"" := by
      decide
    unfold noticeType
    rw [hopen]
    simp only [String.append_assoc]
  rw [render_eq, splitHeaders_block hne hlines, parseHeaderBlock_block hlines, headLines,
    List.foldl_append, foldl_fields h.headFields, List.foldl_cons, hfirst, List.foldl_cons,
    readLine_tab, List.foldl_nil, htrim, List.nil_append, hvalue]

/-- The fields of a delivery status, one block after the other. -/
def readStatus : ℕ → Bytes → List (List (String × String))
  | 0, _ => []
  | n + 1, body => (splitHeaders body).1 :: readStatus n (splitHeaders body).2

theorem readStatus_blocks {fields : List (String × String)} (hne : fields ≠ [])
    (h : AreFields fields) {recipients : List DsnRecipient}
    (hrecipients : ∀ r ∈ recipients, AreFields (recipientFields r)) :
    readStatus (recipients.length + 1) (fieldBlock fields ++ (recipients.flatMap fun r =>
        utf8 "\r\n" ++ fieldBlock (recipientFields r)) ++ utf8 "\r\n") =
      shownFields fields :: recipients.map fun r => shownFields (recipientFields r) := by
  induction recipients generalizing fields with
  | nil =>
    have hread := splitHeaders_fields hne h []
    rw [List.append_nil] at hread
    rw [List.flatMap_nil, List.append_nil, readStatus, hread]
    rfl
  | cons r recipients ih =>
    obtain ⟨hr, hlater⟩ := List.forall_mem_cons.mp hrecipients
    have hnext := @ih (recipientFields r) (List.cons_ne_nil _ _) hr hlater
    have hread := splitHeaders_fields hne h (fieldBlock (recipientFields r) ++
      (recipients.flatMap fun r => utf8 "\r\n" ++ fieldBlock (recipientFields r)) ++ utf8 "\r\n")
    have hbody : fieldBlock fields ++ ((r :: recipients).flatMap fun r =>
        utf8 "\r\n" ++ fieldBlock (recipientFields r)) ++ utf8 "\r\n" =
          fieldBlock fields ++ utf8 "\r\n" ++ (fieldBlock (recipientFields r) ++
            (recipients.flatMap fun r => utf8 "\r\n" ++ fieldBlock (recipientFields r)) ++
              utf8 "\r\n") := by
      simp only [List.flatMap_cons, List.append_assoc]
    rw [hbody, List.length_cons, readStatus, hread, hnext, List.map_cons]

theorem contentType_notice : contentType (shownFields report.headFields ++
      [("Content-Type", noticeType blake3 report)]) =
    ("multipart", "report", [("report-type", "delivery-status"),
      ("boundary", report.boundary blake3)]) := by
  have hlower : ∀ name ∈ ["From", "To", "Subject", "Date", "MIME-Version", "Auto-Submitted"],
      eqIgnoreAsciiCase name "Content-Type" = false := by
    intro name hname
    rw [Bool.eq_false_iff, Ne, eqIgnoreAsciiCase_iff]
    exact (by decide : ∀ name ∈ ["From", "To", "Subject", "Date", "MIME-Version",
      "Auto-Submitted"], ¬name.toList.map Char.toLower = "Content-Type".toList.map Char.toLower) name
        hname
  have hself : eqIgnoreAsciiCase "Content-Type" "Content-Type" = true := by
    rw [eqIgnoreAsciiCase_iff]
  simp only [List.forall_mem_cons, List.not_mem_nil, false_implies, implies_true, and_true] at hlower
  have hvalue : headerVal (shownFields report.headFields ++
      [("Content-Type", noticeType blake3 report)]) "Content-Type" =
        some (noticeType blake3 report) := by
    simp [shownFields, headFields, headerVal_cons, hlower, hself]
  unfold contentType
  rw [hvalue, Option.getD_some, parseContentType_notice]

theorem splitHeaders_closedPart {mime : String} (hmime : '\n' ∉ mime.toList) (body : Bytes) :
    splitHeaders (closedPart mime body) = ([("Content-Type", trim mime)], body) := by
  have hfields : AreFields [("Content-Type", mime)] := .cons (by decide) hmime .nil
  exact splitHeaders_fields (List.cons_ne_nil _ _) hfields body

theorem structureOf_closedPart {mime : String} (hmime : '\n' ∉ mime.toList)
    (hsingle : (parseContentType (trim mime)).1 ≠ "multipart") (body : Bytes) :
    structureOf (closedPart mime body) = singlePart [("Content-Type", trim mime)] body := by
  have hself : eqIgnoreAsciiCase "Content-Type" "Content-Type" = true := by
    rw [eqIgnoreAsciiCase_iff]
  have htype : contentType [("Content-Type", trim mime)] = parseContentType (trim mime) := by
    unfold contentType
    rw [headerVal_cons, hself, if_pos rfl, Option.getD_some]
  rw [structureOf_eq, splitHeaders_closedPart hmime]
  dsimp only
  rw [htype, if_neg hsingle]

/-- The types of the parts of a notice are what a reader makes of them. -/
theorem trim_partType : ∀ mime ∈ ["text/plain; charset=utf-8", "message/delivery-status",
    "message/rfc822", "text/rfc822-headers"], '\n' ∉ mime.toList ∧ trim mime = mime ∧
      (parseContentType mime).1 ≠ "multipart" := by
  decide +kernel

theorem structureOf_partType {mime : String} (h : mime ∈ ["text/plain; charset=utf-8",
    "message/delivery-status", "message/rfc822", "text/rfc822-headers"]) (body : Bytes) :
    structureOf (closedPart mime body) = singlePart [("Content-Type", mime)] body := by
  obtain ⟨hline, htrim, hsingle⟩ := trim_partType mime h
  have hstructure := structureOf_closedPart hline (by rwa [htrim]) body
  rwa [htrim] at hstructure

theorem delimits_boundary (hapart : ∀ part ∈ report.parts,
    ¬delimiter (report.boundary blake3) <:+: part) :
    Delimits (report.boundary blake3) report.parts := by
  have hchars := report.allChars_boundary blake3
  refine ⟨fun hempty => ?_, fun hmem => ?_, hapart⟩
  · have hnil := congrArg String.toList hempty
    simp [boundary] at hnil
  · have hcr : '\r' ∈ ("--" ++ report.boundary blake3).toList := by
      rw [delimiter, utf8_toList] at hmem
      exact (keepsAscii_utf8.mem_flatMap_iff (c := '\r') (by decide)).mp hmem
    rw [String.toList_append, List.mem_append] at hcr
    rcases hcr with hcr | hcr
    · exact absurd hcr (by decide)
    · exact (hchars '\r' hcr).2.2.2 rfl

theorem partSegments_render (h : report.OneLine) (hapart : ∀ part ∈ report.parts,
    ¬delimiter (report.boundary blake3) <:+: part) : partSegments (report.render blake3) =
      [closedPart "text/plain; charset=utf-8" (utf8 (report.humanText ++ "\r\n")),
        closedPart "message/delivery-status" (utf8 (report.statusText ++ "\r\n")),
        closedPart report.returnedType report.closedReturned] := by
  have hsplit := splitMultipart_assembled (delimits_boundary hapart)
  have hpart (mime text : String) : closedPart mime (utf8 text) ++ lineEnd =
      closedPart mime (utf8 (text ++ "\r\n")) := by
    unfold closedPart
    rw [utf8_append text, utf8_crlf, List.append_assoc]
    rfl
  have hfound : [("report-type", "delivery-status"), ("boundary", report.boundary blake3)].find?
      (fun kv => kv.1 = "boundary") = some ("boundary", report.boundary blake3) := rfl
  unfold partSegments
  dsimp only
  rw [splitHeaders_render h]
  dsimp only
  rw [contentType_notice]
  dsimp only
  rw [if_neg (by decide), hfound]
  dsimp only
  rw [hsplit, parts, List.map_cons, List.map_cons, List.map_cons, List.map_nil, hpart, hpart,
    dropLast_lineEnd report.closed_returned_suffix]

theorem structureOf_render (h : report.OneLine) (hapart : ∀ part ∈ report.parts,
    ¬delimiter (report.boundary blake3) <:+: part) :
    structureOf (report.render blake3) = .multipart "report"
      [singlePart [("Content-Type", "text/plain; charset=utf-8")]
          (utf8 (report.humanText ++ "\r\n")),
        singlePart [("Content-Type", "message/delivery-status")]
          (utf8 (report.statusText ++ "\r\n")),
        singlePart [("Content-Type", report.returnedType)] report.closedReturned]
      [("report-type", "delivery-status"), ("boundary", report.boundary blake3)] := by
  have hreturned : report.returnedType ∈ ["text/plain; charset=utf-8", "message/delivery-status",
      "message/rfc822", "text/rfc822-headers"] := by
    unfold returnedType
    cases report.ret <;> decide
  rw [structureOf_eq, splitHeaders_render h, contentType_notice, if_pos rfl,
    partSegments_render h hapart, List.map_cons, List.map_cons, List.map_cons, List.map_nil,
    structureOf_partType (by decide), structureOf_partType (by decide),
    structureOf_partType hreturned]

/-- What is served for a part. -/
theorem extractSection_closedPart {raw : Bytes} {n : ℕ} {mime : String} {body : Bytes}
    (hmime : '\n' ∉ mime.toList) (hn : (partSegments raw)[n]? = some (closedPart mime body)) :
    extractSection raw (.part [n + 1]) = body := by
  have hpart : extractPart raw [n + 1] = some (closedPart mime body) := by
    rw [extractPart, if_neg (Nat.succ_ne_zero n), Nat.add_sub_cancel, hn]
    rfl
  unfold extractSection
  dsimp only
  rw [hpart, Option.map_some, Option.getD_some, drop_bodyOffset, ParsedMessage.body_parse,
    splitHeaders_closedPart hmime]

theorem lf_not_mem_returnedType : '\n' ∉ report.returnedType.toList := by
  unfold returnedType
  cases report.ret <;> decide

theorem readStatus_render (h : report.OneLine) (hapart : ∀ part ∈ report.parts,
    ¬delimiter (report.boundary blake3) <:+: part) :
    readStatus (report.recipients.length + 1) (extractSection (report.render blake3) (.part [2])) =
      shownFields report.statusFields ::
        report.recipients.map fun r => shownFields (recipientFields r) := by
  have hserved := @extractSection_closedPart (report.render blake3) 1 "message/delivery-status" _
    (by decide) (by rw [partSegments_render h hapart]; rfl)
  rw [hserved, utf8_append, utf8_statusText]
  exact readStatus_blocks (by simp [DsnReport.statusFields]) h.statusFields fun r hr =>
    h.recipientFields hr

/-- A notice is read back by the reader of mail: its fields, its three parts, in the status of
delivery a block for the message and one for each recipient, in order, and what is returned byte by
byte. -/
theorem notice_reads_back (h : report.OneLine) (hapart : ∀ part ∈ report.parts,
    ¬delimiter (report.boundary blake3) <:+: part) :
    (ParsedMessage.parse (report.render blake3)).headers = shownFields report.headFields ++
      [("Content-Type", noticeType blake3 report)] ∧
    structureOf (report.render blake3) = .multipart "report"
      [singlePart [("Content-Type", "text/plain; charset=utf-8")]
          (utf8 (report.humanText ++ "\r\n")),
        singlePart [("Content-Type", "message/delivery-status")]
          (utf8 (report.statusText ++ "\r\n")),
        singlePart [("Content-Type", report.returnedType)] report.closedReturned]
      [("report-type", "delivery-status"), ("boundary", report.boundary blake3)] ∧
    readStatus (report.recipients.length + 1)
        (extractSection (report.render blake3) (.part [2])) =
      shownFields report.statusFields ::
        report.recipients.map (fun r => shownFields (recipientFields r)) ∧
    extractSection (report.render blake3) (.part [3]) = report.closedReturned := by
  refine ⟨?_, structureOf_render h hapart, readStatus_render h hapart, ?_⟩
  · rw [ParsedMessage.headers_parse, splitHeaders_render h]
  · exact @extractSection_closedPart _ 2 _ _ lf_not_mem_returnedType
      (by rw [partSegments_render h hapart]; rfl)

/-- A notice of one recipient. -/
def notice : DsnReport :=
  ⟨"a@x", "mx", some "e1", [⟨"b@x", .failed, "5.1.1", some "550 none"⟩], utf8 "Subject: s\r\n\r\nhi",
    .headers, 0⟩

theorem notice_reads_back_headers :
    readStatus 2 (extractSection (notice.render fun _ => ⟨List.replicate 32 0, rfl⟩) (.part [2])) =
        [[("Reporting-MTA", "dns; mx"), ("Original-Envelope-Id", "e1"),
            ("Arrival-Date", "Thu, 01 Jan 1970 00:00:00 +0000")],
          [("Original-Recipient", "rfc822;b@x"), ("Final-Recipient", "rfc822;b@x"),
            ("Action", "failed"), ("Status", "5.1.1"), ("Diagnostic-Code", "smtp; 550 none")]] ∧
      extractSection (notice.render fun _ => ⟨List.replicate 32 0, rfl⟩) (.part [3]) =
        utf8 "Subject: s\r\n\r\n" := by
  have hone : notice.OneLine := by
    refine ⟨by decide, by decide, fun envid he => ?_, fun r hr => ?_⟩
    · obtain rfl := Option.some.inj he
      decide
    · obtain rfl := List.mem_singleton.mp hr
      refine ⟨by decide, by decide, fun d hd => ?_⟩
      obtain rfl := Option.some.inj hd
      decide
  have hread := @notice_reads_back (fun _ => ⟨List.replicate 32 0, rfl⟩) notice hone
    (by decide +kernel)
  exact ⟨hread.2.2.1.trans (by decide), hread.2.2.2.trans (by decide)⟩

end Notice

/-- The message of every failure is told so. -/
theorem overall_failed {report : DsnReport} (hne : report.recipients ≠ [])
    (h : ∀ r ∈ report.recipients, r.action = .failed) : report.overall = "Failure" := by
  obtain ⟨r, hr⟩ := List.exists_mem_of_ne_nil _ hne
  have hnot : ¬(report.recipients.all fun r => decide (r.action = .delivered)) = true := by
    intro hall
    have hdelivered := of_decide_eq_true (List.all_eq_true.mp hall r hr)
    rw [h r hr] at hdelivered
    cases hdelivered
  have hany : (report.recipients.any fun r => decide (r.action = .failed)) = true :=
    List.any_eq_true.mpr ⟨r, hr, decide_eq_true (h r hr)⟩
  unfold overall
  rw [if_neg hnot, if_pos hany]

end DsnReport

section Failures

/-- What an event names is on one line. -/
def Event.OneLine : Event → Prop
  | .mail sender _ envid => '\n' ∉ sender.toList ∧ ∀ e, envid = some e → '\n' ∉ e.toList
  | .rcpt recipient _ => '\n' ∉ recipient.toList
  | _ => True

variable {c : Char} {rest : String}

theorem mem_of_parsePathParam {keyword addr : String}
    (h : parsePathParam rest keyword = some (some addr)) (hc : c ∈ addr.toList) :
    c ∈ rest.toList := by
  unfold parsePathParam at h
  dsimp only at h
  cases hfound : findStr (keyword ++ ":").toList rest.toUpper.toList with
  | none =>
    rw [hfound] at h
    cases h
  | some idx =>
    rw [hfound] at h
    dsimp only at h
    have hafter {a : List Char}
        (ha : a ⊆ (rest.toList.drop (idx + (keyword ++ ":").toList.length)).dropWhile isWhitespace) :
        a ⊆ rest.toList :=
      fun _ hx => List.mem_of_mem_drop ((List.dropWhile_sublist _).subset (ha hx))
    split at h
    · split_ifs at h
      cases h
      rw [String.toList_ofList] at hc
      exact hafter (fun _ hx => List.mem_of_mem_take (List.mem_of_mem_drop hx)) hc
    · have hhead := List.mem_of_mem_head? (Option.some.inj h)
      exact hafter (fun _ hx => by simpa using mem_of_splitWhitespace hhead hx) hc

theorem mem_of_paramValue {key value : String} (h : paramValue rest key = some value)
    (hc : c ∈ value.toList) : c ∈ rest.toList := by
  obtain ⟨tok, htok, hvalue⟩ := List.exists_of_findSome?_eq_some h
  cases hsplit : splitOnce '=' tok with
  | none =>
    rw [hsplit] at hvalue
    cases hvalue
  | some kv =>
    rw [hsplit] at hvalue
    dsimp only at hvalue
    split_ifs at hvalue
    cases hvalue
    exact mem_of_splitWhitespace htok (mem_of_splitOnce hsplit hc)

theorem lf_not_mem_path {keyword : String} (h : '\n' ∉ rest.toList) :
    '\n' ∉ ((parsePathParam rest keyword).join.getD "").toList := by
  intro hmem
  cases haddr : parsePathParam rest keyword with
  | none => simp [haddr] at hmem
  | some addr =>
    cases addr with
    | none => simp [haddr] at hmem
    | some addr =>
      rw [haddr] at hmem
      exact h (mem_of_parsePathParam haddr hmem)

theorem oneLine_loginEvent (reply : String) : (loginEvent reply).OneLine := by
  unfold loginEvent
  split_ifs <;> trivial

theorem oneLine_commandEvent (verb reply : String) (h : '\n' ∉ rest.toList) :
    (commandEvent verb rest reply).OneLine := by
  unfold commandEvent
  split
  · trivial
  · trivial
  · trivial
  · exact oneLine_loginEvent reply
  · split_ifs
    · exact ⟨lf_not_mem_path h, fun e he hmem => h (mem_of_paramValue he hmem)⟩
    · trivial
  · split_ifs
    · exact lf_not_mem_path h
    · trivial
  · split_ifs <;> trivial
  · trivial

theorem lf_not_mem_rest {line : String} (h : '\n' ∉ line.toList) :
    '\n' ∉ (verbAndRest line).2.toList := by
  intro hmem
  unfold verbAndRest at hmem
  cases hsplit : splitOnce ' ' line with
  | none =>
    rw [hsplit] at hmem
    cases hmem
  | some r =>
    rw [hsplit] at hmem
    exact h (mem_of_splitOnce hsplit (mem_of_trim hmem))

theorem oneLine_event (s : Session) {line : Bytes} (h : 10 ∉ line) (reply : String) :
    (s.event line reply).OneLine := by
  unfold Session.event
  split_ifs
  · trivial
  · trivial
  · trivial
  · exact oneLine_loginEvent reply
  · exact oneLine_commandEvent _ _ (lf_not_mem_rest fun hmem => h (mem_fromUtf8Lossy (by decide)
      (by decide) hmem))

theorem oneLine_trace {s t : Session} {lines : List Bytes} {es : List Event}
    (h : s.trace lines = some (t, es)) (hlines : ∀ line ∈ lines, 10 ∉ line) :
    ∀ e ∈ es, e.OneLine := by
  induction lines generalizing s es with
  | nil =>
    obtain ⟨_, rfl⟩ := Prod.mk.inj (Option.some.inj h)
    exact fun e he => absurd he List.not_mem_nil
  | cons line lines ih =>
    obtain ⟨hline, hmore⟩ := List.forall_mem_cons.mp hlines
    obtain ⟨⟨u, reply⟩, _, hrest⟩ := Option.bind_eq_some_iff.mp h
    obtain ⟨⟨v, more⟩, htrace, heq⟩ := Option.bind_eq_some_iff.mp hrest
    obtain ⟨rfl, rfl⟩ := Prod.mk.inj (Option.some.inj heq)
    exact List.forall_mem_cons.mpr ⟨oneLine_event s hline reply, ih htrace hmore⟩

/-- Who is reported to have failed: each recipient whose own NOTIFY asks for it. -/
def failedRecipients (es : List Event) (status : String) (diagnostic : Option String) :
    List DsnRecipient :=
  ((recipients es).filter fun p => wantsFailureDsn p.2).map fun p =>
    ⟨p.1, .failed, status, diagnostic⟩

theorem zip_map_append {α β : Type} (l : List (α × β)) (more : List β) :
    (l.map Prod.fst).zip (l.map Prod.snd ++ more) = l := by
  induction l with
  | nil => rfl
  | cons p l ih => rw [List.map_cons, List.map_cons, List.cons_append, List.zip_cons_cons, ih]

/-- The notice for a submission whose recipients are those of `es`. -/
theorem failureFor_eq {sub : Submission} {es : List Event} (mta status : String)
    (diagnostic : Option String) (now : ℕ) (hrcpt : sub.rcptTo = (recipients es).map Prod.fst)
    (hnotify : sub.dsnNotify = (recipients es).map Prod.snd) :
    DsnReport.failureFor sub mta status diagnostic now =
      if failedRecipients es status diagnostic = [] then none
      else some ⟨sub.mailFrom, mta, sub.envid, failedRecipients es status diagnostic, sub.data,
        sub.ret.getD .headers, now⟩ := by
  unfold DsnReport.failureFor
  dsimp only
  rw [hnotify, hrcpt, zip_map_append]
  simp only [List.isEmpty_iff]
  rfl

theorem oneLine_failure {before since after : List Event} {sub : Submission} {mta status : String}
    {diagnostic : Option String} (now : ℕ)
    (h : ∀ e ∈ before ++ .mail sub.mailFrom sub.ret sub.envid :: (since ++ after), e.OneLine)
    (hmta : '\n' ∉ mta.toList) (hstatus : '\n' ∉ status.toList)
    (hdiagnostic : ∀ d, diagnostic = some d → '\n' ∉ d.toList) :
    DsnReport.OneLine ⟨sub.mailFrom, mta, sub.envid, failedRecipients since status diagnostic, sub.data,
      sub.ret.getD .headers, now⟩ := by
  obtain ⟨hmail, hrest⟩ := List.forall_mem_cons.mp fun e he => h e (List.mem_append_right _ he)
  refine ⟨hmta, hmail.1, hmail.2, fun r hr => ?_⟩
  obtain ⟨p, hp, rfl⟩ := List.mem_map.mp hr
  obtain ⟨e, he, hrecipient⟩ := List.mem_filterMap.mp (List.mem_filter.mp hp).1
  have hone := hrest e (List.mem_append_left _ he)
  cases e with
  | rcpt recipient notify =>
    obtain rfl := Option.some.inj hrecipient
    exact ⟨hone, hstatus, hdiagnostic⟩
  | _ => cases hrecipient

/-- The notice of a failure of a submission goes to its sender, reports each recipient of its own
transaction that asks for it, in order, and can be read; there is none exactly when nobody asks. -/
theorem failure_notice {auth : Authenticator} {tls : Bool} {max : ℕ} {s t : Session}
    (hs : s = (Session.new auth tls).setMaxSize max ∨
      s = ((Session.new auth tls).setMaxSize max).greeting.1)
    {lines : List Bytes} {es : List Event} (h : s.trace lines = some (t, es))
    (hlines : ∀ line ∈ lines, 10 ∉ line) {sub : Submission} (hsub : sub ∈ t.submissions)
    (mta status : String) (diagnostic : Option String) (hmta : '\n' ∉ mta.toList)
    (hstatus : '\n' ∉ status.toList) (hdiagnostic : ∀ d, diagnostic = some d → '\n' ∉ d.toList)
    (now : ℕ) :
    ∃ before since contents after,
      es = before ++ .mail sub.mailFrom sub.ret sub.envid ::
        (since ++ .data :: (contents.map .content ++ .queued :: after)) ∧
      (∀ e ∈ since, e.quiet = true) ∧
      (DsnReport.failureFor sub mta status diagnostic now = none ↔
        ∀ p ∈ recipients since, wantsFailureDsn p.2 = false) ∧
      ∀ report, DsnReport.failureFor sub mta status diagnostic now = some report →
        report.notifyTo = sub.mailFrom ∧
        report.recipients = failedRecipients since status diagnostic ∧
        report.overall = "Failure" ∧ report.originalMessage = written contents ∧
        report.OneLine ∧
        ∀ blake3, (∀ part ∈ report.parts, ¬delimiter (report.boundary blake3) <:+: part) →
          DsnReport.readStatus (report.recipients.length + 1)
              (extractSection (report.render blake3) (.part [2])) =
            DsnReport.shownFields report.statusFields ::
              (failedRecipients since status diagnostic).map fun r =>
                DsnReport.shownFields (DsnReport.recipientFields r) := by
  have hhistory : Session.History max [] s := by
    obtain rfl | rfl := hs
    · exact Session.history_new auth tls max
    · exact Session.history_greeting auth tls max
  obtain ⟨before, since, contents, after, hes, _, hquiet, hrcpt, hnotify, _, _, hdata, _⟩ :=
    (hhistory.trace h).submissions sub hsub
  rw [List.nil_append] at hes
  have heq := failureFor_eq mta status diagnostic now hrcpt hnotify
  refine ⟨before, since, contents, after, hes, hquiet, ?_, fun report hreport => ?_⟩
  · rw [heq]
    unfold failedRecipients
    simp
  · rw [heq] at hreport
    split_ifs at hreport with hnone
    cases hreport
    have htexts := oneLine_trace h hlines
    rw [hes] at htexts
    have hone := oneLine_failure now htexts hmta hstatus hdiagnostic
    refine ⟨rfl, rfl, DsnReport.overall_failed hnone fun r hr => ?_, hdata, hone,
      fun blake3 hapart => DsnReport.readStatus_render hone hapart⟩
    obtain ⟨p, _, rfl⟩ := List.mem_map.mp hr
    rfl

theorem failure_notice_two : ∃ t es,
    ((Session.new (.issued "alice" "pw" [1]) true).setMaxSize 100).trace
        [utf8 "AUTH PLAIN AGFsaWNlAHB3", utf8 "MAIL FROM:<c@x> RET=HDRS",
          utf8 "RCPT TO:<d@x> NOTIFY=NEVER", utf8 "RCPT TO:<e@x>", utf8 "DATA", utf8 "hi",
          utf8 "."] = some (t, es) ∧
      ∀ sub ∈ t.submissions,
        (∃ report, DsnReport.failureFor sub "mx" "5.1.1" none 0 = some report ∧
          report.recipients = [⟨"e@x", .failed, "5.1.1", none⟩]) ∧
        ∃ before since, ∃ contents : List Bytes, ∃ after,
          es = before ++ .mail sub.mailFrom sub.ret sub.envid ::
            (since ++ .data :: (contents.map .content ++ .queued :: after)) ∧
          (DsnReport.failureFor sub "mx" "5.1.1" none 0 = none ↔
            ∀ p ∈ recipients since, wantsFailureDsn p.2 = false) := by
  have hrun : (((Session.new (.issued "alice" "pw" [1]) true).setMaxSize 100).trace
      [utf8 "AUTH PLAIN AGFsaWNlAHB3", utf8 "MAIL FROM:<c@x> RET=HDRS",
        utf8 "RCPT TO:<d@x> NOTIFY=NEVER", utf8 "RCPT TO:<e@x>", utf8 "DATA", utf8 "hi",
        utf8 "."]).map (fun r => r.1.submissions) =
      some [⟨"c@x", ["d@x", "e@x"], utf8 "hi\r\n", none, some .headers, [some "NEVER", none]⟩] := by
    decide +kernel
  obtain ⟨⟨t, es⟩, h, hsub⟩ := Option.map_eq_some_iff.mp hrun
  refine ⟨t, es, h, fun sub hmem => ⟨?_, ?_⟩⟩
  · rw [show t.submissions = _ from hsub, List.mem_singleton] at hmem
    subst hmem
    exact ⟨⟨"c@x", "mx", none, [⟨"e@x", .failed, "5.1.1", none⟩], utf8 "hi\r\n", .headers, 0⟩,
      by decide +kernel, rfl⟩
  · obtain ⟨before, since, contents, after, hes, _, hnone, _⟩ :=
      failure_notice (.inl rfl) h (by decide) hmem "mx" "5.1.1" none (by decide) (by decide)
        (fun d hd => nomatch hd) 0
    exact ⟨before, since, contents, after, hes, hnone⟩

end Failures
end Dmtap.Mail.Smtp
