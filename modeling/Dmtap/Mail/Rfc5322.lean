import Dmtap.Identity.Keyname
import Dmtap.Mail.Dates
import Dmtap.Mail.EncodedWords
import Dmtap.Mail.Fields
import Dmtap.Mail.Md5
import Dmtap.Mote.Payload

/-! Payloads as mail messages. A header block carried along is written as it is; for a payload
without one the fields are made from what it holds, whatever its sender put there. -/
namespace Dmtap.Mail
open Lib Mote Cbor

section Render
variable (blake3 : Bytes → Digest)

def rawHeadersExtKey : String := "x-dmtap-mail-raw-headers"

/-- The header block carried along, if there is one. -/
def rawHeadersExt (headers : Headers) : Option Bytes :=
  headers.ext.findSome? fun entry =>
    if entry.1 ≠ rawHeadersExtKey then none
    else
      match entry.2 with
      | .bytes b => some b
      | _ => none

def sanitizeHeaderValue (v : String) : String :=
  String.ofList (v.toList.filter fun c => c != '\r' && c != '\n')

def addressForKey (ik : Bytes) : String :=
  if ik.isEmpty then "unknown@dmtap.local"
  else Identity.Keyname.encode blake3 ik ++ "@dmtap.local"

def blake316 (b : Bytes) : Bytes := (ContentId.of blake3 b).digest.take 16

def headerLine (name value : String) : String := name ++ ": " ++ value ++ "\r\n"

def renderRfc5322 (payload : Payload) (ts : ℕ) : Bytes :=
  match rawHeadersExt payload.headers with
  | some rawHeaders => rawHeaders ++ payload.body
  | none =>
    let subject := sanitizeHeaderValue (payload.headers.subject.getD "")
    let mime := sanitizeHeaderValue (payload.headers.mime.getD "text/plain; charset=utf-8")
    let mid := "<" ++ hex (blake316 blake3 payload.body) ++ "@dmtap.local>"
    let msg := headerLine "From" (addressForKey blake3 payload.sender) ++
      (match payload.headers.thread with
      | some thread => headerLine "References" ("<" ++ hex thread ++ "@dmtap.local>")
      | none => "") ++
      headerLine "Date" (formatRfc5322Date ts) ++
      headerLine "Subject" (encodeHeaderValue subject) ++
      headerLine "Message-ID" mid ++
      headerLine "MIME-Version" "1.0" ++
      headerLine "Content-Type" mime ++
      headerLine "Content-Transfer-Encoding" "8bit" ++ "\r\n"
    utf8 msg ++ payload.body ++
      if payload.body.getLast? = some 10 then [] else utf8 "\r\n"

end Render

section Values

theorem foldedText_combo (k : ℕ) : FoldedText (Identity.Keyname.combo k) := by
  have hconsonant : ∀ n, Identity.Keyname.consonants.getD n 'b' ≠ '\n' :=
    getD_ne (by decide) (by decide)
  have hvowel : ∀ n, Identity.Keyname.vowels.getD n 'a' ≠ '\n' :=
    getD_ne (by decide) (by decide)
  refine foldedText_of_not_mem ?_
  rw [Identity.Keyname.combo, String.toList_ofList]
  simp only [List.mem_cons, List.not_mem_nil, or_false, not_or]
  exact ⟨(hconsonant _).symm, (hvowel _).symm, (hconsonant _).symm, (hvowel _).symm⟩

theorem foldedText_encode (blake3 : Bytes → Digest) (pubkey : Bytes) :
    FoldedText (Identity.Keyname.encode blake3 pubkey) := by
  have hword : ∀ i, FoldedText (Identity.Keyname.wordlist.getD i "") := by
    refine forall_getD (fun word hword => ?_) (foldedText_of_not_mem (by decide))
    obtain ⟨k, -, rfl⟩ := List.mem_map.mp hword
    exact foldedText_combo _
  unfold Identity.Keyname.encode
  refine (foldedText_of_not_mem (by decide)).intercalate fun word hmem => ?_
  rcases List.mem_append.mp hmem with hmem | hmem
  · obtain ⟨i, -, rfl⟩ := List.mem_map.mp hmem
    exact hword i
  · rw [List.mem_singleton.mp hmem]
    exact hword _

theorem foldedText_padded (width : ℕ) (n : ℤ) : FoldedText (padded width n) := by
  refine foldedText_of_not_mem ?_
  rw [padded, String.toList_ofList, List.leftpad, List.mem_append, toList_toString]
  rintro (h | h)
  · exact absurd (List.eq_of_mem_replicate h) (by decide)
  · exact notMem_toDigits (by decide) _ h

theorem foldedText_formatRfc5322Date (ms : ℕ) : FoldedText (formatRfc5322Date ms) := by
  have hname : ∀ names : List String, (∀ s ∈ names, '\n' ∉ s.toList) →
      ∀ n, FoldedText (names.getD n "") := by
    intro names h
    exact forall_getD (fun s hs => foldedText_of_not_mem (h s hs)) (foldedText_of_not_mem (by decide))
  have hpunct : ∀ s : String, '\n' ∉ s.toList → FoldedText s := fun s => foldedText_of_not_mem
  have hweekday := hname weekdays (by decide)
  have hmonth := hname months (by decide)
  unfold formatRfc5322Date
  refine FoldedText.append ?_ (hpunct _ (by decide))
  refine FoldedText.append ?_ (foldedText_padded _ _)
  refine FoldedText.append ?_ (hpunct _ (by decide))
  refine FoldedText.append ?_ (foldedText_padded _ _)
  refine FoldedText.append ?_ (hpunct _ (by decide))
  refine FoldedText.append ?_ (foldedText_padded _ _)
  refine FoldedText.append ?_ (hpunct _ (by decide))
  refine FoldedText.append ?_ (foldedText_padded _ _)
  refine FoldedText.append ?_ (hpunct _ (by decide))
  refine FoldedText.append ?_ (hmonth _)
  refine FoldedText.append ?_ (hpunct _ (by decide))
  refine FoldedText.append ?_ (foldedText_padded _ _)
  exact (hweekday _).append (hpunct _ (by decide))

theorem foldedText_hex (b : Bytes) : FoldedText (hex b) := by
  have hdigit : ∀ n, hexDigit n ≠ '\n' :=
    getD_ne (by decide) (by decide)
  refine foldedText_of_not_mem ?_
  rw [hex, String.toList_ofList, List.mem_flatMap]
  rintro ⟨x, -, hx⟩
  simp only [List.mem_cons, List.not_mem_nil, or_false] at hx
  rcases hx with hx | hx
  · exact hdigit _ hx.symm
  · exact hdigit _ hx.symm

theorem foldedText_sanitizeHeaderValue (v : String) : FoldedText (sanitizeHeaderValue v) := by
  refine foldedText_of_not_mem ?_
  rw [sanitizeHeaderValue, String.toList_ofList]
  simp

theorem lf_not_mem_base64Chars (b : Bytes) : '\n' ∉ base64Chars b := by
  have hchar : ∀ n, base64Char n ≠ '\n' := fun n =>
    getD_ne (by decide) (by decide) _
  induction b using base64Chars.induct with
  | case1 => exact List.not_mem_nil
  | case2 b₀ => simp [base64Chars, Ne.symm (hchar _)]
  | case3 b₀ b₁ => simp [base64Chars, Ne.symm (hchar _)]
  | case4 b₀ b₁ b₂ rest ih => simp [base64Chars, Ne.symm (hchar _), ih]

/-- What is not written as it is becomes words on lines that all but the first are indented. -/
theorem foldedText_encodeHeaderValue (v : String) : FoldedText (encodeHeaderValue v) := by
  unfold encodeHeaderValue
  split
  · rename_i hsafe
    refine folded_of_not_mem fun hmem => ?_
    have hlf := List.all_eq_true.mp hsafe 10 hmem
    exact absurd hlf (by decide)
  · have hfold : FoldedText "\r\n " := by
      rw [FoldedText, show utf8 "\r\n " = [13, 10, 32] by decide]
      exact folded_fold
    refine hfold.intercalate fun word hword => ?_
    obtain ⟨chunk, -, rfl⟩ := List.mem_map.mp hword
    have hbase : FoldedText (base64Encode (utf8 (String.ofList chunk))) := by
      refine foldedText_of_not_mem ?_
      rw [base64Encode, String.toList_ofList]
      exact lf_not_mem_base64Chars _
    exact ((foldedText_of_not_mem (by decide)).append hbase).append
      (foldedText_of_not_mem (by decide))

end Values

section Synthesis

/-- A field under a name of the program's own. -/
def WrittenField.text (name value : String) (hname : isFieldName name = true)
    (hvalue : FoldedText value) : WrittenField :=
  ⟨name, utf8 value, hname, hvalue⟩

theorem written_text {name value : String} (hname hvalue) :
    (WrittenField.text name value hname hvalue).written = utf8 (headerLine name value) := by
  rw [headerLine, utf8_append, utf8_append, utf8_append]
  rfl

variable (blake3 : Bytes → Digest)

theorem foldedText_bracketed (b : Bytes) : FoldedText ("<" ++ hex b ++ "@dmtap.local>") :=
  ((foldedText_of_not_mem (by decide)).append (foldedText_hex b)).append
    (foldedText_of_not_mem (by decide))

def referencesFields (thread : Option Bytes) : List WrittenField :=
  (thread.map fun t => WrittenField.text "References" ("<" ++ hex t ++ "@dmtap.local>")
    (by decide) (foldedText_bracketed t)).toList

theorem foldedText_addressForKey (ik : Bytes) : FoldedText (addressForKey blake3 ik) := by
  unfold addressForKey
  split
  · exact foldedText_of_not_mem (by decide)
  · exact (foldedText_encode blake3 ik).append (foldedText_of_not_mem (by decide))

theorem isFieldName_from : isFieldName "From" = true := by decide

def dateField (ms : ℕ) : WrittenField :=
  WrittenField.text "Date" (formatRfc5322Date ms) (by decide) (foldedText_formatRfc5322Date ms)

def subjectField (subject : String) : WrittenField :=
  WrittenField.text "Subject" (encodeHeaderValue (sanitizeHeaderValue subject)) (by decide)
    (foldedText_encodeHeaderValue _)

def mimeVersionField : WrittenField :=
  WrittenField.text "MIME-Version" "1.0" (by decide) (foldedText_of_not_mem (by decide))

def contentTypeField (mime : String) : WrittenField :=
  WrittenField.text "Content-Type" (sanitizeHeaderValue mime) (by decide)
    (foldedText_sanitizeHeaderValue mime)

/-- The fields made for a payload that carries no header block. -/
def madeFields (payload : Payload) (ts : ℕ) : List WrittenField :=
  [WrittenField.text "From" (addressForKey blake3 payload.sender) isFieldName_from
    (foldedText_addressForKey blake3 _)] ++
  referencesFields payload.headers.thread ++
  [dateField ts, subjectField (payload.headers.subject.getD ""),
    WrittenField.text "Message-ID" ("<" ++ hex (blake316 blake3 payload.body) ++ "@dmtap.local>")
      (by decide) (foldedText_bracketed _),
    mimeVersionField, contentTypeField (payload.headers.mime.getD "text/plain; charset=utf-8"),
    WrittenField.text "Content-Transfer-Encoding" "8bit" (by decide)
      (foldedText_of_not_mem (by decide))]

theorem renderRfc5322_eq {payload : Payload} (h : rawHeadersExt payload.headers = none) (ts : ℕ) :
    renderRfc5322 blake3 payload ts =
      (madeFields blake3 payload ts).flatMap WrittenField.written ++ utf8 "\r\n" ++
        (payload.body ++ if payload.body.getLast? = some 10 then [] else utf8 "\r\n") := by
  unfold renderRfc5322
  rw [h]
  dsimp only
  have hempty : utf8 "" = [] := rfl
  unfold madeFields referencesFields dateField subjectField mimeVersionField contentTypeField
  cases payload.headers.thread <;>
    simp only [utf8_append, hempty, Option.map_none, Option.map_some, Option.toList_none,
      Option.toList_some, List.flatMap_append, List.flatMap_cons, List.flatMap_nil, written_text,
      List.append_assoc, List.append_nil]

theorem madeFields_ne_nil (payload : Payload) (ts : ℕ) : madeFields blake3 payload ts ≠ [] :=
  List.cons_ne_nil _ _

/-- The names of a message made for a payload, in their order. -/
def madeNames (thread : Option Bytes) : List String :=
  ["From"] ++ (if thread.isSome then ["References"] else []) ++ ["Date", "Subject", "Message-ID",
    "MIME-Version", "Content-Type", "Content-Transfer-Encoding"]

theorem map_name_madeFields (payload : Payload) (ts : ℕ) :
    (madeFields blake3 payload ts).map WrittenField.name = madeNames payload.headers.thread := by
  unfold madeFields madeNames referencesFields
  cases payload.headers.thread <;> rfl

/-- What a reader finds in a message made for a payload. -/
theorem splitHeaders_renderRfc5322 {payload : Payload} (h : rawHeadersExt payload.headers = none)
    (ts : ℕ) :
    (splitHeaders (renderRfc5322 blake3 payload ts)).1.map Prod.fst =
        madeNames payload.headers.thread ∧
      (splitHeaders (renderRfc5322 blake3 payload ts)).2 =
        payload.body ++ if payload.body.getLast? = some 10 then [] else utf8 "\r\n" := by
  rw [renderRfc5322_eq blake3 h, ← map_name_madeFields blake3 payload ts]
  exact splitHeaders_written (madeFields_ne_nil blake3 payload ts) _

end Synthesis

end Dmtap.Mail
