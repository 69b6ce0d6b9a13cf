import Dmtap.Mail.DateTimes
import Dmtap.Mail.HeaderValues

/-! A payload made into a mail message, and read again: every field has the value it was given, but
for white space at its ends. -/
namespace Dmtap.Mail
open Lib Mote

/-- A header field of text. Its value stands on one line, or is folded in words onto the next. -/
structure TextField where
  name : String
  first : List Char
  words : List (List Char)
  name_ok : isFieldName name = true
  line : '\n' ∉ first
  words_ok : ∀ word ∈ words, IsWord word

namespace TextField

def text (f : TextField) : List Char := f.name.toList ++ ':' :: ' ' :: f.first ++ foldedRest f.words

/-- What a reader makes of the field. -/
def shown (f : TextField) : String × String :=
  (f.name, trim (String.ofList f.first) ++ String.ofList (unfoldedRest f.words))

/-- A field on one line. -/
def oneLine (name value : String) (hname : isFieldName name = true) (hvalue : '\n' ∉ value.toList) :
    TextField :=
  ⟨name, value.toList, [], hname, hvalue, fun _ hword => (nomatch hword)⟩

theorem shown_oneLine {name value : String} (hname hvalue) :
    (oneLine name value hname hvalue).shown = (name, trim value) := by
  unfold shown oneLine
  rw [String.ofList_toList]
  exact Prod.ext rfl (by simp [unfoldedRest])

theorem text_oneLine {name value : String} (hname hvalue) :
    String.ofList (oneLine name value hname hvalue).text = headerLine name value := by
  rw [← String.toList_inj]
  simp [text, oneLine, foldedRest, headerLine]

section Reading
variable (f : TextField)

theorem name_chars : ∀ c ∈ f.name.toList, isWhitespace c = false ∧ c ≠ ':' ∧ c ≠ '\n' := by
  intro c hc
  have hok := f.name_ok
  rw [isFieldName, Bool.and_eq_true] at hok
  have hchar := List.all_eq_true.mp hok.2 c hc
  simp only [Bool.and_eq_true, decide_eq_true_eq, bne_iff_ne] at hchar
  refine ⟨?_, hchar.2, ?_⟩
  · simp only [isWhitespace, Bool.or_eq_false_iff, Bool.and_eq_false_iff, decide_eq_false_iff_not,
      beq_eq_false_iff_ne]
    omega
  · rintro rfl
    exact absurd hchar.1.1 (by decide)

/-- The first line of a field opens it, whatever has been read. -/
theorem readHeaderLine_start (out : List (String × String)) : readHeaderLine out
      (String.ofList (f.name.toList ++ ':' :: ' ' :: f.first ++ ['\r'])) =
    out ++ [(f.name, trim (String.ofList f.first))] := by
  have hcolon : ':' ∉ f.name.toList := fun h => (f.name_chars ':' h).2.1 rfl
  have htrim : trim (String.ofList f.name.toList) = f.name := by
    rw [trim_eq_self fun c hc => (f.name_chars c hc).1, String.ofList_toList]
  have hne : String.ofList (f.name.toList ++ ':' :: ' ' :: f.first) ≠ "" := by
    intro hempty
    have hchars := congrArg String.toList hempty
    rw [String.toList_ofList] at hchars
    exact List.append_ne_nil_of_right_ne_nil _ (List.cons_ne_nil _ _) hchars
  have hindent : ((String.ofList (f.name.toList ++ ':' :: ' ' :: f.first)).toList.head? = some ' ' ||
      (String.ofList (f.name.toList ++ ':' :: ' ' :: f.first)).toList.head? = some '\t') = false := by
    rw [String.toList_ofList]
    cases hname : f.name.toList with
    | nil => rfl
    | cons c name =>
      have hwhite := (f.name_chars c (hname ▸ List.mem_cons_self)).1
      have hspace : c ≠ ' ' := by
        rintro rfl
        exact absurd hwhite (by decide)
      have htab : c ≠ '\t' := by
        rintro rfl
        exact absurd hwhite (by decide)
      rw [List.cons_append, List.head?_cons]
      simp only [Option.some.injEq, hspace, htab, decide_false, Bool.or_false]
  unfold readHeaderLine
  dsimp only
  rw [stripSuffix_cr, if_neg hne, hindent, Bool.false_and, if_neg Bool.false_ne_true,
    splitOnce_append hcolon, ← trim_cons_space f.first]
  dsimp only
  rw [htrim]

theorem readHeaderLine_word {word : List Char} (hword : IsWord word) (out : List (String × String))
    (name val : String) :
    readHeaderLine (out ++ [(name, val)]) (String.ofList (' ' :: word ++ ['\r'])) =
      out ++ [(name, val ++ " " ++ String.ofList word)] := by
  have hne : String.ofList (' ' :: word) ≠ "" := by simp [← String.toList_inj]
  have hindent : ((String.ofList (' ' :: word)).toList.head? = some ' ' ||
      (String.ofList (' ' :: word)).toList.head? = some '\t') = true := by
    rw [String.toList_ofList]
    rfl
  have hopen : (out ++ [(name, val)]).isEmpty = false := by simp
  unfold readHeaderLine
  dsimp only
  rw [stripSuffix_cr, if_neg hne, hindent, hopen, trim_cons_space, hword.trimmed]
  exact List.modifyLast_concat _ _ _

theorem foldl_words {words : List (List Char)} (h : ∀ word ∈ words, IsWord word)
    (out : List (String × String)) (name val : String) :
    (words.map fun word => String.ofList (' ' :: word ++ ['\r'])).foldl readHeaderLine
      (out ++ [(name, val)]) = out ++ [(name, val ++ String.ofList (unfoldedRest words))] := by
  induction words generalizing val with
  | nil => simp [unfoldedRest]
  | cons word words ih =>
    obtain ⟨hword, hrest⟩ := List.forall_mem_cons.mp h
    rw [List.map_cons, List.foldl_cons, readHeaderLine_word hword, ih hrest]
    simp [unfoldedRest, ← String.toList_inj]

theorem split_foldedRest_append {first : List Char} (hfirst : '\n' ∉ first)
    {words : List (List Char)} (h : ∀ word ∈ words, IsWord word) (rest : List Char) :
    split '\n' (String.ofList (first ++ foldedRest words ++ rest)) =
      String.ofList (first ++ ['\r']) ::
        (words.map fun word => String.ofList (' ' :: word ++ ['\r'])) ++
          split '\n' (String.ofList rest) := by
  induction words generalizing first with
  | nil =>
    have hend : '\n' ∉ first ++ ['\r'] := by simp [hfirst]
    have hsplit := split_cons hend rest
    simpa [foldedRest] using hsplit
  | cons word words ih =>
    obtain ⟨hword, hrest⟩ := List.forall_mem_cons.mp h
    have hend : '\n' ∉ first ++ ['\r'] := by simp [hfirst]
    have hnext : '\n' ∉ ' ' :: word := by simp [hword.line]
    have hlater := ih hnext hrest
    have hsplit := split_cons hend (' ' :: word ++ foldedRest words ++ rest)
    rw [hlater] at hsplit
    simpa [foldedRest] using hsplit

theorem foldl_split_text (out : List (String × String)) (rest : List Char) :
    (split '\n' (String.ofList (f.text ++ rest))).foldl readHeaderLine out =
      (split '\n' (String.ofList rest)).foldl readHeaderLine (out ++ [f.shown]) := by
  have hline : '\n' ∉ f.name.toList ++ ':' :: ' ' :: f.first := by
    have hname : '\n' ∉ f.name.toList := fun h => (f.name_chars '\n' h).2.2 rfl
    simp [hname, f.line]
  unfold text
  rw [split_foldedRest_append hline f.words_ok, List.foldl_append, List.foldl_cons,
    f.readHeaderLine_start, foldl_words f.words_ok]
  rfl

end Reading

/-- A block of fields is read field by field. -/
theorem parseHeaderBlock_text (fields : List TextField) :
    parseHeaderBlock (utf8 (String.ofList (fields.flatMap text))) = fields.map shown := by
  have hrun (out : List (String × String)) :
      (split '\n' (String.ofList (fields.flatMap text))).foldl readHeaderLine out =
        out ++ fields.map shown := by
    induction fields generalizing out with
    | nil =>
      have hblank : split '\n' (String.ofList []) = [""] := rfl
      rw [List.flatMap_nil, hblank, List.map_nil, List.append_nil]
      rfl
    | cons f fields ih =>
      rw [List.flatMap_cons, f.foldl_split_text, ih, List.map_cons, List.append_assoc]
      rfl
  unfold parseHeaderBlock headerText
  rw [fromUtf8_utf8, Option.getD_some, hrun, List.nil_append]

end TextField

section Values
variable {s : String}

/-- No white space, so nothing to trim and nothing to fold. -/
abbrev Unblank (s : String) : Prop := AllChars (isWhitespace · = false) s

theorem Unblank.trimmed (h : Unblank s) : trim s = s := by
  have hself := trim_eq_self h
  rwa [String.ofList_toList] at hself

theorem Unblank.line (h : Unblank s) : '\n' ∉ s.toList :=
  fun hmem => absurd (h _ hmem) (by decide)

theorem unblank_combo (k : ℕ) : Unblank (Identity.Keyname.combo k) := by
  have hconsonant : ∀ n, isWhitespace (Identity.Keyname.consonants.getD n 'b') = false :=
    forall_getD (P := (isWhitespace · = false)) (by decide) (by decide)
  have hvowel : ∀ n, isWhitespace (Identity.Keyname.vowels.getD n 'a') = false :=
    forall_getD (P := (isWhitespace · = false)) (by decide) (by decide)
  intro c hc
  rw [Identity.Keyname.combo, String.toList_ofList] at hc
  simp only [List.mem_cons, List.not_mem_nil, or_false] at hc
  rcases hc with rfl | rfl | rfl | rfl
  · exact hconsonant _
  · exact hvowel _
  · exact hconsonant _
  · exact hvowel _

theorem unblank_addressForKey (blake3 : Bytes → Digest) (ik : Bytes) :
    Unblank (addressForKey blake3 ik) := by
  have hword : ∀ i, Unblank (Identity.Keyname.wordlist.getD i "") := by
    refine forall_getD (fun word hword => ?_) fun c hc => (nomatch hc)
    obtain ⟨k, -, rfl⟩ := List.mem_map.mp hword
    exact unblank_combo _
  have hhost : Unblank "@dmtap.local" := by
    unfold Unblank AllChars
    decide
  unfold addressForKey
  split_ifs
  · unfold Unblank AllChars
    decide
  · refine AllChars.append ?_ hhost
    unfold Identity.Keyname.encode
    refine AllChars.intercalate (by unfold AllChars; decide) fun word hmem => ?_
    rcases List.mem_append.mp hmem with hmem | hmem
    · obtain ⟨i, -, rfl⟩ := List.mem_map.mp hmem
      exact hword i
    · rw [List.mem_singleton.mp hmem]
      exact hword _

/-- An id of the synthetic host. -/
def bracketed (b : Bytes) : String := "<" ++ hex b ++ "@dmtap.local>"

theorem unblank_bracketed (b : Bytes) : Unblank (bracketed b) := by
  have hdigit : ∀ n, isWhitespace (hexDigit n) = false :=
    forall_getD (P := (isWhitespace · = false)) (by decide) (by decide)
  have hhex : Unblank (hex b) := by
    intro c hc
    rw [hex, String.toList_ofList, List.mem_flatMap] at hc
    obtain ⟨x, -, hx⟩ := hc
    simp only [List.mem_cons, List.not_mem_nil, or_false] at hx
    rcases hx with rfl | rfl
    · exact hdigit _
    · exact hdigit _
  have hopen : Unblank "<" := by
    unfold Unblank AllChars
    decide
  have hhost : Unblank "@dmtap.local>" := by
    unfold Unblank AllChars
    decide
  exact (hopen.append hhex).append hhost

/-- The time of a date, with its zone. -/
def clockText (ms : ℕ) : String :=
  let rem : ℤ := (ms / 1000 : ℤ) % 86400
  padded 2 (rem.tdiv 3600) ++ ":" ++ padded 2 ((rem.tmod 3600).tdiv 60) ++ ":" ++
    padded 2 (rem.tmod 60) ++ " +000"

/-- The name of the day of the week. -/
def weekdayText (ms : ℕ) : String := weekdays.getD (weekdayFromDays ((ms / 1000 : ℤ) / 86400)) ""

theorem formatRfc5322Date_eq {ms : ℕ} {y m d : ℤ} (h : ymdFromMs ms = (y, m, d)) :
    (formatRfc5322Date ms).toList = (weekdayText ms).toList ++ ',' :: ' ' :: ((padded 2 d).toList ++
      ' ' :: ((months.getD (m - 1).toNat "").toList ++ ' ' :: ((padded 4 y).toList ++
        ' ' :: ((clockText ms).toList ++ ['0'])))) := by
  have hymd : civilFromDays ((ms / 1000 : ℤ) / 86400) = (y, m, d) := h
  have hzone : " +0000" = " +000" ++ "0" := by decide
  unfold formatRfc5322Date clockText weekdayText
  dsimp only
  rw [hymd, hzone]
  simp [String.toList_append]

theorem weekdayText_mem (ms : ℕ) : weekdayText ms ∈ weekdays := by
  have hlt : weekdayFromDays ((ms / 1000 : ℤ) / 86400) < weekdays.length := by
    have hlength : weekdays.length = 7 := rfl
    have hmod : ∀ {a : ℤ}, 0 ≤ a → a.tmod 7 = a % 7 := Int.tmod_eq_emod_of_nonneg
    rw [hlength]
    unfold weekdayFromDays
    have hday : 0 ≤ (ms / 1000 : ℤ) / 86400 := by omega
    rw [hmod hday, hmod (by omega)]
    omega
  unfold weekdayText
  rw [List.getD_eq_getElem?_getD, List.getElem?_eq_getElem hlt, Option.getD_some]
  exact List.getElem_mem hlt

theorem exists_ymdFromMs (ms : ℕ) : ∃ date : Date, date.number = ms / 86400000 + 719528 ∧
    0 ≤ date.year ∧ ymdFromMs ms = (date.year, date.month, date.day) := by
  obtain ⟨date, hdate, hnumber⟩ := civilFromDays_spec ((ms / 1000 : ℕ) / 86400)
  exact ⟨date, by omega, year_nonneg_of_number (by omega), hdate⟩

theorem lf_not_mem_formatRfc5322Date (ms : ℕ) : '\n' ∉ (formatRfc5322Date ms).toList := by
  obtain ⟨date, -, -, hymd⟩ := exists_ymdFromMs ms
  have hmonth : '\n' ∉ (months.getD (date.month - 1).toNat "").toList :=
    forall_getD (P := fun s : String => '\n' ∉ s.toList) (by decide) (by decide) _
  have hweekday : '\n' ∉ (weekdayText ms).toList :=
    (by decide : ∀ s ∈ weekdays, '\n' ∉ s.toList) _ (weekdayText_mem ms)
  have hclock : '\n' ∉ (clockText ms).toList := by
    unfold clockText
    simp [not_mem_padded]
  rw [formatRfc5322Date_eq hymd]
  generalize (months.getD (date.month - 1).toNat "").toList = mon at hmonth
  simp [hweekday, hmonth, hclock, not_mem_padded]

theorem trim_formatRfc5322Date (ms : ℕ) : trim (formatRfc5322Date ms) = formatRfc5322Date ms := by
  obtain ⟨date, -, -, hymd⟩ := exists_ymdFromMs ms
  have hfirst : (weekdayText ms).toList.head?.map isWhitespace = some false :=
    (by decide : ∀ s ∈ weekdays, s.toList.head?.map isWhitespace = some false) _
      (weekdayText_mem ms)
  obtain ⟨x, hx, hblank⟩ := Option.map_eq_some_iff.mp hfirst
  obtain ⟨tail, htail⟩ := List.head?_eq_some_iff.mp hx
  have htext := formatRfc5322Date_eq hymd
  have hhead : (formatRfc5322Date ms).toList.head? = some x := by
    rw [htext, htail]
    rfl
  have hlast : (formatRfc5322Date ms).toList.getLast? = some '0' := by
    generalize (months.getD (date.month - 1).toNat "").toList = mon at htext
    have hfront : (formatRfc5322Date ms).toList = ((weekdayText ms).toList ++ ',' :: ' ' ::
        ((padded 2 date.day).toList ++ ' ' :: (mon ++ ' ' :: ((padded 4 date.year).toList ++
          ' ' :: (clockText ms).toList)))) ++ ['0'] := by
      rw [htext]
      simp
    rw [hfront]
    exact List.getLast?_concat
  have htrim := dropWhile_ends (p := isWhitespace) (a := []) (b := [])
    (fun c hc => (nomatch hc)) (fun c hc => (nomatch hc)) hhead hblank hlast (by decide)
  rw [List.nil_append, List.append_nil] at htrim
  rw [← String.toList_inj, toList_trim, htrim]

end Values

section Fields

theorem lf_not_mem_sanitizeHeaderValue (v : String) : '\n' ∉ (sanitizeHeaderValue v).toList := by
  rw [sanitizeHeaderValue, String.toList_ofList]
  simp

/-- The words that a value of many chunks is folded into. -/
def TextField.folded (name : String) (chunk : List Char) (chunks : List (List Char))
    (hname : isFieldName name = true) : TextField where
  name := name
  first := wordOf chunk
  words := chunks.map wordOf
  name_ok := hname
  line := (isWord_of_not_whitespace (isWhitespace_wordOf chunk)).line
  words_ok := by
    intro word hword
    obtain ⟨next, -, rfl⟩ := List.mem_map.mp hword
    exact isWord_of_not_whitespace (isWhitespace_wordOf next)

/-- A field with an encoded value. -/
def TextField.encoded (name value : String) (hname : isFieldName name = true)
    (hvalue : '\n' ∉ value.toList) : TextField :=
  match isWireSafeAscii value, chunksFrom [] value.toList with
  | false, chunk :: chunks => TextField.folded name chunk chunks hname
  | _, _ => TextField.oneLine name value hname hvalue

theorem text_folded {name value : String} {chunk : List Char} {chunks : List (List Char)}
    (hname : isFieldName name = true) (hsafe : isWireSafeAscii value = false)
    (hchunks : chunksFrom [] value.toList = chunk :: chunks) :
    String.ofList (TextField.folded name chunk chunks hname).text =
      headerLine name (encodeHeaderValue value) := by
  have hvalue : (encodeHeaderValue value).toList ++ ['\r', '\n'] =
      wordOf chunk ++ foldedRest (chunks.map wordOf) := by
    rw [encodeHeaderValue, if_neg (by rw [hsafe]; exact Bool.false_ne_true), hchunks,
      ← intercalate_fold, List.map_cons, List.map_cons, List.map_map]
    simp only [encodeOneWord_eq, Function.comp_def]
  have hcrlf : "\r\n".toList = ['\r', '\n'] := by decide
  rw [← String.toList_inj, String.toList_ofList]
  unfold TextField.text TextField.folded headerLine
  rw [String.toList_append, String.toList_append, String.toList_append, hcrlf, List.append_assoc,
    List.append_assoc, hvalue]
  simp

theorem chunksFrom_ne_nil {value : String} (h : isWireSafeAscii value = false) :
    chunksFrom [] value.toList ≠ [] := by
  have hchunks := flatten_chunksFrom value.toList []
  intro hnil
  rw [hnil, List.flatten_nil, List.nil_append, eq_comm] at hchunks
  have hsafe : isWireSafeAscii value = true :=
    (isWireSafeAscii_iff value).mpr fun c hc => by
      rw [hchunks] at hc
      cases hc
  rw [h] at hsafe
  cases hsafe

theorem text_encoded {name value : String} (hname hvalue) :
    String.ofList (TextField.encoded name value hname hvalue).text =
      headerLine name (encodeHeaderValue value) := by
  unfold TextField.encoded
  cases hsafe : isWireSafeAscii value with
  | true =>
    rw [encodeHeaderValue, if_pos hsafe]
    exact TextField.text_oneLine hname hvalue
  | false =>
    obtain ⟨chunk, chunks, hcons⟩ := List.exists_cons_of_ne_nil (chunksFrom_ne_nil hsafe)
    rw [hcons]
    exact text_folded hname hsafe hcons

/-- A value is read back from an encoded field: words where it is not printable ASCII, itself where it
is, with nothing to trim and no token that starts like a word. -/
theorem decode_shown_encoded {name value : String} (hname hvalue)
    (h : ¬IsPrintable value ∨ ReadsAsWritten value) :
    decodeEncodedWords (TextField.encoded name value hname hvalue).shown.2 = value := by
  unfold TextField.encoded
  cases hsafe : isWireSafeAscii value with
  | true =>
    obtain hprintable | hreads := h
    · exact absurd ((isWireSafeAscii_iff value).mp hsafe) hprintable
    · have hplain := decodeWordsLoop_plain hreads.tokens (Nat.le_refl value.toList.length) false
      dsimp only
      rw [TextField.shown_oneLine, hreads.trimmed, decodeEncodedWords, ← String.length_toList, hplain,
        String.ofList_toList]
  | false =>
    obtain ⟨chunk, chunks, hcons⟩ := List.exists_cons_of_ne_nil (chunksFrom_ne_nil hsafe)
    have hword : trim (String.ofList (wordOf chunk)) = String.ofList (wordOf chunk) :=
      (isWord_of_not_whitespace (isWhitespace_wordOf chunk)).trimmed
    have hflat := flatten_chunksFrom value.toList []
    rw [hcons]
    unfold TextField.shown TextField.folded
    dsimp only
    rw [hword, ← String.ofList_append, decodeEncodedWords_words, ← hcons, hflat, List.nil_append,
      String.ofList_toList]

end Fields

/-- The reader of written fields has their block, up to the empty line. -/
theorem fst_splitHeaders_written {fields : List WrittenField} (hne : fields ≠ []) (body : Bytes) :
    (splitHeaders (fields.flatMap WrittenField.written ++ utf8 "\r\n" ++ body)).1 =
      parseHeaderBlock (fields.flatMap WrittenField.written) := by
  have hsplit : splitInclusive (fields.flatMap WrittenField.written ++ utf8 "\r\n" ++ body) =
      writtenLines fields ++ [13, 10] :: splitInclusive body := by
    have hcrlf : utf8 "\r\n" ++ body = [13] ++ 10 :: body := by
      rw [show utf8 "\r\n" = [13, 10] by decide]
      rfl
    rw [List.append_assoc, splitInclusive_written, hcrlf, splitInclusive_append_lf]
    rfl
  have hlines := isLines_splitInclusive (fields.flatMap WrittenField.written ++ utf8 "\r\n" ++ body)
  have hblock := congrArg Prod.fst hlines.splitHeaders_flatten
  rw [flatten_splitInclusive, hsplit] at hblock
  have hflat : (writtenLines fields).flatten = fields.flatMap WrittenField.written := by
    rw [writtenLines, ← List.flatMap_id, List.flatMap_assoc]
    simp only [List.flatMap_id, flatten_splitInclusive]
  rw [hblock]
  dsimp only
  rw [(headLines_writtenLines hne (splitInclusive body)).1, hflat]

section Message
variable (blake3 : Bytes → Digest)

theorem isFieldName_references : isFieldName "References" = true := by decide

theorem isFieldName_date : isFieldName "Date" = true := by decide

theorem isFieldName_subject : isFieldName "Subject" = true := by decide

theorem isFieldName_messageId : isFieldName "Message-ID" = true := by decide

theorem isFieldName_mimeVersion : isFieldName "MIME-Version" = true := by decide

theorem isFieldName_contentType : isFieldName "Content-Type" = true := by decide

theorem isFieldName_transferEncoding : isFieldName "Content-Transfer-Encoding" = true := by decide

theorem lf_not_mem_version : '\n' ∉ "1.0".toList := by decide

theorem lf_not_mem_eightBit : '\n' ∉ "8bit".toList := by decide

/-- The fields of a message made for a payload, as text. -/
def textFields (payload : Payload) (ts : ℕ) : List TextField :=
  [.oneLine "From" (addressForKey blake3 payload.sender) isFieldName_from
    (unblank_addressForKey blake3 _).line] ++
  (payload.headers.thread.map fun thread =>
    .oneLine "References" (bracketed thread) isFieldName_references
      (unblank_bracketed thread).line).toList ++
  [.oneLine "Date" (formatRfc5322Date ts) isFieldName_date (lf_not_mem_formatRfc5322Date ts),
    .encoded "Subject" (sanitizeHeaderValue (payload.headers.subject.getD "")) isFieldName_subject
      (lf_not_mem_sanitizeHeaderValue _),
    .oneLine "Message-ID" (bracketed (blake316 blake3 payload.body)) isFieldName_messageId
      (unblank_bracketed _).line,
    .oneLine "MIME-Version" "1.0" isFieldName_mimeVersion lf_not_mem_version,
    .oneLine "Content-Type"
      (sanitizeHeaderValue (payload.headers.mime.getD "text/plain; charset=utf-8"))
      isFieldName_contentType (lf_not_mem_sanitizeHeaderValue _),
    .oneLine "Content-Transfer-Encoding" "8bit" isFieldName_transferEncoding lf_not_mem_eightBit]

theorem flatMap_written_eq (payload : Payload) (ts : ℕ) :
    (madeFields blake3 payload ts).flatMap WrittenField.written =
      utf8 (String.ofList ((textFields blake3 payload ts).flatMap TextField.text)) := by
  unfold madeFields textFields referencesFields dateField subjectField mimeVersionField
    contentTypeField
  cases payload.headers.thread <;>
    simp only [Option.map_none, Option.map_some, Option.toList_none, Option.toList_some,
      List.flatMap_append, List.flatMap_cons, List.flatMap_nil, written_text,
      String.ofList_append, TextField.text_oneLine, text_encoded, utf8_append,
      List.append_nil, List.append_assoc, bracketed]

/-- The fields that a reader of the message finds, and what it decodes the subject to. -/
theorem headers_rendered {payload : Payload} (h : rawHeadersExt payload.headers = none) (ts : ℕ) :
    ∃ subject, (ParsedMessage.parse (renderRfc5322 blake3 payload ts)).headers =
        [("From", addressForKey blake3 payload.sender)] ++
        (payload.headers.thread.map fun thread => ("References", bracketed thread)).toList ++
        [("Date", formatRfc5322Date ts), ("Subject", subject),
          ("Message-ID", bracketed (blake316 blake3 payload.body)), ("MIME-Version", "1.0"),
          ("Content-Type", trim (sanitizeHeaderValue
            (payload.headers.mime.getD "text/plain; charset=utf-8"))),
          ("Content-Transfer-Encoding", "8bit")] ∧
      ∀ sent, sanitizeHeaderValue (payload.headers.subject.getD "") = sent →
        ¬IsPrintable sent ∨ ReadsAsWritten sent → decodeEncodedWords subject = sent := by
  have hheaders : (splitHeaders (renderRfc5322 blake3 payload ts)).1 =
      (textFields blake3 payload ts).map TextField.shown := by
    rw [renderRfc5322_eq blake3 h, fst_splitHeaders_written (madeFields_ne_nil blake3 payload ts),
      flatMap_written_eq, TextField.parseHeaderBlock_text]
  obtain ⟨subject, hshown⟩ : ∃ subject, (TextField.encoded "Subject"
      (sanitizeHeaderValue (payload.headers.subject.getD "")) (by decide)
      (lf_not_mem_sanitizeHeaderValue _)).shown = ("Subject", subject) := by
    unfold TextField.encoded
    split
    · exact ⟨_, rfl⟩
    · exact ⟨_, rfl⟩
  refine ⟨subject, ?_, ?_⟩
  · have hversion : trim "1.0" = "1.0" := by decide
    have hencoding : trim "8bit" = "8bit" := by decide
    rw [ParsedMessage.headers_parse, hheaders]
    unfold textFields
    cases payload.headers.thread <;>
      simp only [Option.map_none, Option.map_some, Option.toList_none, Option.toList_some,
        List.map_append, List.map_cons, List.map_nil, TextField.shown_oneLine, hversion, hencoding,
        trim_formatRfc5322Date, (unblank_addressForKey blake3 _).trimmed,
        (unblank_bracketed _).trimmed, hshown]
  · rintro sent rfl hsent
    have hdecoded := @decode_shown_encoded "Subject" _ (by decide)
      (lf_not_mem_sanitizeHeaderValue _) hsent
    rwa [hshown] at hdecoded

/-- A message made for a payload is read back whole: each field has the value that it was made with,
but for white space at its ends, the subject is decoded to what was sent where it is not printable
ASCII or reads as it is written, and the body is the payload's, up to a line end. -/
theorem rendered_reads_back {payload : Payload} (h : rawHeadersExt payload.headers = none)
    (ts : ℕ) : ∃ subject,
      (ParsedMessage.parse (renderRfc5322 blake3 payload ts)).headers =
        [("From", addressForKey blake3 payload.sender)] ++
        (payload.headers.thread.map fun thread => ("References", bracketed thread)).toList ++
        [("Date", formatRfc5322Date ts), ("Subject", subject),
          ("Message-ID", bracketed (blake316 blake3 payload.body)), ("MIME-Version", "1.0"),
          ("Content-Type", trim (sanitizeHeaderValue
            (payload.headers.mime.getD "text/plain; charset=utf-8"))),
          ("Content-Transfer-Encoding", "8bit")] ∧
      (ParsedMessage.parse (renderRfc5322 blake3 payload ts)).body =
        payload.body ++ (if payload.body.getLast? = some 10 then [] else utf8 "\r\n") ∧
      ∀ sent, sanitizeHeaderValue (payload.headers.subject.getD "") = sent →
        ¬IsPrintable sent ∨ ReadsAsWritten sent → decodeEncodedWords subject = sent := by
  obtain ⟨subject, hheaders, hdecoded⟩ := headers_rendered blake3 h ts
  exact ⟨subject, hheaders, (splitHeaders_renderRfc5322 blake3 h ts).2, hdecoded⟩

/-- A note with a subject that is not ASCII. -/
def greeting : Payload where
  sender := []
  sig := []
  headers := ⟨some [1], some "Grüße", none, [], [], none⟩
  body := utf8 "hi"
  refs := []
  attach := []
  expires := none

theorem rendered_reads_back_greeting :
    ∃ subject, ((ParsedMessage.parse (renderRfc5322 (fun _ => ⟨List.replicate 32 0, rfl⟩) greeting
      0)).headers.filter fun field => field.1 ∈ ["From", "References", "Subject", "Content-Type"]) =
        [("From", "unknown@dmtap.local"), ("References", "<01@dmtap.local>"), ("Subject", subject),
          ("Content-Type", "text/plain; charset=utf-8")] ∧
      decodeEncodedWords subject = "Grüße" := by
  obtain ⟨subject, hheaders, -, hdecoded⟩ :=
    @rendered_reads_back (fun _ => ⟨List.replicate 32 0, rfl⟩) greeting rfl 0
  have hreference : bracketed [1] = "<01@dmtap.local>" := by decide
  have htype : trim (sanitizeHeaderValue "text/plain; charset=utf-8") =
      "text/plain; charset=utf-8" := by decide
  refine ⟨subject, ?_, hdecoded "Grüße" (by decide) (.inl ?_)⟩
  · rw [hheaders, ← hreference, ← htype]
    rfl
  · intro hprintable
    exact absurd (hprintable 'ü' (by decide)) (by decide)

end Message
end Dmtap.Mail
