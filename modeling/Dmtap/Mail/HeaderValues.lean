import Dmtap.Mail.Rfc5322
import Mathlib.Data.List.TakeWhile

/-! Header values written and read back: words on folded lines, unfolded by the reader of the header
and decoded one by one, or printable text that goes through as it is. -/
namespace Dmtap.Mail
open Lib

section Unfolding

/-- What follows the first word of a folded value on its lines. -/
def foldedRest : List (List Char) → List Char
  | [] => ['\r', '\n']
  | word :: words => '\r' :: '\n' :: ' ' :: (word ++ foldedRest words)

/-- What follows the first word of an unfolded value. -/
def unfoldedRest (words : List (List Char)) : List Char := words.flatMap (' ' :: ·)

theorem intercalate_fold (word : List Char) (words : List (List Char)) :
    ("\r\n ".intercalate ((word :: words).map String.ofList)).toList ++ ['\r', '\n'] =
      word ++ foldedRest words := by
  induction words generalizing word with
  | nil =>
    rw [List.map_singleton, String.intercalate_singleton, String.toList_ofList]
    rfl
  | cons next words ih =>
    have hnext := ih next
    rw [List.map_cons, List.map_cons, String.intercalate_cons_cons, ← List.map_cons,
      String.toList_append, String.toList_append, List.append_assoc, hnext, String.toList_ofList,
      List.append_assoc]
    rfl

theorem stripSuffix_cr (cs : List Char) :
    (stripSuffix '\r' (String.ofList (cs ++ ['\r']))).getD (String.ofList (cs ++ ['\r'])) =
      String.ofList cs := by
  have hlast : (cs ++ ['\r']).getLast? = some '\r' := List.getLast?_concat
  unfold stripSuffix
  rw [String.toList_ofList, if_pos hlast, List.dropLast_concat, Option.getD_some]

theorem trim_cons_space (cs : List Char) :
    trim (String.ofList (' ' :: cs)) = trim (String.ofList cs) := by
  have hspace : isWhitespace ' ' = true := by decide
  rw [← String.toList_inj, toList_trim, toList_trim, String.toList_ofList, String.toList_ofList,
    List.dropWhile_cons_of_pos hspace]

/-- An indented line goes to the value of the last field. -/
theorem readHeaderLine_fold {word : List Char} (hword : trim (String.ofList word) = String.ofList word)
    (name val : String) :
    readHeaderLine [(name, val)] (String.ofList (' ' :: word ++ ['\r'])) =
      [(name, val ++ " " ++ String.ofList word)] := by
  have hne : String.ofList (' ' :: word) ≠ "" := by simp [← String.toList_inj]
  have hindent : ((String.ofList (' ' :: word)).toList.head? = some ' ' ||
      (String.ofList (' ' :: word)).toList.head? = some '\t') = true := by
    rw [String.toList_ofList]
    rfl
  unfold readHeaderLine
  dsimp only
  rw [stripSuffix_cr, if_neg hne, hindent, trim_cons_space, hword]
  rfl

theorem readHeaderLine_first {name : List Char} (hname : ':' ∉ name) (word : List Char) :
    readHeaderLine [] (String.ofList (name ++ ':' :: ' ' :: word ++ ['\r'])) =
      [(trim (String.ofList name), trim (String.ofList word))] := by
  have hline : String.ofList (name ++ ':' :: ' ' :: word) ≠ "" := by
    simp [← String.toList_inj]
  unfold readHeaderLine
  dsimp only
  rw [stripSuffix_cr, if_neg hline, List.isEmpty_nil, Bool.not_true, Bool.and_false,
    if_neg Bool.false_ne_true, splitOnce_append hname, ← trim_cons_space word]
  rfl

/-- Text that is taken for one word of a value: on one line, and not trimmed. -/
structure IsWord (word : List Char) : Prop where
  line : '\n' ∉ word
  trimmed : trim (String.ofList word) = String.ofList word

/-- By induction on the words: each folded line adds its word. -/
theorem foldl_foldedRest {words : List (List Char)} (h : ∀ word ∈ words, IsWord word)
    (name val : String) :
    (words.map fun word => String.ofList (' ' :: word ++ ['\r'])).foldl readHeaderLine
      [(name, val)] = [(name, val ++ String.ofList (unfoldedRest words))] := by
  induction words generalizing val with
  | nil => simp [unfoldedRest]
  | cons word words ih =>
    obtain ⟨hword, hrest⟩ := List.forall_mem_cons.mp h
    rw [List.map_cons, List.foldl_cons, readHeaderLine_fold hword.trimmed, ih hrest]
    simp [unfoldedRest, ← String.toList_inj]

theorem split_foldedRest {first : List Char} (hfirst : '\n' ∉ first) {words : List (List Char)}
    (h : ∀ word ∈ words, IsWord word) :
    split '\n' (String.ofList (first ++ foldedRest words)) =
      String.ofList (first ++ ['\r']) ::
        (words.map fun word => String.ofList (' ' :: word ++ ['\r'])) ++ [""] := by
  have hend : ∀ {cs : List Char}, '\n' ∉ cs → '\n' ∉ cs ++ ['\r'] := by
    intro cs hcs
    simp [hcs]
  induction words generalizing first with
  | nil =>
    have hsplit := split_cons (hend hfirst) []
    rw [List.append_assoc] at hsplit
    exact hsplit
  | cons word words ih =>
    obtain ⟨hword, hrest⟩ := List.forall_mem_cons.mp h
    have hnext : '\n' ∉ ' ' :: word := by
      simp [hword.line]
    have hsplit := split_cons (hend hfirst) (' ' :: word ++ foldedRest words)
    rw [List.append_assoc] at hsplit
    rw [ih hnext hrest] at hsplit
    exact hsplit

/-- A folded value is read as its words with a space between them. -/
theorem parseHeaderBlock_folded {name first : List Char} (hname : ':' ∉ name ∧ '\n' ∉ name)
    (htrim : trim (String.ofList name) = String.ofList name) (hfirst : IsWord first)
    {words : List (List Char)} (h : ∀ word ∈ words, IsWord word) :
    parseHeaderBlock (utf8 (String.ofList (name ++ ':' :: ' ' :: first ++ foldedRest words))) =
      [(String.ofList name, String.ofList (first ++ unfoldedRest words))] := by
  have hline : '\n' ∉ name ++ ':' :: ' ' :: first := by
    simp [hname.2, hfirst.line]
  have hblank : ∀ out, readHeaderLine out "" = out := fun out => rfl
  unfold parseHeaderBlock headerText
  rw [fromUtf8_utf8, Option.getD_some, split_foldedRest hline h, List.foldl_append, List.foldl_cons,
    hblank, List.foldl_nil, List.foldl_cons, readHeaderLine_first hname.1, htrim, hfirst.trimmed,
    foldl_foldedRest h, String.ofList_append]

/-- A folded value is not followed by an empty line. -/
theorem separator_folded {b : Bytes} (h : Folded b) : separator (b ++ [10]) = none := by
  induction b with
  | nil => rfl
  | cons x b ih =>
    have hrest := ih h.tail
    rw [List.cons_append]
    by_cases hx : x = 10
    · subst hx
      obtain ⟨b, rfl⟩ := List.head?_eq_some_iff.mp (h [] b rfl)
      rw [separator_cons_lf (fun _ heq => by cases heq) (fun _ heq => by cases heq), hrest]
      rfl
    · rw [separator_cons_of_ne hx, hrest]
      rfl

end Unfolding

section Words

theorem forall_mem_of_all {P : Char → Prop} [DecidablePred P] {cs : List Char}
    (h : cs.all (fun c => decide (P c)) = true) : ∀ c ∈ cs, P c := by
  simpa using h

theorem forall_base64Chars {P : Char → Prop} [DecidablePred P]
    (halphabet : base64Alphabet.all (fun c => decide (P c)) = true) (hpad : P '=') (b : Bytes) :
    ∀ c ∈ base64Chars b, P c := by
  have hchar : ∀ n, P (base64Char n) := fun n => forall_getD (forall_mem_of_all halphabet) hpad _
  induction b using base64Chars.induct with
  | case1 => exact fun c hc => absurd hc List.not_mem_nil
  | case2 b₀ => simp [base64Chars, hchar, hpad]
  | case3 b₀ b₁ => simp [base64Chars, hchar, hpad]
  | case4 b₀ b₁ b₂ rest ih =>
    simp only [base64Chars, List.forall_mem_cons]
    exact ⟨hchar _, hchar _, hchar _, hchar _, ih⟩

/-- The encoded word of a chunk. -/
def wordOf (chunk : List Char) : List Char :=
  '=' :: '?' :: ("UTF-8".toList ++ '?' :: 'B' :: '?' ::
    (base64Chars (utf8 (String.ofList chunk)) ++ ['?', '=']))

theorem encodeOneWord_eq (chunk : List Char) :
    encodeOneWord (String.ofList chunk) = String.ofList (wordOf chunk) := by
  have hword : (String.ofList (wordOf chunk)).toList = wordOf chunk := String.toList_ofList
  have hbase : (base64Encode (utf8 (String.ofList chunk))).toList =
      base64Chars (utf8 (String.ofList chunk)) := String.toList_ofList
  rw [← String.toList_inj, hword, encodeOneWord, String.toList_append, String.toList_append, hbase,
    List.append_assoc]
  rfl

theorem isWhitespace_wordOf (chunk : List Char) : ∀ c ∈ wordOf chunk, isWhitespace c = false := by
  have hbase := forall_base64Chars (P := fun c => isWhitespace c = false) (by decide) (by decide)
    (utf8 (String.ofList chunk))
  intro c hc
  simp only [wordOf, List.mem_cons, List.mem_append, List.not_mem_nil, or_false] at hc
  rcases hc with rfl | rfl | hc | rfl | rfl | rfl | hc | rfl | rfl
  · decide
  · decide
  · exact forall_mem_of_all (P := fun c => isWhitespace c = false) (by decide) c hc
  · decide
  · decide
  · decide
  · exact hbase c hc
  · decide
  · decide

theorem isWord_of_not_whitespace {word : List Char} (h : ∀ c ∈ word, isWhitespace c = false) :
    IsWord word where
  line := fun hmem => absurd (h _ hmem) (by decide)
  trimmed := trim_eq_self h

theorem isLinearSpace_of_not_whitespace {c : Char} (h : isWhitespace c = false) :
    isLinearSpace c = false := by
  unfold isLinearSpace
  rw [Bool.or_eq_false_iff, beq_eq_false_iff_ne, beq_eq_false_iff_ne]
  constructor
  · rintro rfl
    exact absurd h (by decide)
  · rintro rfl
    exact absurd h (by decide)

theorem splitAtEnd_append {cs : List Char} (h : '?' ∉ cs) (rest : List Char) :
    splitAtEnd (cs ++ '?' :: '=' :: rest) = some (cs, rest) := by
  induction cs with
  | nil => rfl
  | cons c cs ih =>
    obtain ⟨hc, hcs⟩ := not_or.mp (mt List.mem_cons.mpr h)
    rw [List.cons_append, splitAtEnd, ih hcs]
    · rfl
    · intro _ heq _
      exact hc heq.symm

/-- A word gives its chunk back, whatever stands behind it. -/
theorem decodeOneEncodedWord_wordOf (chunk rest : List Char) :
    decodeOneEncodedWord (wordOf chunk ++ rest) = some (chunk, rest) := by
  have hsplit : splitOnceList '?' ("UTF-8".toList ++ '?' :: 'B' :: '?' ::
      (base64Chars (utf8 (String.ofList chunk)) ++ '?' :: '=' :: rest)) =
        some ("UTF-8".toList, 'B' :: '?' ::
          (base64Chars (utf8 (String.ofList chunk)) ++ '?' :: '=' :: rest)) := rfl
  have hquestion := forall_base64Chars (P := fun c => c ≠ '?') (by decide) (by decide)
    (utf8 (String.ofList chunk))
  have hblank := forall_base64Chars (P := fun c => c ≠ ' ') (by decide) (by decide)
    (utf8 (String.ofList chunk))
  have hend := splitAtEnd_append (fun hmem => hquestion _ hmem rfl) rest
  have hcharset : (decodeCharset (utf8 (String.ofList chunk))
      (String.ofList ("UTF-8".toList.takeWhile (· != '*')))).1.toList = chunk := by
    have hname : (String.ofList (trimMatches '"'
        (trim (String.ofList ("UTF-8".toList.takeWhile (· != '*')))).toList)).toLower = "utf-8" := by
      decide +kernel
    unfold decodeCharset
    rw [hname, if_pos (by decide), fromUtf8_utf8, String.toList_ofList]
  have hfront : wordOf chunk ++ rest = '=' :: '?' :: ("UTF-8".toList ++ '?' :: 'B' :: '?' ::
      (base64Chars (utf8 (String.ofList chunk)) ++ '?' :: '=' :: rest)) := by
    simp [wordOf]
  have hstart : ['=', '?'] <+: wordOf chunk ++ rest := ⟨_, hfront.symm⟩
  have hbytes := base64Decode_base64Encode (utf8 (String.ofList chunk))
  unfold decodeOneEncodedWord
  rw [if_pos hstart, hfront]
  simp only [List.drop_succ_cons, List.drop_zero, hsplit, Option.bind_eq_bind, Option.bind_some]
  have hshort : ("UTF-8".toList.isEmpty ||
      decide (60 < (utf8 (String.ofList "UTF-8".toList)).length)) = false := by decide
  have hclean : ((base64Chars (utf8 (String.ofList chunk))).contains '?' ||
      (base64Chars (utf8 (String.ofList chunk))).contains ' ') = false := by
    simp only [Bool.or_eq_false_iff, List.contains_eq_mem, decide_eq_false_iff_not]
    exact ⟨fun hmem => hquestion _ hmem rfl, fun hmem => hblank _ hmem rfl⟩
  unfold base64Encode at hbytes
  rw [hshort, if_neg Bool.false_ne_true]
  simp only [List.head?_cons, List.tail_cons, Option.bind_some, if_true, hend, hclean,
    Bool.false_eq_true, if_false, decide_true, Bool.true_or, hbytes, hcharset]

theorem wordOf_start (chunk : List Char) : ['=', '?'] <+: wordOf chunk := ⟨_, rfl⟩

theorem wordOf_ne_nil (chunk : List Char) : wordOf chunk ≠ [] := List.cons_ne_nil _ _

theorem decodeEncodedWordRun_wordOf (chunk : List Char) :
    decodeEncodedWordRun (wordOf chunk) = some chunk := by
  have hone := decodeOneEncodedWord_wordOf chunk []
  have hdone : ∀ fuel, decodeRunLoop fuel [] = some [] := by
    intro fuel
    cases fuel <;> rfl
  obtain ⟨c, tok, hcons⟩ := List.exists_cons_of_ne_nil (wordOf_ne_nil chunk)
  rw [List.append_nil, hcons] at hone
  unfold decodeEncodedWordRun
  rw [if_pos (wordOf_start chunk), hcons, List.length_cons, decodeRunLoop, hone]
  · simp [hdone]
  · simp

end Words

section Tokens

/-- A text as its decoder takes it apart: blanks, a token, and what stands behind it. -/
theorem blanks_token {ws tok next : List Char} (hws : ∀ c ∈ ws, isLinearSpace c = true)
    (htok : ∀ c ∈ tok, isLinearSpace c = false) (hne : tok ≠ [])
    (hnext : ∀ c ∈ next.head?, isLinearSpace c = true) :
    (ws ++ (tok ++ next)).takeWhile isLinearSpace = ws ∧
      (ws ++ (tok ++ next)).dropWhile isLinearSpace = tok ++ next ∧
      (tok ++ next).takeWhile (!isLinearSpace ·) = tok ∧
      (tok ++ next).dropWhile (!isLinearSpace ·) = next := by
  have hkeep : ∀ c ∈ tok, (!isLinearSpace c) = true := by
    intro c hc
    rw [htok c hc, Bool.not_false]
  have hstart : (tok ++ next).takeWhile isLinearSpace = [] ∧
      (tok ++ next).dropWhile isLinearSpace = tok ++ next := by
    obtain ⟨c, tok, rfl⟩ := List.exists_cons_of_ne_nil hne
    have hc := htok c List.mem_cons_self
    simp [hc]
  have hend : next.takeWhile (!isLinearSpace ·) = [] ∧
      next.dropWhile (!isLinearSpace ·) = next := by
    cases next with
    | nil => exact ⟨rfl, rfl⟩
    | cons c next =>
      have hc := hnext c rfl
      simp [hc]
  refine ⟨?_, ?_, ?_, ?_⟩
  · rw [List.takeWhile_append_of_pos hws, hstart.1, List.append_nil]
  · rw [List.dropWhile_append_of_pos hws, hstart.2]
  · rw [List.takeWhile_append_of_pos hkeep, hend.1, List.append_nil]
  · rw [List.dropWhile_append_of_pos hkeep, hend.2]

/-- One round of the decoder. The blanks in front of encoded words go if the token before was one
of encoded words too. -/
theorem decodeWordsLoop_token {ws tok next : List Char} (hws : ∀ c ∈ ws, isLinearSpace c = true)
    (htok : ∀ c ∈ tok, isLinearSpace c = false) (hne : tok ≠ [])
    (hnext : ∀ c ∈ next.head?, isLinearSpace c = true) (fuel : ℕ) (last : Bool) :
    decodeWordsLoop (fuel + 1) last (ws ++ (tok ++ next)) =
      (decodeEncodedWordRun tok).elim (ws ++ tok ++ decodeWordsLoop fuel false next) fun decoded =>
        (if last then [] else ws) ++ decoded ++ decodeWordsLoop fuel true next := by
  obtain ⟨hblanks, hafter, htoken, hrest⟩ := blanks_token hws htok hne hnext
  rw [decodeWordsLoop]
  simp only [hblanks, hafter, htoken, hrest]
  rw [if_neg (by simpa using hne)]
  cases decodeEncodedWordRun tok with
  | none => rfl
  | some decoded => rfl

theorem isLinearSpace_wordOf (chunk : List Char) : ∀ c ∈ wordOf chunk, isLinearSpace c = false :=
  fun c hc => isLinearSpace_of_not_whitespace (isWhitespace_wordOf chunk c hc)

theorem head?_unfoldedRest (words : List (List Char)) :
    ∀ c ∈ (unfoldedRest words).head?, isLinearSpace c = true := by
  cases words with
  | nil => simp [unfoldedRest]
  | cons word words => simp [unfoldedRest, isLinearSpace]

theorem length_le_unfoldedRest (words : List (List Char)) :
    words.length ≤ (unfoldedRest words).length := by
  induction words with
  | nil => simp
  | cons word words ih =>
    simp only [unfoldedRest, List.flatMap_cons, List.length_append, List.length_cons] at ih ⊢
    omega

theorem decodeWordsLoop_nil (fuel : ℕ) (last : Bool) : decodeWordsLoop fuel last [] = [] := by
  cases fuel <;> rfl

/-- By induction on the chunks: the blank in front of each further word is dropped. -/
theorem decodeWordsLoop_unfoldedRest (chunks : List (List Char)) {fuel : ℕ}
    (hfuel : chunks.length ≤ fuel) :
    decodeWordsLoop fuel true (unfoldedRest (chunks.map wordOf)) = chunks.flatten := by
  induction chunks generalizing fuel with
  | nil => exact decodeWordsLoop_nil fuel true
  | cons chunk chunks ih =>
    obtain ⟨fuel, rfl⟩ := Nat.exists_eq_add_one_of_ne_zero (Nat.ne_zero_of_lt hfuel)
    have hrest := ih (Nat.le_of_succ_le_succ hfuel)
    have hblank : ∀ c ∈ [' '], isLinearSpace c = true := by simp [isLinearSpace]
    have hstep := decodeWordsLoop_token hblank (isLinearSpace_wordOf chunk) (wordOf_ne_nil chunk)
      (head?_unfoldedRest (chunks.map wordOf)) fuel true
    rw [decodeEncodedWordRun_wordOf, Option.elim_some, hrest] at hstep
    rw [List.flatten_cons]
    simpa [unfoldedRest] using hstep

/-- A value written as words is decoded to the text of its chunks. -/
theorem decodeEncodedWords_words (chunk : List Char) (chunks : List (List Char)) :
    decodeEncodedWords (String.ofList (wordOf chunk ++ unfoldedRest (chunks.map wordOf))) =
      String.ofList (chunk :: chunks).flatten := by
  have hlength : chunks.length + 1 ≤
      (wordOf chunk ++ unfoldedRest (chunks.map wordOf)).length := by
    have hrest := length_le_unfoldedRest (chunks.map wordOf)
    rw [List.length_map] at hrest
    rw [List.length_append, wordOf, List.length_cons]
    omega
  obtain ⟨fuel, hfuel⟩ := Nat.exists_eq_add_of_le' hlength
  have hnone : ∀ c ∈ ([] : List Char), isLinearSpace c = true := by simp
  have hstep := decodeWordsLoop_token hnone (isLinearSpace_wordOf chunk) (wordOf_ne_nil chunk)
    (head?_unfoldedRest (chunks.map wordOf)) (fuel + chunks.length) false
  have hrest := decodeWordsLoop_unfoldedRest chunks (Nat.le_add_left chunks.length fuel)
  unfold decodeEncodedWords
  rw [String.length_ofList, String.toList_ofList, hfuel, ← Nat.add_assoc, List.flatten_cons]
  rw [decodeEncodedWordRun_wordOf, Option.elim_some, hrest] at hstep
  exact congrArg String.ofList hstep

/-- The tokens of a text between blanks. -/
def blankTokens (cs : List Char) : List (List Char) := cs.splitOnP isLinearSpace

theorem blankTokens_blanks {ws : List Char} (hws : ∀ c ∈ ws, isLinearSpace c = true)
    (cs : List Char) : ∀ tok ∈ blankTokens cs, tok ∈ blankTokens (ws ++ cs) := by
  intro tok htok
  induction ws with
  | nil => exact htok
  | cons c ws ih =>
    obtain ⟨hc, hrest⟩ := List.forall_mem_cons.mp hws
    have hsplit := List.splitOnP_append_cons [] (ws ++ cs) hc
    rw [List.nil_append, List.splitOnP_nil] at hsplit
    rw [blankTokens, List.cons_append, hsplit]
    exact List.mem_cons_of_mem [] (ih hrest)

theorem mem_blankTokens {tok next : List Char} (htok : ∀ c ∈ tok, isLinearSpace c = false)
    (hnext : ∀ c ∈ next.head?, isLinearSpace c = true) :
    tok ∈ blankTokens (tok ++ next) ∧
      ∀ t ∈ blankTokens next, t = [] ∨ t ∈ blankTokens (tok ++ next) := by
  unfold blankTokens
  cases next with
  | nil =>
    rw [List.append_nil, List.splitOnP_eq_singleton htok, List.splitOnP_nil]
    simp
  | cons c next =>
    have hc := hnext c rfl
    have hsplit := List.splitOnP_append_cons tok next hc
    have hcons := List.splitOnP_append_cons [] next hc
    rw [List.splitOnP_eq_singleton htok] at hsplit
    rw [List.nil_append, List.splitOnP_nil] at hcons
    rw [hsplit, hcons]
    refine ⟨List.mem_append_left _ List.mem_cons_self, fun t ht => ?_⟩
    rcases List.mem_append.mp ht with ht | ht
    · exact .inl (List.mem_singleton.mp ht)
    · exact .inr (List.mem_append_right _ ht)

/-- Every text is blanks, a token and what stands behind it, or blanks alone. -/
theorem exists_blanks_token (cs : List Char) :
    ∃ ws tok next, cs = ws ++ (tok ++ next) ∧ (∀ c ∈ ws, isLinearSpace c = true) ∧
      (∀ c ∈ tok, isLinearSpace c = false) ∧ (∀ c ∈ next.head?, isLinearSpace c = true) ∧
      (tok = [] → next = []) := by
  have hafter : ∀ c ∈ (cs.dropWhile isLinearSpace).head?, isLinearSpace c = false := by
    intro c hc
    have hdrop := List.head?_dropWhile_not isLinearSpace cs
    rw [Option.mem_def.mp hc] at hdrop
    simpa using hdrop
  refine ⟨cs.takeWhile isLinearSpace, (cs.dropWhile isLinearSpace).takeWhile (!isLinearSpace ·),
    (cs.dropWhile isLinearSpace).dropWhile (!isLinearSpace ·), ?_, ?_, ?_, ?_, ?_⟩
  · rw [List.takeWhile_append_dropWhile, List.takeWhile_append_dropWhile]
  · exact List.all_eq_true.mp List.all_takeWhile
  · intro c hc
    have hkeep := List.all_eq_true.mp List.all_takeWhile c hc
    simpa using hkeep
  · intro c hc
    have hdrop := List.head?_dropWhile_not (!isLinearSpace ·) (cs.dropWhile isLinearSpace)
    rw [Option.mem_def.mp hc] at hdrop
    simpa using hdrop
  · intro htok
    cases hcs : cs.dropWhile isLinearSpace with
    | nil => rfl
    | cons c after =>
      have hc := hafter c (by rw [hcs]; rfl)
      rw [hcs, List.takeWhile_cons_of_pos (by simpa using hc)] at htok
      exact absurd htok (List.cons_ne_nil _ _)

/-- Text in which no token starts like a word is left as it is. -/
theorem decodeWordsLoop_plain {cs : List Char}
    (h : ∀ tok ∈ blankTokens cs, ¬ ['=', '?'] <+: tok) {fuel : ℕ} (hfuel : cs.length ≤ fuel)
    (last : Bool) : decodeWordsLoop fuel last cs = cs := by
  induction fuel generalizing cs last with
  | zero =>
    rw [List.eq_nil_of_length_eq_zero (Nat.le_zero.mp hfuel)]
    rfl
  | succ fuel ih =>
    obtain ⟨ws, tok, next, rfl, hws, htok, hnext, hend⟩ := exists_blanks_token cs
    by_cases hne : tok = []
    · have hblanks : ws.takeWhile isLinearSpace = ws := List.takeWhile_eq_self_iff.mpr hws
      have hafter : ws.dropWhile isLinearSpace = [] := List.dropWhile_eq_nil_iff.mpr hws
      rw [hend hne, hne, List.append_nil, List.append_nil, decodeWordsLoop, hblanks, hafter]
      rfl
    · obtain ⟨hmem, hrest⟩ := mem_blankTokens htok hnext
      have hrun : decodeEncodedWordRun tok = none := by
        rw [decodeEncodedWordRun, if_neg (h tok (blankTokens_blanks hws _ tok hmem))]
      have hplain : ∀ t ∈ blankTokens next, ¬ ['=', '?'] <+: t := by
        intro t ht
        rcases hrest t ht with rfl | ht
        · simp
        · exact h t (blankTokens_blanks hws _ t ht)
      have hpos := List.length_pos_of_ne_nil hne
      rw [List.length_append, List.length_append] at hfuel
      have hnextFuel : next.length ≤ fuel := by omega
      rw [decodeWordsLoop_token hws htok hne hnext, hrun, Option.elim_none, ih hplain hnextFuel,
        List.append_assoc]

end Tokens

section RoundTrip

/-- The chunks of a text are its characters, and there is one if there are any. -/
theorem flatten_chunksFrom (cs chunk : List Char) :
    (chunksFrom chunk cs).flatten = chunk ++ cs := by
  induction cs generalizing chunk with
  | nil =>
    unfold chunksFrom
    cases chunk <;> simp
  | cons c cs ih =>
    unfold chunksFrom
    split
    · rw [List.flatten_cons, ih, List.singleton_append]
    · rw [ih, List.append_assoc, List.singleton_append]

/-- Every character is printable ASCII or a tab. -/
def IsPrintable (v : String) : Prop :=
  ∀ c ∈ v.toList, c = '\t' ∨ 32 ≤ c.toNat ∧ c.toNat < 127

theorem isWireSafeAscii_iff (v : String) : isWireSafeAscii v = true ↔ IsPrintable v := by
  have hbyte : ∀ c : Char, (∀ b ∈ String.utf8EncodeChar c,
      (b == 9 || (0x20 ≤ b && b < 0x7f)) = true) ↔ c = '\t' ∨ 32 ≤ c.toNat ∧ c.toNat < 127 := by
    intro c
    by_cases hc : c.toNat < 128
    · have htab : c = '\t' ↔ c.toNat = 9 := Char.toNat_inj.symm
      have hnat : (UInt8.ofNat c.toNat).toNat = c.toNat := toNat_asciiByte hc
      rw [keepsAscii_utf8.ascii c hc, List.forall_mem_singleton, htab]
      simp only [Bool.or_eq_true, Bool.and_eq_true, beq_iff_eq, decide_eq_true_eq,
        ← UInt8.toNat_inj, UInt8.le_iff_toNat_le, UInt8.lt_iff_toNat_lt, hnat]
      rfl
    · have hlarge := keepsAscii_utf8.other c (Nat.le_of_not_lt hc)
      obtain ⟨b, bytes, hcons⟩ := List.exists_cons_of_ne_nil (keepsAscii_utf8.ne_nil c)
      have hb := hlarge b (by rw [hcons]; exact List.mem_cons_self)
      constructor
      · intro hall
        have hok := hall b (by rw [hcons]; exact List.mem_cons_self)
        simp only [Bool.or_eq_true, Bool.and_eq_true, beq_iff_eq, decide_eq_true_eq,
          ← UInt8.toNat_inj, UInt8.lt_iff_toNat_lt] at hok
        have h9 : (9 : UInt8).toNat = 9 := rfl
        have h127 : (0x7f : UInt8).toNat = 127 := rfl
        omega
      · intro hprint
        rcases hprint with rfl | hprint
        · exact absurd (by decide) hc
        · omega
  unfold isWireSafeAscii IsPrintable
  rw [utf8_toList, List.all_eq_true]
  constructor
  · intro hall c hc
    exact (hbyte c).mp fun b hb => hall b (List.mem_flatMap.mpr ⟨c, hc, hb⟩)
  · intro hall b hb
    obtain ⟨c, hc, hb⟩ := List.mem_flatMap.mp hb
    exact (hbyte c).mpr (hall c hc) b hb

theorem lf_not_mem_of_isPrintable {v : String} (h : IsPrintable v) : '\n' ∉ v.toList := by
  intro hmem
  exact absurd (h '\n' hmem) (by decide)

/-- A message that is one folded field: its value is read with a space for each fold. -/
theorem header_headerLine {value : String} (hfolded : FoldedText value) {first : List Char}
    {words : List (List Char)} (hvalue : value.toList ++ ['\r', '\n'] = first ++ foldedRest words)
    (hfirst : IsWord first) (h : ∀ word ∈ words, IsWord word) :
    (ParsedMessage.parse (utf8 (headerLine "Subject" value))).header "Subject" =
      some (String.ofList (first ++ unfoldedRest words)) := by
  have htext : headerLine "Subject" value =
      String.ofList ("Subject".toList ++ ':' :: ' ' :: first ++ foldedRest words) := by
    rw [← String.toList_inj, String.toList_ofList, headerLine, String.toList_append,
      String.toList_append, String.toList_append, List.append_assoc, List.append_assoc,
      show "\r\n".toList = ['\r', '\n'] by decide, hvalue]
    simp
  have hline : utf8 (headerLine "Subject" value) = utf8 ("Subject: " ++ value ++ "\r") ++ [10] := by
    have hcrlf : ("\r\n" : String) = "\r" ++ "\n" := by decide
    have hname : ("Subject: " : String) = "Subject" ++ ": " := by decide
    rw [show ([10] : Bytes) = utf8 "\n" by decide, ← utf8_append, headerLine, hcrlf, hname]
    simp only [String.append_assoc]
  have hfold : FoldedText ("Subject: " ++ value ++ "\r") :=
    ((foldedText_of_not_mem (by decide)).append hfolded).append (foldedText_of_not_mem (by decide))
  have hwhole : separator (utf8 (headerLine "Subject" value)) = none := by
    rw [hline]
    exact separator_folded hfold
  have hname : trim (String.ofList "Subject".toList) = String.ofList "Subject".toList := by decide
  have hsame : eqIgnoreAsciiCase (String.ofList "Subject".toList) "Subject" = true := by
    rw [eqIgnoreAsciiCase_iff, String.toList_ofList]
  have hfields := parseHeaderBlock_folded ⟨by decide, by decide⟩ hname hfirst h
  rw [← htext] at hfields
  unfold ParsedMessage.header
  rw [ParsedMessage.headers_parse, splitHeaders, hwhole, Option.getD_none, List.take_length]
  dsimp only
  rw [hfields, List.find?_cons, hsame, Option.map_some]

/-- A printable text that a reader leaves as it is: nothing to trim, and no token like a word. -/
structure ReadsAsWritten (v : String) : Prop where
  printable : IsPrintable v
  trimmed : trim v = v
  tokens : ∀ tok ∈ blankTokens v.toList, ¬ ['=', '?'] <+: tok

theorem decode_header_plain {v : String} (h : ReadsAsWritten v) :
    ∃ value, (ParsedMessage.parse (utf8 (headerLine "Subject" (encodeHeaderValue v)))).header
      "Subject" = some value ∧ decodeEncodedWords value = v := by
  have hvalue : encodeHeaderValue v = v := if_pos ((isWireSafeAscii_iff v).mpr h.printable)
  have hword : IsWord v.toList :=
    ⟨lf_not_mem_of_isPrintable h.printable, by rw [String.ofList_toList, h.trimmed]⟩
  have hline : (encodeHeaderValue v).toList ++ ['\r', '\n'] = v.toList ++ foldedRest [] := by
    rw [hvalue]
    rfl
  have hheader := header_headerLine (foldedText_encodeHeaderValue v) hline hword (by simp)
  refine ⟨_, hheader, ?_⟩
  have hplain := decodeWordsLoop_plain h.tokens (Nat.le_refl v.toList.length) false
  rw [unfoldedRest, List.flatMap_nil, List.append_nil, String.ofList_toList, decodeEncodedWords,
    ← String.length_toList, hplain, String.ofList_toList]

theorem decode_header_words {v : String} (h : ¬ IsPrintable v) :
    ∃ value, (ParsedMessage.parse (utf8 (headerLine "Subject" (encodeHeaderValue v)))).header
      "Subject" = some value ∧ decodeEncodedWords value = v := by
  have hchunks := flatten_chunksFrom v.toList []
  have hne : chunksFrom [] v.toList ≠ [] := by
    intro hnil
    rw [hnil, List.flatten_nil, List.nil_append] at hchunks
    rw [IsPrintable, ← hchunks] at h
    exact h (by simp)
  obtain ⟨chunk, chunks, hcons⟩ := List.exists_cons_of_ne_nil hne
  have hwords : ∀ chunk : List Char, IsWord (wordOf chunk) := fun chunk =>
    isWord_of_not_whitespace (isWhitespace_wordOf chunk)
  have hvalue : (encodeHeaderValue v).toList ++ ['\r', '\n'] =
      wordOf chunk ++ foldedRest (chunks.map wordOf) := by
    rw [encodeHeaderValue, if_neg (mt (isWireSafeAscii_iff v).mp h), hcons, ← intercalate_fold, List.map_cons,
      List.map_cons, List.map_map]
    simp only [encodeOneWord_eq, Function.comp_def]
  have hheader := header_headerLine (foldedText_encodeHeaderValue v) hvalue (hwords chunk) (by
    intro word hword
    obtain ⟨next, -, rfl⟩ := List.mem_map.mp hword
    exact hwords next)
  refine ⟨_, hheader, ?_⟩
  rw [decodeEncodedWords_words, ← hcons, hchunks, List.nil_append, String.ofList_toList]

/-- A value written to a header line is read back: words when it is not printable ASCII, itself
when it is, with nothing to trim and no token that starts like a word. -/
theorem decode_encodeHeaderValue {v : String}
    (h : ¬ IsPrintable v ∨ ReadsAsWritten v) :
    ∃ value, (ParsedMessage.parse (utf8 (headerLine "Subject" (encodeHeaderValue v)))).header
      "Subject" = some value ∧ decodeEncodedWords value = v := by
  rcases h with h | h
  · exact decode_header_words h
  · exact decode_header_plain h

theorem decode_encodeHeaderValue_samples :
    (∃ value, (ParsedMessage.parse (utf8 (headerLine "Subject" (encodeHeaderValue " né ")))).header
      "Subject" = some value ∧ decodeEncodedWords value = " né ") ∧
    ∃ value, (ParsedMessage.parse (utf8 (headerLine "Subject" (encodeHeaderValue "a =b")))).header
      "Subject" = some value ∧ decodeEncodedWords value = "a =b" :=
  ⟨decode_encodeHeaderValue (.inl (by simp [IsPrintable])),
    decode_encodeHeaderValue (.inr ⟨by simp [IsPrintable], by decide, by decide⟩)⟩

end RoundTrip

end Dmtap.Mail
