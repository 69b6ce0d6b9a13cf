import Dmtap.Mail.Ascii
import Dmtap.Mail.Imap.Tokens
import Dmtap.Mail.Net

/-! Commands with literals on the wire. The reader of the socket, which looks for introducers at
the ends of lines, and the tokenizer, which comes to them from the front, find the same
literals. -/
namespace Dmtap.Mail.Imap
open Lib

/-- A literal, the form of its introducer and the text behind it. -/
structure Piece where
  literal : Bytes
  plus : Bool
  text : Bytes

/-- The length of the literal in braces, with a plus sign if the client does not wait. -/
def Piece.introducer (p : Piece) : Bytes :=
  123 :: (utf8 (toString p.literal.length) ++ (if p.plus then [43] else []) ++ [125])

def framed : Bytes → List Piece → Bytes
  | text, [] => text ++ [13, 10]
  | text, p :: ps => text ++ p.introducer ++ [13, 10] ++ p.literal ++ framed p.text ps

/-- The lines on the wire that are not part of a literal. -/
def framedLines : Bytes → List Piece → List Bytes
  | text, [] => [text ++ [13, 10]]
  | text, p :: ps => (text ++ p.introducer ++ [13, 10]) :: framedLines p.text ps

structure PlainText (text : Bytes) : Prop where
  feed : 10 ∉ text
  opening : 123 ∉ unquoted false text
  closing : 125 ∉ unquoted false text

/-- The tokens of each text by itself, and the literals between them. -/
inductive Tokenized : Bytes → List Piece → List Token → Prop where
  | last {text : Bytes} {ts : List Token} (htext : tokenize text = .ok ts) : Tokenized text [] ts
  | literal {text : Bytes} {p : Piece} {ps : List Piece} {ts more : List Token}
    (htext : tokenize text = .ok ts) (hrest : Tokenized p.text ps more) :
    Tokenized text (p :: ps) (ts ++ .literal p.literal :: more)

theorem Tokenized.exists_tokenize {text : Bytes} {ps : List Piece} {ts : List Token}
    (h : Tokenized text ps ts) : ∀ t ∈ text :: ps.map Piece.text, ∃ ts, tokenize t = .ok ts := by
  induction h with
  | last htext =>
    intro t ht
    rw [List.map_nil, List.mem_singleton] at ht
    rw [ht]
    exact ⟨_, htext⟩
  | literal htext _ ih =>
    intro t ht
    obtain rfl | ht := List.mem_cons.mp ht
    · exact ⟨_, htext⟩
    · exact ih t ht

section Tokens

theorem latin1_asciiByte {c : Char} (h : c.toNat < 128) : latin1 (asciiByte c) = c := by
  unfold latin1
  rw [toNat_asciiByte h]
  exact Char.ofNat_toNat c

theorem isAsciiDigit_asciiByte {c : Char} (h : c.isDigit = true) :
    isAsciiDigit (asciiByte c) = true := by
  obtain ⟨hlow, hhigh⟩ := toNat_of_isDigit h
  have hbyte : (asciiByte c).toNat = c.toNat := toNat_asciiByte (by omega)
  unfold isAsciiDigit
  rw [Bool.and_eq_true, decide_eq_true_eq, decide_eq_true_eq, UInt8.le_iff_toNat_le,
    UInt8.le_iff_toNat_le, hbyte]
  exact ⟨hlow, hhigh⟩

theorem isAsciiDigit_of_mem {n : ℕ} {b : UInt8} (h : b ∈ utf8 (toString n)) :
    isAsciiDigit b = true := by
  rw [utf8_toString] at h
  obtain ⟨c, hc, rfl⟩ := List.mem_map.mp h
  exact isAsciiDigit_asciiByte (isDigit_of_mem_toDigits hc)

theorem map_latin1_toString (n : ℕ) :
    String.ofList ((utf8 (toString n)).map latin1) = toString n := by
  have hmap : ((Nat.toDigits 10 n).map asciiByte).map latin1 = Nat.toDigits 10 n := by
    rw [List.map_map]
    refine (List.map_congr_left fun c hc => ?_).trans (List.map_id _)
    have hdigit := toNat_of_isDigit (isDigit_of_mem_toDigits hc)
    exact latin1_asciiByte (by omega)
  rw [utf8_toString, hmap, ← toList_toString, String.ofList_toList]

theorem readLiteral_introducer {literal : Bytes} (plus : Bool) (rest : Bytes)
    (h : literal.length ≤ maxLiteral) :
    readLiteral (utf8 (toString literal.length) ++ (if plus then [43] else []) ++
      125 :: 13 :: 10 :: (literal ++ rest)) = .ok (literal, rest) := by
  have hdigits : ∀ b ∈ utf8 (toString literal.length), isAsciiDigit b = true :=
    fun b hb => isAsciiDigit_of_mem hb
  have hparse : parseU64 (toString literal.length) = some literal.length :=
    parseUnsigned_toString (lt_of_le_of_lt h (by unfold maxLiteral; omega))
  have hsplit : ∃ c tail, (if plus then [43] else []) ++ 125 :: 13 :: 10 :: (literal ++ rest) =
      c :: tail ∧ ¬isAsciiDigit c = true ∧
        skipByte 43 (c :: tail) = 125 :: 13 :: 10 :: (literal ++ rest) := by
    cases plus with
    | true => exact ⟨43, _, rfl, by decide, rfl⟩
    | false => exact ⟨125, _, rfl, by decide, rfl⟩
  obtain ⟨c, tail, htail, hc, hskip⟩ := hsplit
  unfold readLiteral
  rw [List.append_assoc, htail, List.takeWhile_append_of_pos hdigits,
    List.dropWhile_append_of_pos hdigits, List.takeWhile_cons_of_neg hc,
    List.dropWhile_cons_of_neg hc, List.append_nil]
  dsimp only
  rw [map_latin1_toString, hparse, hskip]
  change (if maxLiteralLen < literal.length || (literal ++ rest).length < literal.length then _
    else _) = _
  rw [if_neg]
  · change (Except.ok ((literal ++ rest).take _, (literal ++ rest).drop _) : Parse _) = _
    rw [List.take_left, List.drop_left]
  · rw [Bool.or_eq_true, decide_eq_true_eq, decide_eq_true_eq, List.length_append, not_or]
    exact ⟨Nat.not_lt.mpr h, by omega⟩

theorem tokenize_framed {text : Bytes} {ps : List Piece} {ts : List Token}
    (hplain : ∀ t ∈ text :: ps.map Piece.text, PlainText t) (htokens : Tokenized text ps ts)
    (hliteral : ∀ p ∈ ps, p.literal.length ≤ maxLiteral) : tokenize (framed text ps) = .ok ts := by
  induction htokens with
  | @last text ts htext =>
    obtain ⟨-, hopen, hclose⟩ := hplain text List.mem_cons_self
    unfold framed
    rw [(spells_of_tokenize htext hopen hclose).tokenize_append (by intro c hc; cases hc; rfl)]
    change (Except.ok (ts ++ []) : Parse (List Token)) = _
    rw [List.append_nil]
  | @literal text p ps ts more htext _ ih =>
    obtain ⟨-, hopen, hclose⟩ := hplain text List.mem_cons_self
    have hrest := ih (fun t ht => hplain t (List.mem_cons_of_mem _ ht))
      fun q hq => hliteral q (List.mem_cons_of_mem p hq)
    have hframed : framed text (p :: ps) = text ++ 123 :: (utf8 (toString p.literal.length) ++
        (if p.plus then [43] else []) ++ 125 :: 13 :: 10 :: (p.literal ++ framed p.text ps)) := by
      change text ++ p.introducer ++ [13, 10] ++ p.literal ++ framed p.text ps = _
      unfold Piece.introducer
      simp only [List.append_assoc, List.cons_append, List.nil_append]
    rw [hframed, (spells_of_tokenize htext hopen hclose).tokenize_append
      (by intro c hc; cases hc; rfl), tokenize_literal,
      readLiteral_introducer p.plus _ (hliteral p List.mem_cons_self)]
    change (tokenize (framed p.text ps) >>= fun toks => .ok (.literal p.literal :: toks)) >>= _ = _
    rw [hrest]
    rfl

end Tokens

section Reading

theorem notMem_toString {n : ℕ} {b : UInt8} (hb : isAsciiDigit b = false) :
    b ∉ utf8 (toString n) := by
  intro hmem
  rw [isAsciiDigit_of_mem hmem] at hb
  cases hb

theorem notMem_introducer (p : Piece) : 10 ∉ p.introducer := by
  have hdigits : (10 : UInt8) ∉ utf8 (toString p.literal.length) := notMem_toString (by decide)
  unfold Piece.introducer
  generalize utf8 (toString p.literal.length) = digits at hdigits ⊢
  cases p.plus with
  | true => simp [hdigits]
  | false => simp [hdigits]

theorem trailingLiteral_framed (text : Bytes) (p : Piece) (h : p.literal.length ≤ maxLiteral) :
    trailingLiteral (text ++ p.introducer ++ [13, 10]) = some (p.literal.length, !p.plus) := by
  refine trailingLiteral_introducer p.plus (notMem_toString (by decide)) ?_ ?_
  · intro hlast
    exact notMem_toString (by decide) (List.mem_of_getLast? hlast)
  · rw [fromUtf8_utf8]
    exact parseUnsigned_toString (lt_of_le_of_lt h (by unfold maxLiteral; omega))

/-- One prompt for each literal whose introducer waits for it. -/
def prompts (ps : List Piece) : Bytes := ps.flatMap fun p => if p.plus then [] else continuation

theorem readImapCommandLoop_framed {text r : Bytes} {ps : List Piece} {fuel : ℕ}
    {reader : BufReader} (buf written : Bytes) (hfuel : ps.length < fuel)
    (hplain : ∀ t ∈ text :: ps.map Piece.text, 10 ∉ t ∧ t.getLast? ≠ some 125)
    (hliteral : ∀ p ∈ ps, p.literal.length ≤ maxLiteral)
    (hlines : ∀ line ∈ framedLines text ps, line.length ≤ maxLine)
    (hstream : reader.bytes = framed text ps ++ r) :
    ∃ r' : BufReader, readImapCommandLoop fuel buf reader written =
      ⟨.ok (some (buf ++ framed text ps)), r', written ++ prompts ps⟩ ∧ r'.bytes = r := by
  induction ps generalizing text buf written fuel reader with
  | nil =>
    obtain ⟨hfeed, hlast⟩ := hplain text List.mem_cons_self
    have hlen := hlines (text ++ [13, 10]) List.mem_cons_self
    cases fuel with
    | zero => exact absurd hfuel (Nat.not_lt_zero 0)
    | succ fuel =>
      change ∃ r' : BufReader, _ = ReadResult.mk _ r' (written ++ []) ∧ _
      rw [List.append_nil]
      exact readImapCommandLoop_last hfeed hlen hlast hstream
  | cons p ps ih =>
    obtain ⟨hfeed, -⟩ := hplain text List.mem_cons_self
    have hlen := hlines (text ++ p.introducer ++ [13, 10]) List.mem_cons_self
    have hsize := hliteral p List.mem_cons_self
    have hnot : 10 ∉ text ++ p.introducer := by
      rw [List.mem_append, not_or]
      exact ⟨hfeed, notMem_introducer p⟩
    have hline : reader.bytes =
        text ++ p.introducer ++ [13, 10] ++ (p.literal ++ (framed p.text ps ++ r)) := by
      rw [hstream]
      change text ++ p.introducer ++ [13, 10] ++ p.literal ++ framed p.text ps ++ r = _
      simp only [List.append_assoc]
    cases fuel with
    | zero => exact absurd hfuel (Nat.not_lt_zero _)
    | succ fuel =>
      obtain ⟨r₁, hround, hr₁⟩ := readImapCommandLoop_literal fuel buf written hnot hlen
        (trailingLiteral_framed text p hsize) hsize hline
      obtain ⟨r₂, hrest, hr₂⟩ := ih _ _ (Nat.lt_of_succ_lt_succ hfuel)
        (fun t ht => hplain t (List.mem_cons_of_mem _ ht))
        (fun q hq => hliteral q (List.mem_cons_of_mem p hq))
        (fun line hline => hlines line (List.mem_cons_of_mem _ hline)) hr₁
      refine ⟨r₂, ?_, hr₂⟩
      rw [hround, hrest]
      change _ = ReadResult.mk (.ok (some (buf ++ (text ++ p.introducer ++ [13, 10] ++ p.literal ++
        framed p.text ps)))) r₂ (written ++ ((if p.plus then [] else continuation) ++ prompts ps))
      cases p.plus with
      | true => simp
      | false => simp

theorem length_lt_framed (text : Bytes) (ps : List Piece) : ps.length < (framed text ps).length := by
  induction ps generalizing text with
  | nil => simp [framed]
  | cons p ps ih =>
    have hrest := ih p.text
    unfold framed
    simp only [List.length_append, List.length_cons, List.length_nil]
    omega

end Reading

/-- A command on the wire is read up to its end and no further, every literal that waits is prompted
for, and the tokenizer finds the literals that were sent. -/
theorem readImapCommand_framed {text r : Bytes} {ps : List Piece} {ts : List Token}
    {reader : BufReader} (hplain : ∀ t ∈ text :: ps.map Piece.text, PlainText t)
    (htokens : Tokenized text ps ts) (hliteral : ∀ p ∈ ps, p.literal.length ≤ maxLiteral)
    (hlines : ∀ line ∈ framedLines text ps, line.length ≤ maxLine)
    (hstream : reader.bytes = framed text ps ++ r) :
    (readImapCommand reader).command = .ok (some (framed text ps)) ∧
      (readImapCommand reader).reader.bytes = r ∧
      (readImapCommand reader).written = prompts ps ∧ tokenize (framed text ps) = .ok ts := by
  have hread : ∀ t ∈ text :: ps.map Piece.text, 10 ∉ t ∧ t.getLast? ≠ some 125 := by
    intro t ht
    obtain ⟨hfeed, hopen, hclose⟩ := hplain t ht
    obtain ⟨ts, hts⟩ := htokens.exists_tokenize t ht
    exact ⟨hfeed, (spells_of_tokenize hts hopen hclose).getLast?_ne⟩
  have hfuel : ps.length < reader.bytes.length + 1 := by
    have hlt := length_lt_framed text ps
    rw [hstream, List.length_append]
    omega
  obtain ⟨r', hloop, hr'⟩ := readImapCommandLoop_framed [] [] hfuel hread hliteral hlines
    hstream
  unfold readImapCommand
  rw [hloop]
  exact ⟨rfl, hr', rfl, tokenize_framed hplain htokens hliteral⟩

/-- A literal that looks like an introducer, and one that is empty. -/
theorem readImapCommand_framed_twice : ∃ reader : BufReader,
    (readImapCommand reader).command =
      .ok (some (framed (utf8 "a ") [⟨utf8 "\x7b9\x7d", false, utf8 " x"⟩, ⟨[], true, []⟩])) ∧
    (readImapCommand reader).reader.bytes = utf8 "b" ∧
    (readImapCommand reader).written =
      prompts [⟨utf8 "\x7b9\x7d", false, utf8 " x"⟩, ⟨[], true, []⟩] ∧
    tokenize (framed (utf8 "a ") [⟨utf8 "\x7b9\x7d", false, utf8 " x"⟩, ⟨[], true, []⟩]) =
      .ok ([.atom "a"] ++ .literal (utf8 "\x7b9\x7d") :: ([.atom "x"] ++ .literal [] :: [])) := by
  refine ⟨.buffered 97 (utf8 " \x7b3\x7d\r\n\x7b9\x7d x\x7b0") (.buffered 43 (utf8 "\x7d\r\n\r\nb") .done),
    readImapCommand_framed ?_ ?_ ?_ ?_ ?_⟩
  · intro t ht
    obtain rfl | rfl | rfl : t = utf8 "a " ∨ t = utf8 " x" ∨ t = [] := by simpa using ht
    · exact ⟨by decide, by decide, by decide⟩
    · exact ⟨by decide, by decide, by decide⟩
    · exact ⟨by decide, by decide, by decide⟩
  · exact .literal (by decide) (.literal (by decide) (.last (by decide)))
  · decide
  · decide
  · decide

end Dmtap.Mail.Imap
