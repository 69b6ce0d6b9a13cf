import Dmtap.Lib.BufReader
import Dmtap.Mail.Text

/-! How one IMAP command comes off the socket: line by line, each literal read by its length. -/
namespace Dmtap.Mail
open Lib

def maxLiteral : ℕ := 64 * 1024 * 1024

def maxLine : ℕ := 1024 * 1024

/-- The bytes up to and with the next line feed, or those of more than a full line. -/
def readUntilLf : Bytes → BufReader → Bytes × BufReader
  | out, .done => (out, .done)
  | out, .buffered b bs later =>
    match (b :: bs).findIdx? (· == 10) with
    | some pos =>
      (out ++ (b :: bs).take (pos + 1), (BufReader.buffered b bs later).consume (pos + 1))
    | none =>
      if maxLine < (out ++ b :: bs).length then (out ++ b :: bs, later)
      else readUntilLf (out ++ b :: bs) later

def stripSuffixByte (b : UInt8) (line : Bytes) : Bytes :=
  if line.getLast? = some b then line.dropLast else line

/-- The index of the last `b`. -/
def rposition (b : UInt8) (line : Bytes) : Option ℕ :=
  (line.reverse.findIdx? (· == b)).map fun i => line.length - 1 - i

/-- The length that the introducer at the end of a line announces, and whether the client waits
for the server to ask for the literal. -/
def trailingLiteral (line : Bytes) : Option (ℕ × Bool) := do
  let trimmed := stripSuffixByte 13 (stripSuffixByte 10 line)
  if trimmed.getLast? ≠ some 125 then none
  else
    let opening ← rposition 123 trimmed
    let inner := (trimmed.drop (opening + 1)).dropLast
    let (digits, sync) := if inner.getLast? = some 43 then (inner.dropLast, false) else (inner, true)
    let n ← (fromUtf8 digits).bind parseU64
    some (n, sync)

inductive ReadError where
  | lineTooLong
  | literalTooLarge
  | unexpectedEof
  | exhausted
  deriving DecidableEq

/-- What reading a command comes to: the command, unless the stream was over, what the stream still
holds and what was written to the client. -/
structure ReadResult where
  command : Except ReadError (Option Bytes)
  reader : BufReader
  written : Bytes

def continuation : Bytes := utf8 "+ Ready for literal data\r\n"

def readImapCommandLoop : ℕ → Bytes → BufReader → Bytes → ReadResult
  | 0, _, reader, written => ⟨.error .exhausted, reader, written⟩
  | fuel + 1, buf, reader, written =>
    let (line, reader) := readUntilLf [] reader
    if line = [] then ⟨.ok (if buf = [] then none else some buf), reader, written⟩
    else if maxLine < line.length then
      ⟨.error .lineTooLong, reader, written ++ utf8 "* BAD command line too long\r\n"⟩
    else
      match trailingLiteral line with
      | some (size, sync) =>
        if maxLiteral < size then
          ⟨.error .literalTooLarge, reader, written ++ utf8 "* BAD literal too large\r\n"⟩
        else
          let written := if sync then written ++ continuation else written
          match reader.readExact size with
          | none => ⟨.error .unexpectedEof, .done, written⟩
          | some (lit, reader) => readImapCommandLoop fuel (buf ++ line ++ lit) reader written
      | none => ⟨.ok (some (buf ++ line)), reader, written⟩

/-- The next command on the stream. Every round of the loop takes a line, so that the number of
bytes is fuel enough. -/
def readImapCommand (reader : BufReader) : ReadResult :=
  readImapCommandLoop (reader.bytes.length + 1) [] reader []

section Lines

theorem findIdx?_of_notMem {line : Bytes} {b : UInt8} (h : b ∉ line) :
    line.findIdx? (· == b) = none := by
  rw [List.findIdx?_eq_none_iff]
  intro c hc
  exact beq_false_of_ne fun heq => h (heq ▸ hc)

theorem findIdx?_append_cons {line more : Bytes} {b : UInt8} (h : b ∉ line) :
    (line ++ b :: more).findIdx? (· == b) = some line.length := by
  rw [List.findIdx?_append, findIdx?_of_notMem h, List.findIdx?_cons, beq_self_eq_true, if_pos rfl]
  simp

theorem readUntilLf_spec {reader : BufReader} {out line rest : Bytes} (hline : 10 ∉ line)
    (h : reader.bytes = line ++ 10 :: rest) (hlen : (out ++ line).length < maxLine) :
    ∃ r : BufReader, readUntilLf out reader = (out ++ line ++ [10], r) ∧ r.bytes = rest := by
  induction reader generalizing out line with
  | done => cases line <;> cases h
  | buffered b bs later ih =>
    change b :: bs ++ later.bytes = line ++ 10 :: rest at h
    unfold readUntilLf
    obtain ⟨more, hbuf, hlater⟩ | ⟨hmem, more, hline', hlater⟩ := split_first_cases hline h
    · refine ⟨BufReader.push more later, ?_, ?_⟩
      · have hpos : (b :: bs).findIdx? (· == 10) = some line.length := by
          rw [hbuf, findIdx?_append_cons hline]
        have hcut : b :: bs = (line ++ [10]) ++ more := by rw [hbuf, List.append_assoc]; rfl
        have hcount : line.length + 1 = (line ++ [10]).length := by simp
        rw [hpos]
        change (out ++ (b :: bs).take _, BufReader.push ((b :: bs).drop _) later) = _
        rw [hcut, hcount, List.take_left, List.drop_left, List.append_assoc]
      · rw [BufReader.bytes_push, hlater]
    · have hroom : ¬maxLine < (out ++ b :: bs).length := by
        rw [hline', ← List.append_assoc, List.length_append] at hlen
        omega
      rw [hline', List.mem_append, not_or] at hline
      rw [hline', ← List.append_assoc] at hlen
      obtain ⟨r, hread, hr⟩ := ih hline.2 hlater hlen
      refine ⟨r, ?_, hr⟩
      rw [findIdx?_of_notMem hmem]
      dsimp only
      rw [if_neg hroom, hread, hline', List.append_assoc out]

/-- The line and what is left make up the stream. -/
theorem bytes_of_readUntilLf (out : Bytes) (reader : BufReader) :
    (readUntilLf out reader).1 ++ (readUntilLf out reader).2.bytes = out ++ reader.bytes := by
  induction reader generalizing out with
  | done => rfl
  | buffered b bs later ih =>
    unfold readUntilLf
    cases hpos : (b :: bs).findIdx? (· == 10) with
    | some pos =>
      dsimp only
      rw [List.append_assoc, BufReader.bytes_consume]
      rfl
    | none =>
      dsimp only
      split_ifs
      · exact List.append_assoc _ _ _
      · rw [ih, List.append_assoc]
        rfl

end Lines

section Introducers

theorem stripSuffixByte_append (b : UInt8) (line : Bytes) : stripSuffixByte b (line ++ [b]) = line := by
  unfold stripSuffixByte
  rw [List.getLast?_concat, if_pos rfl, List.dropLast_concat]

theorem trailingLiteral_none {line : Bytes} (h : line.getLast? ≠ some 125) :
    trailingLiteral (line ++ [13, 10]) = none := by
  have hsplit : line ++ [13, 10] = (line ++ [13]) ++ [10] := by simp
  unfold trailingLiteral
  rw [hsplit, stripSuffixByte_append, stripSuffixByte_append]
  dsimp only
  rw [if_pos h]

theorem rposition_append_cons {front more : Bytes} {b : UInt8} (h : b ∉ more) :
    rposition b (front ++ b :: more) = some front.length := by
  have hreverse : (front ++ b :: more).reverse = more.reverse ++ b :: front.reverse := by simp
  have hmore : b ∉ more.reverse := fun hmem => h (List.mem_reverse.mp hmem)
  unfold rposition
  rw [hreverse, findIdx?_append_cons hmore, Option.map_some, List.length_reverse,
    List.length_append, List.length_cons]
  congr 1
  omega

/-- A line that ends with the introducer of a literal. -/
theorem trailingLiteral_introducer {front digits : Bytes} {n : ℕ} (plus : Bool)
    (hbrace : 123 ∉ digits) (hsign : digits.getLast? ≠ some 43)
    (hn : (fromUtf8 digits).bind parseU64 = some n) :
    trailingLiteral (front ++ 123 :: (digits ++ (if plus then [43] else []) ++ [125]) ++ [13, 10]) =
      some (n, !plus) := by
  have hline : front ++ 123 :: (digits ++ (if plus then [43] else []) ++ [125]) ++ [13, 10] =
      front ++ 123 :: (digits ++ (if plus then [43] else []) ++ [125]) ++ [13] ++ [10] := by simp
  have hlast : (front ++ 123 :: (digits ++ (if plus then [43] else []) ++ [125])).getLast? =
      some 125 := by
    rw [List.append_cons, ← List.append_assoc, List.getLast?_concat]
  have hinside : (123 : UInt8) ∉ digits ++ (if plus then [43] else []) ++ [125] := by
    cases plus with
    | true => simp [hbrace]
    | false => simp [hbrace]
  have hinner : ((front ++ 123 :: (digits ++ (if plus then [43] else []) ++ [125])).drop
      (front.length + 1)).dropLast = digits ++ (if plus then [43] else []) := by
    rw [List.append_cons, List.drop_left' (by simp), List.dropLast_concat]
  unfold trailingLiteral
  rw [hline, stripSuffixByte_append, stripSuffixByte_append]
  dsimp only
  rw [if_neg (by rw [hlast]; simp), rposition_append_cons hinside]
  change ((fromUtf8 _).bind parseU64).bind _ = _
  rw [hinner]
  cases plus with
  | true =>
    rw [if_pos rfl, List.getLast?_concat, if_pos rfl, List.dropLast_concat, hn]
    rfl
  | false =>
    rw [if_neg Bool.false_ne_true, List.append_nil, if_neg hsign, hn]
    rfl

end Introducers

section Rounds

variable {fuel : ℕ} {buf line rest written : Bytes} {reader : BufReader}

theorem readUntilLf_line (hfeed : 10 ∉ line) (hlen : (line ++ [13, 10]).length ≤ maxLine)
    (hstream : reader.bytes = line ++ [13, 10] ++ rest) :
    ∃ r : BufReader, readUntilLf [] reader = (line ++ [13, 10], r) ∧ r.bytes = rest := by
  have hsplit : reader.bytes = (line ++ [13]) ++ 10 :: rest := by
    rw [hstream, List.append_assoc, List.append_assoc]
    rfl
  have hnot : (10 : UInt8) ∉ line ++ [13] := by simp [hfeed]
  have hroom : ([] ++ (line ++ [13])).length < maxLine := by
    simp only [List.nil_append, List.length_append, List.length_cons, List.length_nil] at hlen ⊢
    omega
  obtain ⟨r, hread, hr⟩ := readUntilLf_spec hnot hsplit hroom
  refine ⟨r, ?_, hr⟩
  rw [hread, List.nil_append, List.append_assoc]
  rfl

/-- A round that ends the command. -/
theorem readImapCommandLoop_last (hfeed : 10 ∉ line) (hlen : (line ++ [13, 10]).length ≤ maxLine)
    (hlast : line.getLast? ≠ some 125) (hstream : reader.bytes = line ++ [13, 10] ++ rest) :
    ∃ r : BufReader, readImapCommandLoop (fuel + 1) buf reader written =
      ⟨.ok (some (buf ++ (line ++ [13, 10]))), r, written⟩ ∧ r.bytes = rest := by
  obtain ⟨r, hread, hr⟩ := readUntilLf_line hfeed hlen hstream
  refine ⟨r, ?_, hr⟩
  unfold readImapCommandLoop
  rw [hread]
  dsimp only
  rw [if_neg (by simp), if_neg (Nat.not_lt.mpr hlen), trailingLiteral_none hlast]

/-- A round that takes a literal. -/
theorem readImapCommandLoop_literal {literal : Bytes} {sync : Bool} (fuel : ℕ)
    (buf written : Bytes) (hfeed : 10 ∉ line)
    (hlen : (line ++ [13, 10]).length ≤ maxLine)
    (hintroducer : trailingLiteral (line ++ [13, 10]) = some (literal.length, sync))
    (hsize : literal.length ≤ maxLiteral)
    (hstream : reader.bytes = line ++ [13, 10] ++ (literal ++ rest)) :
    ∃ r : BufReader, readImapCommandLoop (fuel + 1) buf reader written =
      readImapCommandLoop fuel (buf ++ (line ++ [13, 10]) ++ literal) r
        (if sync then written ++ continuation else written) ∧ r.bytes = rest := by
  obtain ⟨r, hread, hr⟩ := readUntilLf_line hfeed hlen hstream
  obtain ⟨r', hexact, hr'⟩ := BufReader.readExact_spec hr
  refine ⟨r', ?_, hr'⟩
  conv_lhs => unfold readImapCommandLoop
  rw [hread]
  dsimp only
  rw [if_neg (by simp), if_neg (Nat.not_lt.mpr hlen), hintroducer]
  dsimp only
  rw [if_neg (Nat.not_lt.mpr hsize), hexact]

/-- The fuel lasts: every round but the last takes a line off the stream. -/
theorem readImapCommandLoop_ne_exhausted (hfuel : reader.bytes.length < fuel) :
    (readImapCommandLoop fuel buf reader written).command ≠ .error .exhausted := by
  induction fuel generalizing buf reader written with
  | zero => exact absurd hfuel (Nat.not_lt_zero _)
  | succ fuel ih =>
    have hbytes := bytes_of_readUntilLf [] reader
    unfold readImapCommandLoop
    dsimp only
    split_ifs with hempty
    · exact fun h => nomatch h
    · exact fun h => nomatch h
    · exact fun h => nomatch h
    · split
      · split
        · exact fun h => nomatch h
        · split
          · exact fun h => nomatch h
          · next hread =>
            refine ih ?_
            have hpos := List.length_pos_of_ne_nil hempty
            have hlen := congrArg List.length hbytes
            rw [BufReader.bytes_of_readExact hread] at hlen
            simp only [List.nil_append, List.length_append] at hlen
            omega
      · exact fun h => nomatch h

theorem readImapCommand_ne_exhausted (reader : BufReader) :
    (readImapCommand reader).command ≠ .error .exhausted :=
  readImapCommandLoop_ne_exhausted (Nat.lt_succ_self _)

end Rounds

end Dmtap.Mail
