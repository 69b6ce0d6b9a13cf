import Dmtap.Mail.Ascii
import Dmtap.Mail.HeaderBlock

/-! Encoded words: header values outside ASCII, and the character sets that are understood. -/
namespace Dmtap.Mail
open Lib

section Decoding

def trimMatches (c : Char) (cs : List Char) : List Char :=
  ((cs.dropWhile (· == c)).reverse.dropWhile (· == c)).reverse

def isAscii (bytes : Bytes) : Bool := bytes.all (· < 128)

/-- The text, and whether it is not a faithful reading of the bytes. -/
def decodeCharset (bytes : Bytes) (charset : String) : String × Bool :=
  let cs := (String.ofList (trimMatches '"' (trim charset).toList)).toLower
  if cs ∈ ["utf-8", "utf8", ""] then
    match fromUtf8 bytes with
    | some s => (s, false)
    | none => (fromUtf8Lossy bytes, true)
  else if cs ∈ ["us-ascii", "ascii", "ansi_x3.4-1968"] then
    if isAscii bytes then (fromUtf8Lossy bytes, false) else (latin1Text bytes, true)
  else if cs ∈ ["iso-8859-1", "iso8859-1", "iso_8859-1", "latin1", "latin-1", "l1", "cp819"] then
    (latin1Text bytes, false)
  else if isAscii bytes then (fromUtf8Lossy bytes, false)
  else (fromUtf8Lossy bytes, true)

def hexVal (b : UInt8) : Option ℕ :=
  if 48 ≤ b && b ≤ 57 then some (b.toNat - 48)
  else if 97 ≤ b && b ≤ 102 then some (b.toNat - 87)
  else if 65 ≤ b && b ≤ 70 then some (b.toNat - 55)
  else none

def qWordDecode : Bytes → Option Bytes
  | [] => some []
  | b :: text =>
    if b = 95 then (qWordDecode text).map (32 :: ·)
    else if b = 61 then
      match text with
      | h :: l :: text => do
        let h ← hexVal h
        let l ← hexVal l
        (qWordDecode text).map (UInt8.ofNat (h * 16 + l) :: ·)
      | _ => none
    else (qWordDecode text).map (b :: ·)

/-- The text in front of the first `?=`, and what stands behind it. -/
def splitAtEnd : List Char → Option (List Char × List Char)
  | [] => none
  | '?' :: '=' :: rest => some ([], rest)
  | c :: cs => (splitAtEnd cs).map fun r => (c :: r.1, r.2)

/-- One encoded word off the front: its text, and what stands behind it. -/
def decodeOneEncodedWord (s : List Char) : Option (List Char × List Char) := do
  let body ← if ['=', '?'] <+: s then some (s.drop 2) else none
  let (charset, after) ← splitOnceList '?' body
  if charset.isEmpty || 60 < (utf8 (String.ofList charset)).length then none
  else
    let enc ← after.head?
    let afterEnc ← if after.tail.head? = some '?' then some after.tail.tail else none
    let (text, rest) ← splitAtEnd afterEnc
    if text.contains '?' || text.contains ' ' then none
    else
      let bytes ←
        if enc = 'B' || enc = 'b' then base64Decode (String.ofList text)
        else if enc = 'Q' || enc = 'q' then qWordDecode (utf8 (String.ofList text))
        else none
      let decoded := decodeCharset bytes (String.ofList (charset.takeWhile (· != '*')))
      some (decoded.1.toList, rest)

/-- A token that is encoded words throughout; each takes at least one character off it. -/
def decodeRunLoop : ℕ → List Char → Option (List Char)
  | _, [] => some []
  | 0, _ => none
  | fuel + 1, rest => do
    let (piece, rest) ← decodeOneEncodedWord rest
    (decodeRunLoop fuel rest).map (piece ++ ·)

def decodeEncodedWordRun (tok : List Char) : Option (List Char) :=
  if ['=', '?'] <+: tok then decodeRunLoop tok.length tok else none

def isLinearSpace (c : Char) : Bool := c == ' ' || c == '\t'

/-- Blanks between two tokens of encoded words are not part of the text. -/
def decodeWordsLoop : ℕ → Bool → List Char → List Char
  | 0, _, _ => []
  | fuel + 1, lastWasEncoded, rest =>
    let ws := rest.takeWhile isLinearSpace
    let after := rest.dropWhile isLinearSpace
    let tok := after.takeWhile (!isLinearSpace ·)
    let next := after.dropWhile (!isLinearSpace ·)
    if tok.isEmpty then ws
    else
      match decodeEncodedWordRun tok with
      | some decoded =>
        (if lastWasEncoded then [] else ws) ++ decoded ++ decodeWordsLoop fuel true next
      | none => ws ++ tok ++ decodeWordsLoop fuel false next

def decodeEncodedWords (input : String) : String :=
  String.ofList (decodeWordsLoop input.length false input.toList)

example : decodeEncodedWords "a =?utf-8?Q?b=C3=A9?= =?UTF-8?B?Yw==?= d" = "a béc d" := by
  decide +kernel

end Decoding

section Encoding

def encodedWordMaxBytes : ℕ := 30

/-- Printable ASCII and tabs. -/
def isWireSafeAscii (v : String) : Bool := (utf8 v).all fun b => b == 9 || (0x20 ≤ b && b < 0x7f)

def encodeOneWord (chunk : String) : String := "=?UTF-8?B?" ++ base64Encode (utf8 chunk) ++ "?="

/-- The chunks of a text, `chunk` being the one under way. -/
def chunksFrom (chunk : List Char) : List Char → List (List Char)
  | [] => if chunk.isEmpty then [] else [chunk]
  | c :: cs =>
    if encodedWordMaxBytes < (utf8 (String.ofList chunk)).length + c.utf8Size &&
        !chunk.isEmpty then
      chunk :: chunksFrom [c] cs
    else chunksFrom (chunk ++ [c]) cs

def encodeHeaderValue (v : String) : String :=
  if isWireSafeAscii v then v
  else
    "\r\n ".intercalate ((chunksFrom [] v.toList).map fun chunk => encodeOneWord (String.ofList chunk))

def isAtomSafe (c : Char) : Bool :=
  c.isAlphanum || c == ' ' || "!#$%&'*+-/=?^_`\x7b|\x7d~.".toList.contains c

def encodeDisplayName (name : String) : String :=
  if !isWireSafeAscii name then encodeHeaderValue name
  else if name.toList.all isAtomSafe then name
  else
    let escaped := name.toList.flatMap fun c => if c == '"' || c == '\\' then ['\\', c] else [c]
    "\"" ++ String.ofList escaped ++ "\""

example : encodeHeaderValue "né" = "=?UTF-8?B?bsOp?=" ∧ encodeDisplayName "a, \"b\"" =
    "\"a, \\\"b\\\"\"" := by
  decide +kernel

end Encoding

end Dmtap.Mail
