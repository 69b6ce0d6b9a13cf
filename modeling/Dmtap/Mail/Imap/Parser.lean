import Dmtap.Mail.Imap.Command

/-! The tokenizer and the command parser. Token lists stand for the parser's slices; where the
code would index past the end of one, the parser faults. -/
namespace Dmtap.Mail.Imap
open Lib

inductive Token where
  | atom (s : String)
  | quoted (s : String)
  | literal (b : Bytes)
  | lparen
  | rparen
  | lbracket
  | rbracket
  deriving DecidableEq

namespace Token

def asStr : Token → Option String
  | atom s => some s
  | quoted s => some s
  | _ => none

def asBytes : Token → Option Bytes
  | atom s => some (utf8 s)
  | quoted s => some (utf8 s)
  | literal b => some b
  | _ => none

end Token

inductive ParseError where
  | empty
  | badLiteral
  | unterminatedQuote
  | unknownCommand (name : String)
  | syntaxError (what : String)
  deriving DecidableEq

def ParseError.message : ParseError → String
  | empty => "empty command"
  | badLiteral => "malformed literal"
  | unterminatedQuote => "unterminated quoted string"
  | unknownCommand name => "unknown command " ++ name
  | syntaxError what => "syntax error: " ++ what

/-- How parsing can end without a command: an error reply, an index out of range, or no fuel
left, which the fuel handed out rules out. -/
inductive Fault where
  | error (e : ParseError)
  | outOfRange
  | exhausted
  deriving DecidableEq

abbrev Parse := Except Fault

def fail {α : Type} (e : ParseError) : Parse α := .error (.error e)

def syntaxFault {α : Type} (what : String) : Parse α := fail (.syntaxError what)

def orFail {α : Type} (e : ParseError) : Option α → Parse α
  | some a => .ok a
  | none => fail e

section Tokenizer

def latin1 (b : UInt8) : Char := Char.ofNat b.toNat

def readQuoted : List Char → Bytes → Parse (String × Bytes)
  | _, [] => fail .unterminatedQuote
  | s, 34 :: rest => .ok (String.ofList s.reverse, rest)
  | s, 92 :: c :: rest => readQuoted (latin1 c :: s) rest
  | s, c :: rest => readQuoted (latin1 c :: s) rest

def maxLiteralLen : ℕ := 64 * 1024 * 1024

def isAsciiDigit (b : UInt8) : Bool := 48 ≤ b && b ≤ 57

def skipByte (b : UInt8) : Bytes → Bytes
  | [] => []
  | c :: rest => if c = b then rest else c :: rest

def readLiteral (buf : Bytes) : Parse (Bytes × Bytes) := do
  let digits := buf.takeWhile isAsciiDigit
  let n ← orFail .badLiteral (parseU64 (String.ofList (digits.map latin1)))
  match skipByte 43 (buf.dropWhile isAsciiDigit) with
  | 125 :: rest =>
    let rest := skipByte 10 (skipByte 13 rest)
    if maxLiteralLen < n || rest.length < n then fail .badLiteral
    else .ok (rest.take n, rest.drop n)
  | _ => fail .badLiteral

/-- The bytes that end an atom. -/
def endsAtom (b : UInt8) : Bool :=
  b == 32 || b == 9 || b == 13 || b == 10 || b == 40 || b == 41 || b == 91 || b == 93 ||
    b == 123 || b == 34

def readAtom (buf : Bytes) : String × Bytes :=
  (fromUtf8Lossy (buf.takeWhile fun b => !endsAtom b), buf.dropWhile fun b => !endsAtom b)

def tokenizeLoop : ℕ → Bytes → Parse (List Token)
  | _, [] => .ok []
  | 0, _ => .error .exhausted
  | fuel + 1, b :: rest =>
    if b = 32 || b = 9 || b = 13 || b = 10 then tokenizeLoop fuel rest
    else if b = 40 then do
      let toks ← tokenizeLoop fuel rest
      .ok (.lparen :: toks)
    else if b = 41 then do
      let toks ← tokenizeLoop fuel rest
      .ok (.rparen :: toks)
    else if b = 91 then do
      let toks ← tokenizeLoop fuel rest
      .ok (.lbracket :: toks)
    else if b = 93 then do
      let toks ← tokenizeLoop fuel rest
      .ok (.rbracket :: toks)
    else if b = 34 then do
      let (s, rest) ← readQuoted [] rest
      let toks ← tokenizeLoop fuel rest
      .ok (.quoted s :: toks)
    else if b = 123 then do
      let (lit, rest) ← readLiteral rest
      let toks ← tokenizeLoop fuel rest
      .ok (.literal lit :: toks)
    else do
      let (s, rest) := readAtom (b :: rest)
      let toks ← tokenizeLoop fuel rest
      .ok (.atom s :: toks)

def tokenize (buf : Bytes) : Parse (List Token) := tokenizeLoop buf.length buf

end Tokenizer

section TokenHelpers

/-- What stands in front of the closing token that matches `depth` opened ones, and behind it. -/
def closeAt (opening closing : Token) : ℕ → List Token → Option (List Token × List Token)
  | _, [] => none
  | depth, t :: toks =>
    if t = opening then (closeAt opening closing (depth + 1) toks).map fun r => (t :: r.1, r.2)
    else if t = closing then
      if depth ≤ 1 then some ([], toks)
      else (closeAt opening closing (depth - 1) toks).map fun r => (t :: r.1, r.2)
    else (closeAt opening closing depth toks).map fun r => (t :: r.1, r.2)

def readParenTokens : List Token → Parse (List Token × List Token)
  | .lparen :: toks => orFail (.syntaxError "unbalanced parentheses") (closeAt .lparen .rparen 1 toks)
  | _ => syntaxFault "expected ("

def readParenAtoms (toks : List Token) : Parse (List String × List Token) := do
  let (inner, rest) ← readParenTokens toks
  .ok (inner.filterMap Token.asStr, rest)

def readBracketTokens (toks : List Token) : Parse (List Token × List Token) :=
  orFail (.syntaxError "unbalanced brackets") (closeAt .lbracket .rbracket 1 toks)

def atomAt (args : List Token) (i : ℕ) : Parse String :=
  orFail (.syntaxError "missing argument") (args[i]?.bind Token.asStr)

end TokenHelpers

section SearchPrograms

def searchArg (t : Token) : Parse String := orFail (.syntaxError "expected search argument") t.asStr

/-- The first argument of a search key. -/
def firstArg (missing : String) : List Token → Parse (String × List Token)
  | [] => syntaxFault missing
  | t :: rest => do
    let arg ← searchArg t
    .ok (arg, rest)

def simpleKey : String → Option SearchKey
  | "ALL" => some .all
  | "ANSWERED" => some .answered
  | "UNANSWERED" => some .unanswered
  | "DELETED" => some .deleted
  | "UNDELETED" => some .undeleted
  | "DRAFT" => some .draft
  | "UNDRAFT" => some .undraft
  | "FLAGGED" => some .flagged
  | "UNFLAGGED" => some .unflagged
  | "SEEN" => some .seen
  | "UNSEEN" => some .unseen
  | "RECENT" => some .recent
  | "NEW" => some .new
  | "OLD" => some .old
  | _ => none

def stringKey : String → Option (String → SearchKey)
  | "KEYWORD" => some .keyword
  | "UNKEYWORD" => some .unkeyword
  | "FROM" => some .sender
  | "TO" => some .recipient
  | "CC" => some .cc
  | "BCC" => some .bcc
  | "SUBJECT" => some .subject
  | "BODY" => some .body
  | "TEXT" => some .text
  | "BEFORE" => some .before
  | "ON" => some .on
  | "SINCE" => some .since
  | "SENTBEFORE" => some .sentBefore
  | "SENTON" => some .sentOn
  | "SENTSINCE" => some .sentSince
  | _ => none

mutual

def parseSearchKeys : ℕ → List Token → Parse (List SearchKey)
  | _, [] => .ok []
  | 0, _ => .error .exhausted
  | fuel + 1, toks => do
    let (key, rest) ← parseOne fuel toks
    let keys ← parseSearchKeys fuel rest
    .ok (key :: keys)

def parseOne : ℕ → List Token → Parse (SearchKey × List Token)
  | 0, _ => .error .exhausted
  | _ + 1, [] => .error .outOfRange
  | fuel + 1, .lparen :: toks => do
    let (inner, rest) ← orFail (.syntaxError "unbalanced parens in search")
      (closeAt .lparen .rparen 1 toks)
    let keys ← parseSearchKeys fuel inner
    match inner, keys with
    | [], _ => .ok (.all, rest)
    | _, [key] => .ok (key, rest)
    | _, keys => .ok (.and keys, rest)
  | fuel + 1, head :: rest => do
    let kw := (← orFail (.syntaxError "bad search key") head.asStr).toUpper
    if let some key := simpleKey kw then return (key, rest)
    if let some key := stringKey kw then
      let (arg, rest) ← firstArg "missing arg" rest
      return (key arg, rest)
    match kw with
    | "HEADER" => do
      let (field, rest) ← firstArg "HEADER field" rest
      let (val, rest) ← firstArg "HEADER value" rest
      .ok (.header field val, rest)
    | "LARGER" => do
      let (arg, rest) ← firstArg "LARGER n" rest
      let n ← orFail (.syntaxError "LARGER number") (parseU64 arg)
      .ok (.larger n, rest)
    | "SMALLER" => do
      let (arg, rest) ← firstArg "SMALLER n" rest
      let n ← orFail (.syntaxError "SMALLER number") (parseU64 arg)
      .ok (.smaller n, rest)
    | "MODSEQ" => do
      let (arg, rest) ← firstArg "MODSEQ n" rest
      let n ← orFail (.syntaxError "MODSEQ number") (parseU64 arg)
      .ok (.modSeq n, rest)
    | "UID" => do
      let (arg, rest) ← firstArg "UID set" rest
      let set ← orFail (.syntaxError "UID set") (SequenceSet.parse arg)
      .ok (.uid set, rest)
    | "NOT" => do
      let (inner, rest) ← parseOne fuel rest
      .ok (.not inner, rest)
    | "OR" => do
      let (a, rest) ← parseOne fuel rest
      let (b, rest) ← parseOne fuel rest
      .ok (.or a b, rest)
    | _ => do
      let set ← orFail (.syntaxError "unknown search key") (SequenceSet.parse kw)
      .ok (.seq set, rest)

end

def parseSearchKey (toks : List Token) : Parse SearchKey := do
  let keys ← parseSearchKeys (2 * toks.length + 2) toks
  match toks, keys with
  | [], _ => .ok .all
  | _, [key] => .ok key
  | _, keys => .ok (.and keys)

end SearchPrograms

section Arguments

def parseSelectLoop : ℕ → List Token → Option QResyncParams → Bool →
    Parse (Option QResyncParams × Bool)
  | _, [], qresync, condstore => .ok (qresync, condstore)
  | 0, _, _, _ => .error .exhausted
  | fuel + 1, t :: inner, qresync, condstore =>
    match t.asStr.map String.toUpper with
    | some "CONDSTORE" => parseSelectLoop fuel inner qresync true
    | some "QRESYNC" => do
      let (q, rest) ← readParenTokens inner
      let uidValidity ← orFail (.syntaxError "QRESYNC needs UIDVALIDITY")
        ((q[0]?.bind Token.asStr).bind parseU32)
      let modseq ← orFail (.syntaxError "QRESYNC needs modseq")
        ((q[1]?.bind Token.asStr).bind parseU64)
      let knownUids := (q[2]?.bind Token.asStr).bind SequenceSet.parse
      parseSelectLoop fuel rest (some ⟨uidValidity, modseq, knownUids⟩) condstore
    | _ => parseSelectLoop fuel inner qresync condstore

def parseSelectParams (args : List Token) : Parse (Option QResyncParams × Bool) :=
  match args with
  | .lparen :: _ => do
    let (inner, _) ← readParenTokens args
    parseSelectLoop inner.length inner none false
  | _ => .ok (none, false)

def parseReturnOpts : List Token → Parse (List String)
  | .atom a :: rest =>
    if eqIgnoreAsciiCase a "RETURN" then do
      let (opts, _) ← readParenAtoms rest
      .ok opts
    else .ok []
  | _ => .ok []

def parseList (args : List Token) : Parse Command := do
  let (selectOpts, args) ← match args with
    | .lparen :: _ => readParenAtoms args
    | _ => .ok ([], args)
  let reference ← atomAt args 0
  let pattern ← atomAt args 1
  let returnOpts ← parseReturnOpts (args.drop 2)
  .ok (.list reference pattern returnOpts selectOpts)

def parseStatus (args : List Token) : Parse Command := do
  let mailbox ← atomAt args 0
  let (items, _) ← readParenAtoms (args.drop 1)
  .ok (.status mailbox (items.map String.toUpper))

def parseCatParts : ℕ → List Token → Parse (List CatPart)
  | _, [] => .ok []
  | 0, _ => .error .exhausted
  | fuel + 1, t :: inner =>
    match (t.asStr.getD "").toUpper with
    | "TEXT" => do
      let bytes ← orFail (.syntaxError "CATENATE TEXT needs a literal") (inner[0]?.bind Token.asBytes)
      let parts ← parseCatParts fuel (inner.drop 1)
      .ok (.text bytes :: parts)
    | "URL" => do
      let url ← orFail (.syntaxError "CATENATE URL needs a string") (inner[0]?.bind Token.asStr)
      let parts ← parseCatParts fuel (inner.drop 1)
      .ok (.url url :: parts)
    | _ => syntaxFault "bad CATENATE part"

def parseAppend (args : List Token) : Parse Command := do
  let mailbox ← atomAt args 0
  let args := args.drop 1
  let (flags, args) ← match args with
    | .lparen :: _ => do
      let (fs, rest) ← readParenAtoms args
      .ok (fs.map Flag.parse, rest)
    | _ => .ok ([], args)
  let (date, args) := match args with
    | .quoted d :: rest => (some d, rest)
    | _ => (none, args)
  match args with
  | .atom a :: rest =>
    if eqIgnoreAsciiCase a "CATENATE" then do
      let (inner, _) ← readParenTokens rest
      let parts ← parseCatParts inner.length inner
      .ok (.append mailbox flags date [] (some parts))
    else .ok (.append mailbox flags date (utf8 a) none)
  | t :: _ => do
    let message ← orFail (.syntaxError "APPEND needs a message") t.asBytes
    .ok (.append mailbox flags date message none)
  | [] => syntaxFault "APPEND needs a message"

/-- The first attribute behind each `USE (`; the last one counts. -/
def parseUseAttr : Option String → List Token → Option String
  | useAttr, [] => useAttr
  | useAttr, t :: toks =>
    if (t.asStr.map fun s => eqIgnoreAsciiCase s "USE").getD false then
      match toks with
      | .lparen :: u :: toks => parseUseAttr u.asStr toks
      | .lparen :: [] => none
      | _ :: toks => parseUseAttr useAttr toks
      | [] => useAttr
    else parseUseAttr useAttr toks

def parseCreate (args : List Token) : Parse Command := do
  let name ← atomAt args 0
  match args.drop 1 with
  | .lparen :: rest => do
    let (inner, _) ← readParenTokens (.lparen :: rest)
    .ok (.create name (parseUseAttr none inner))
  | _ => .ok (.create name none)

def sortKey : String → Option SortKey
  | "ARRIVAL" => some .arrival
  | "CC" => some .cc
  | "DATE" => some .date
  | "FROM" => some .sender
  | "SIZE" => some .size
  | "SUBJECT" => some .subject
  | "TO" => some .recipient
  | "DISPLAYFROM" => some .displayFrom
  | "DISPLAYTO" => some .displayTo
  | _ => none

def sortCriteria : Bool → List String → Parse (List SortCriterion)
  | _, [] => .ok []
  | reverse, a :: atoms =>
    if eqIgnoreAsciiCase a "REVERSE" then sortCriteria true atoms
    else do
      let key ← orFail (.syntaxError "unknown SORT key") (sortKey a.toUpper)
      let criteria ← sortCriteria false atoms
      .ok (⟨reverse, key⟩ :: criteria)

def parseSort (args : List Token) (uid : Bool) : Parse Command := do
  let (atoms, rest) ← readParenAtoms args
  let criteria ← sortCriteria false atoms
  if criteria.isEmpty then syntaxFault "SORT needs at least one criterion"
  else do
    let charset := rest[0]?.bind Token.asStr
    let key ← parseSearchKey (rest.drop 1)
    .ok (.sort criteria charset key uid)

def parseThread (args : List Token) (uid : Bool) : Parse Command := do
  let algo ← atomAt args 0
  let algorithm ← match algo.toUpper with
    | "ORDEREDSUBJECT" => .ok ThreadAlgorithm.orderedSubject
    | "REFERENCES" => .ok ThreadAlgorithm.references
    | _ => syntaxFault "unknown THREAD algorithm"
  let charset := args[1]?.bind Token.asStr
  let key ← parseSearchKey (args.drop 2)
  .ok (.thread algorithm charset key uid)

def idPairs : List Token → List (String × String)
  | k :: v :: toks =>
    match k.asStr, v.asStr with
    | some k, some v => (k, v) :: idPairs toks
    | _, _ => idPairs toks
  | _ => []

def parseId (args : List Token) : Parse Command :=
  match args with
  | .lparen :: _ => do
    let (inner, _) ← readParenTokens args
    .ok (.id (some (idPairs inner)))
  | _ => .ok (.id none)

def parseSearch (args : List Token) (uid : Bool) : Parse Command := do
  let (ret, args) ← match args with
    | .atom a :: rest =>
      if eqIgnoreAsciiCase a "RETURN" then do
        let (opts, rest) ← readParenAtoms rest
        .ok (opts.map String.toUpper, rest)
      else .ok ([], args)
    | _ => .ok ([], args)
  let (charset, args) := match args with
    | .atom a :: rest =>
      if eqIgnoreAsciiCase a "CHARSET" then (rest[0]?.bind Token.asStr, rest.drop 1)
      else (none, args)
    | _ => (none, args)
  let key ← parseSearchKey args
  .ok (.search charset key uid ret)

end Arguments

section Fetch

def sectionFieldList (toks : List Token) : Parse (List String) :=
  match toks with
  | .lparen :: _ => do
    let (inner, _) ← readParenTokens toks
    .ok (inner.filterMap Token.asStr)
  | _ => .ok (toks.filterMap Token.asStr)

def parseSection : List Token → Parse Section
  | [] => .ok .full
  | t :: toks => do
    let first := (t.asStr.getD "").toUpper
    match first with
    | "HEADER" => .ok .header
    | "TEXT" => .ok .text
    | "HEADER.FIELDS" => do
      let fields ← sectionFieldList toks
      .ok (.headerFields fields)
    | "HEADER.FIELDS.NOT" => do
      let fields ← sectionFieldList toks
      .ok (.headerFieldsNot fields)
    | s =>
      if (s.toList.head?.map Char.isDigit).getD false then
        let segs := split '.' s
        let nums := (segs.filter fun seg => !eqIgnoreAsciiCase seg "MIME").filterMap parseU32
        if segs.any fun seg => eqIgnoreAsciiCase seg "MIME" then .ok (.partMime nums)
        else .ok (.part nums)
      else syntaxFault "unknown body section"

def stripSuffixChar (c : Char) (s : String) : Option String :=
  match s.toList.reverse with
  | d :: cs => if d = c then some (String.ofList cs.reverse) else none
  | [] => none

def parsePartial (a : String) : Option (ℕ × ℕ) := do
  let inner ← stripPrefix "<" a
  let inner ← stripSuffixChar '>' inner
  let (start, count) ← splitOnce '.' inner
  let start ← parseU32 start
  let count ← parseU32 count
  some (start, count)

/-- The window behind a section, if there is one. -/
def takePartial : List Token → Option (ℕ × ℕ) × List Token
  | .atom a :: toks =>
    match parsePartial a with
    | some p => (some p, toks)
    | none => (none, .atom a :: toks)
  | toks => (none, toks)

def simpleFetchItem : String → Option FetchItem
  | "FLAGS" => some .flags
  | "UID" => some .uid
  | "INTERNALDATE" => some .internalDate
  | "RFC822.SIZE" => some .rfc822Size
  | "ENVELOPE" => some .envelope
  | "BODYSTRUCTURE" => some .bodyStructure
  | "RFC822" => some .rfc822
  | "RFC822.HEADER" => some .rfc822Header
  | "RFC822.TEXT" => some .rfc822Text
  | "MODSEQ" => some .modSeq
  | _ => none

def parseOneFetchAtt (toks : List Token) : Parse (FetchItem × List Token) := do
  let head ← orFail (.syntaxError "bad fetch item") (toks[0]?.bind Token.asStr)
  let up := head.toUpper
  if let some item := simpleFetchItem up then return (item, toks.drop 1)
  if up = "BINARY" || up = "BINARY.PEEK" || up = "BINARY.SIZE" then
    match toks.drop 1 with
    | .lbracket :: rest => do
      let (inner, rest) ← readBracketTokens rest
      let path ← match ← parseSection inner with
        | .part p => .ok p
        | .full => .ok []
        | _ => syntaxFault "BINARY section must be a part number"
      if up = "BINARY.SIZE" then .ok (.binarySize path, rest)
      else
        let (window, rest) := takePartial rest
        .ok (.binary (up = "BINARY.PEEK") path window, rest)
    | _ => syntaxFault "BINARY needs a [section]"
  else if up = "BODY" || up = "BODY.PEEK" then
    match toks.drop 1 with
    | .lbracket :: rest => do
      let (inner, rest) ← readBracketTokens rest
      let part ← parseSection inner
      let (window, rest) := takePartial rest
      .ok (.bodySection (up = "BODY.PEEK") part window, rest)
    | rest => .ok (.body, rest)
  else syntaxFault "unknown fetch item"

def parseFetchAttList : ℕ → List Token → Parse (List FetchItem)
  | _, [] => .ok []
  | 0, _ => .error .exhausted
  | fuel + 1, inner => do
    let (item, rest) ← parseOneFetchAtt inner
    let items ← parseFetchAttList fuel rest
    .ok (item :: items)

def expandFetchMacro (atom : String) : Option (List FetchItem) :=
  match atom.toUpper with
  | "ALL" => some [.flags, .internalDate, .rfc822Size, .envelope]
  | "FAST" => some [.flags, .internalDate, .rfc822Size]
  | "FULL" => some [.flags, .internalDate, .rfc822Size, .envelope, .body]
  | _ => none

def parseFetchItems (args : List Token) : Parse (List FetchItem × List Token) :=
  match args with
  | .lparen :: _ => do
    let (inner, rest) ← readParenTokens args
    let items ← parseFetchAttList inner.length inner
    .ok (items, rest)
  | _ => do
    let atom ← atomAt args 0
    match expandFetchMacro atom with
    | some items => .ok (items, args.drop 1)
    | none => do
      let (item, rest) ← parseOneFetchAtt args
      .ok ([item], rest)

/-- The value of the last `CHANGEDSINCE` and whether `VANISHED` is among the modifiers. -/
def fetchModifiers : Option ℕ → Bool → List String → Option ℕ × Bool
  | changedsince, vanished, [] => (changedsince, vanished)
  | changedsince, vanished, m :: mods =>
    if eqIgnoreAsciiCase m "CHANGEDSINCE" then
      match mods with
      | v :: mods => fetchModifiers (parseU64 v) vanished mods
      | [] => (none, vanished)
    else if eqIgnoreAsciiCase m "VANISHED" then fetchModifiers changedsince true mods
    else fetchModifiers changedsince vanished mods

def parseSet (args : List Token) : Parse SequenceSet := do
  let arg ← atomAt args 0
  orFail (.syntaxError "bad sequence set") (SequenceSet.parse arg)

def parseFetch (args : List Token) (uid : Bool) : Parse Command := do
  let set ← parseSet args
  let (items, rest) ← parseFetchItems (args.drop 1)
  match rest with
  | .lparen :: _ => do
    let (mods, _) ← readParenAtoms rest
    let (changedsince, vanished) := fetchModifiers none false mods
    .ok (.fetch set items uid changedsince vanished)
  | _ => .ok (.fetch set items uid none false)

end Fetch

section Store

def storeModifiers : Option ℕ → List String → Option ℕ
  | unchangedsince, [] => unchangedsince
  | unchangedsince, m :: mods =>
    if eqIgnoreAsciiCase m "UNCHANGEDSINCE" then
      match mods with
      | v :: mods => storeModifiers (parseU64 v) mods
      | [] => none
    else storeModifiers unchangedsince mods

def storeVerb : String → Option (StoreOp × Bool)
  | "FLAGS" => some (.replace, false)
  | "FLAGS.SILENT" => some (.replace, true)
  | "+FLAGS" => some (.add, false)
  | "+FLAGS.SILENT" => some (.add, true)
  | "-FLAGS" => some (.remove, false)
  | "-FLAGS.SILENT" => some (.remove, true)
  | _ => none

def parseStore (args : List Token) (uid : Bool) : Parse Command := do
  let set ← parseSet args
  let (unchangedsince, args) ← match args.drop 1 with
    | .lparen :: rest => do
      let (mods, rest) ← readParenAtoms (.lparen :: rest)
      .ok (storeModifiers none mods, rest)
    | rest => .ok (none, rest)
  let verb ← atomAt args 0
  let (op, silent) ← orFail (.syntaxError "bad STORE verb") (storeVerb verb.toUpper)
  let flags ← match args.drop 1 with
    | .lparen :: rest => do
      let (fs, _) ← readParenAtoms (.lparen :: rest)
      .ok (fs.map Flag.parse)
    | rest => .ok ((rest.filterMap Token.asStr).map Flag.parse)
  .ok (.store ⟨set, op, flags, silent, uid, unchangedsince⟩)

def parseCopyMove (args : List Token) (uid isMove : Bool) : Parse Command := do
  let set ← parseSet args
  let mailbox ← atomAt args 1
  .ok (if isMove then .move set mailbox uid else .copy set mailbox uid)

end Store

def parseUid (args : List Token) : Parse Command := do
  let sub ← atomAt args 0
  let rest := args.drop 1
  match sub.toUpper with
  | "FETCH" => parseFetch rest true
  | "STORE" => parseStore rest true
  | "SEARCH" => parseSearch rest true
  | "SORT" => parseSort rest true
  | "THREAD" => parseThread rest true
  | "COPY" => parseCopyMove rest true false
  | "MOVE" => parseCopyMove rest true true
  | "EXPUNGE" => do
    let set ← parseSet rest
    .ok (.uidExpunge set)
  | _ => syntaxFault "unknown UID subcommand"

def parseBody (name : String) (args : List Token) : Parse Command :=
  match name with
  | "CAPABILITY" => .ok .capability
  | "NOOP" => .ok .noop
  | "LOGOUT" => .ok .logout
  | "STARTTLS" => .ok .startTls
  | "CHECK" => .ok .check
  | "CLOSE" => .ok .close
  | "UNSELECT" => .ok .unselect
  | "IDLE" => .ok .idle
  | "NAMESPACE" => .ok .namespaces
  | "EXPUNGE" => .ok .expunge
  | "ENABLE" => .ok (.enable (args.filterMap Token.asStr))
  | "LOGIN" => do
    let user ← atomAt args 0
    let pass ← atomAt args 1
    .ok (.login user pass)
  | "AUTHENTICATE" => do
    let mechanism ← atomAt args 0
    .ok (.authenticate mechanism (args[1]?.bind Token.asStr))
  | "SELECT" => do
    let mailbox ← atomAt args 0
    let (qresync, condstore) ← parseSelectParams (args.drop 1)
    .ok (.select mailbox qresync condstore)
  | "EXAMINE" => do
    let mailbox ← atomAt args 0
    let (qresync, condstore) ← parseSelectParams (args.drop 1)
    .ok (.examine mailbox qresync condstore)
  | "CREATE" => parseCreate args
  | "DELETE" => do
    let name ← atomAt args 0
    .ok (.delete name)
  | "RENAME" => do
    let source ← atomAt args 0
    let target ← atomAt args 1
    .ok (.rename source target)
  | "SUBSCRIBE" => do
    let name ← atomAt args 0
    .ok (.subscribe name)
  | "UNSUBSCRIBE" => do
    let name ← atomAt args 0
    .ok (.unsubscribe name)
  | "LIST" => parseList args
  | "LSUB" => do
    let reference ← atomAt args 0
    let pattern ← atomAt args 1
    .ok (.lsub reference pattern)
  | "STATUS" => parseStatus args
  | "APPEND" => parseAppend args
  | "ID" => parseId args
  | "SEARCH" => parseSearch args false
  | "SORT" => parseSort args false
  | "THREAD" => parseThread args false
  | "FETCH" => parseFetch args false
  | "STORE" => parseStore args false
  | "COPY" => parseCopyMove args false false
  | "MOVE" => parseCopyMove args false true
  | "UID" => parseUid args
  | other => fail (.unknownCommand other)

def parseTokens (tokens : List Token) : Parse ParsedCommand := do
  let tag ← orFail .empty (tokens[0]?.bind Token.asStr)
  let name ← orFail .empty (tokens[1]?.bind Token.asStr)
  let command ← parseBody name.toUpper (tokens.drop 2)
  .ok ⟨tag, command⟩

def parseCommand (buf : Bytes) : Parse ParsedCommand := do
  let tokens ← tokenize buf
  parseTokens tokens

end Dmtap.Mail.Imap
