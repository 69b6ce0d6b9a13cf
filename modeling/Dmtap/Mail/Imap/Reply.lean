import Dmtap.Mail.Imap.Command

/-! Replies of an IMAP session, and their bytes on the wire. -/
namespace Dmtap.Mail.Imap
open Lib

/-- One item of FETCH data. -/
inductive Datum where
  | flags (flags : List Flag)
  | uid (uid : ℕ)
  | modseq (modseq : ℕ)
  | other (bytes : Bytes)
  deriving DecidableEq

/-- The response codes that carry UIDs. -/
inductive Code where
  | appendUid (validity uid : ℕ)
  | copyUid (validity : ℕ) (source target : List ℕ)
  | modified (uids : List ℕ)
  deriving DecidableEq

inductive Untagged where
  | text (text : String)
  | okCode (code : Code) (text : String)
  | expunge (seq : ℕ)
  | vanished (uids : List ℕ)
  | vanishedEarlier (uids : List ℕ)
  | fetch (seq : ℕ) (data : List Datum)
  deriving DecidableEq

inductive Status where
  | ok
  | no
  | bad
  deriving DecidableEq

inductive Reply where
  | untagged (u : Untagged)
  | status (tag : String) (status : Status) (code : Option Code) (text : String)
  | continuation (text : String)
  deriving DecidableEq

def ok (tag text : String) : Reply := .status tag .ok none text
def no (tag text : String) : Reply := .status tag .no none text
def bad (tag text : String) : Reply := .status tag .bad none text
def untagged (text : String) : Reply := .untagged (.text text)

def joinWith (sep : String) (l : List String) : String := String.intercalate sep l

def joinNums (l : List ℕ) : String := joinWith "," (l.map toString)

/-- The end of the run of consecutive numbers that starts with `hi`, and what is behind it. -/
def takeRun : ℕ → List ℕ → ℕ × List ℕ
  | hi, [] => (hi, [])
  | hi, n :: l => if n = hi + 1 then takeRun n l else (hi, n :: l)

/-- The runs of consecutive numbers of a list, as ranges. -/
def runs : ℕ → List ℕ → List (ℕ × ℕ)
  | 0, _ => []
  | _, [] => []
  | fuel + 1, lo :: l =>
    let (hi, rest) := takeRun lo l
    (lo, hi) :: runs fuel rest

def toSequenceSet (uids : List ℕ) : String :=
  joinWith "," ((runs uids.length uids).map fun r =>
    if r.1 = r.2 then toString r.1 else toString r.1 ++ ":" ++ toString r.2)

/-- A rendering that sorts and removes duplicates first. -/
def toSequenceSetOf (ids : List ℕ) : String :=
  toSequenceSet (ids.insertionSort (· ≤ ·)).dedup

def flagsStr (flags : List Flag) : String := joinWith " " (flags.map Flag.imap)

def Datum.wire : Datum → Bytes
  | flags fs => utf8 ("FLAGS (" ++ flagsStr fs ++ ")")
  | uid n => utf8 ("UID " ++ toString n)
  | modseq n => utf8 ("MODSEQ (" ++ toString n ++ ")")
  | other b => b

def Code.wire : Code → String
  | appendUid validity uid => "[APPENDUID " ++ toString validity ++ " " ++ toString uid ++ "] "
  | copyUid validity source target =>
    "[COPYUID " ++ toString validity ++ " " ++ joinNums source ++ " " ++ joinNums target ++ "] "
  | modified uids => "[MODIFIED " ++ joinNums uids ++ "] "

def crlf : Bytes := [13, 10]

def Untagged.wire : Untagged → Bytes
  | text t => utf8 ("* " ++ t) ++ crlf
  | okCode code t => utf8 ("* OK " ++ code.wire ++ t) ++ crlf
  | expunge seq => utf8 ("* " ++ toString seq ++ " EXPUNGE") ++ crlf
  | vanished uids => utf8 ("* VANISHED " ++ toSequenceSet uids) ++ crlf
  | vanishedEarlier uids => utf8 ("* VANISHED (EARLIER) " ++ toSequenceSet uids) ++ crlf
  | fetch seq data =>
    utf8 ("* " ++ toString seq ++ " FETCH (") ++ [32].intercalate (data.map Datum.wire) ++
      utf8 ")" ++ crlf

def Status.wire : Status → String
  | ok => "OK"
  | no => "NO"
  | bad => "BAD"

def Reply.wire : Reply → Bytes
  | untagged u => u.wire
  | status tag s code text =>
    utf8 (tag ++ " " ++ s.wire ++ " " ++ (code.map Code.wire).getD "" ++ text) ++ crlf
  | continuation text => utf8 ("+ " ++ text) ++ crlf

def wire (replies : List Reply) : Bytes := replies.flatMap Reply.wire

example : toSequenceSet [1, 3, 4, 5, 8] = "1,3:5,8" := by decide

end Dmtap.Mail.Imap
