import Dmtap.Mail.Imap.Sequence
import Dmtap.Mail.Store

/-! IMAP commands and search programs. -/
namespace Dmtap.Mail.Imap
open Lib

inductive SearchKey where
  | all
  | and (keys : List SearchKey)
  | or (a b : SearchKey)
  | not (key : SearchKey)
  | answered
  | unanswered
  | deleted
  | undeleted
  | draft
  | undraft
  | flagged
  | unflagged
  | seen
  | unseen
  | recent
  | new
  | old
  | keyword (k : String)
  | unkeyword (k : String)
  | sender (v : String)
  | recipient (v : String)
  | cc (v : String)
  | bcc (v : String)
  | subject (v : String)
  | body (v : String)
  | text (v : String)
  | header (field value : String)
  | before (date : String)
  | on (date : String)
  | since (date : String)
  | sentBefore (date : String)
  | sentOn (date : String)
  | sentSince (date : String)
  | larger (n : ℕ)
  | smaller (n : ℕ)
  | uid (set : SequenceSet)
  | seq (set : SequenceSet)
  | modSeq (n : ℕ)

inductive SortKey where
  | arrival
  | cc
  | date
  | sender
  | size
  | subject
  | recipient
  | displayFrom
  | displayTo
  deriving DecidableEq

structure SortCriterion where
  reverse : Bool
  key : SortKey

inductive ThreadAlgorithm where
  | orderedSubject
  | references
  deriving DecidableEq

structure QResyncParams where
  uidValidity : ℕ
  modseq : ℕ
  knownUids : Option SequenceSet
  deriving DecidableEq

inductive StoreOp where
  | replace
  | add
  | remove
  deriving DecidableEq

structure StoreCommand where
  set : SequenceSet
  op : StoreOp
  flags : List Flag
  silent : Bool
  uid : Bool
  unchangedsince : Option ℕ

inductive CatPart where
  | text (bytes : Bytes)
  | url (url : String)

inductive Section where
  | full
  | header
  | headerFields (fields : List String)
  | headerFieldsNot (fields : List String)
  | text
  | part (path : List ℕ)
  | partMime (path : List ℕ)
  deriving DecidableEq

inductive FetchItem where
  | flags
  | uid
  | internalDate
  | rfc822Size
  | envelope
  | bodyStructure
  | body
  | rfc822
  | rfc822Header
  | rfc822Text
  | modSeq
  | bodySection (peek : Bool) (part : Section) (window : Option (ℕ × ℕ))
  | binary (peek : Bool) (path : List ℕ) (window : Option (ℕ × ℕ))
  | binarySize (path : List ℕ)
  deriving DecidableEq

inductive Command where
  | capability
  | noop
  | logout
  | startTls
  | enable (caps : List String)
  | login (user pass : String)
  | authenticate (mechanism : String) (initial : Option String)
  | select (mailbox : String) (qresync : Option QResyncParams) (condstore : Bool)
  | examine (mailbox : String) (qresync : Option QResyncParams) (condstore : Bool)
  | create (name : String) (useAttr : Option String)
  | delete (name : String)
  | rename (source target : String)
  | subscribe (name : String)
  | unsubscribe (name : String)
  | list (reference pattern : String) (returnOpts selectOpts : List String)
  | lsub (reference pattern : String)
  | status (mailbox : String) (items : List String)
  | append (mailbox : String) (flags : List Flag) (date : Option String) (message : Bytes)
    (catenate : Option (List CatPart))
  | check
  | close
  | unselect
  | expunge
  | uidExpunge (set : SequenceSet)
  | idle
  | namespaces
  | id (params : Option (List (String × String)))
  | search (charset : Option String) (key : SearchKey) (uid : Bool) (ret : List String)
  | fetch (set : SequenceSet) (items : List FetchItem) (uid : Bool) (changedsince : Option ℕ)
    (vanished : Bool)
  | store (command : StoreCommand)
  | copy (set : SequenceSet) (mailbox : String) (uid : Bool)
  | move (set : SequenceSet) (mailbox : String) (uid : Bool)
  | sort (criteria : List SortCriterion) (charset : Option String) (key : SearchKey) (uid : Bool)
  | thread (algorithm : ThreadAlgorithm) (charset : Option String) (key : SearchKey) (uid : Bool)

structure ParsedCommand where
  tag : String
  command : Command

end Dmtap.Mail.Imap
