import Dmtap.Mail.Auth
import Dmtap.Mail.Imap.Parser
import Dmtap.Mail.Imap.Reply

/-! The IMAP session: connection state, login, and the commands over the selected mailbox. -/
namespace Dmtap.Mail.Imap
open Lib

/-- What the session shows of a stored message's bytes: renderings, header matches, orders. They
read a message and never change one. -/
structure Views where
  fetchItem : FetchItem → Message → Bytes
  matchesText : SearchKey → Message → Bool
  sortMatches : Mailbox → List SortCriterion → List ℕ → List ℕ
  threads : Mailbox → ThreadAlgorithm → List ℕ → List (List ℕ)
  internalDate : String → Option ℕ
  extractSection : Bytes → Section → Bytes

/-- Views that show nothing. -/
def Views.blank : Views :=
  ⟨fun _ _ => [], fun _ _ => false, fun _ _ l => l, fun _ _ l => [l], fun _ => none,
    fun raw _ => raw⟩

inductive State where
  | notAuthenticated
  | authenticated
  | selected
  | logout
  deriving DecidableEq

/-- A SASL exchange that waits for the client's next line. -/
inductive Pending where
  | plain (tag : String)
  | loginUser (tag : String)
  | loginPass (tag user : String)
  deriving DecidableEq

structure Session (σ : Type) where
  store : σ
  auth : Consulted
  tls : Bool
  state : State
  identity : Option Bytes
  selected : Option String
  readOnly : Bool
  condstore : Bool
  qresync : Bool
  idleTag : Option String
  pending : Option Pending
  savedSearch : List ℕ

def capabilities (tls : Bool) : List String :=
  ["IMAP4rev2", "IMAP4rev1", "LITERAL+", "SASL-IR", "ENABLE", "IDLE", "NAMESPACE", "ID", "UIDPLUS",
    "MOVE", "CONDSTORE", "QRESYNC", "ESEARCH", "SEARCHRES", "SORT", "SORT=DISPLAY",
    "THREAD=ORDEREDSUBJECT", "THREAD=REFERENCES", "BINARY", "CATENATE", "CHILDREN",
    "LIST-EXTENDED", "LIST-STATUS", "SPECIAL-USE", "CREATE-SPECIAL-USE", "UNSELECT",
    "STATUS=SIZE"] ++
    if tls then ["AUTH=PLAIN", "AUTH=LOGIN"] else ["STARTTLS", "LOGINDISABLED"]

def capabilityLine (tls : Bool) : String := "CAPABILITY " ++ joinWith " " (capabilities tls)

def extractTag (buf : Bytes) : Option String := (splitWhitespace (fromUtf8Lossy buf)).head?

section Targets

/-- The indices a sequence set selects, ascending and without repetition. -/
def resolveTargets (mb : Mailbox) (set : SequenceSet) (uidMode : Bool) : List ℕ :=
  let idx :=
    if uidMode then
      (set.rangesResolved mb.maxUid).flatMap fun r =>
        let start := partitionPoint (fun m => m.uid < r.1) mb.messages
        List.range' start ((mb.messages.drop start).takeWhile fun m => m.uid ≤ r.2).length
    else
      let count := mb.exists'
      (set.rangesResolved count).flatMap fun r =>
        let lo := max r.1 1
        let hi := min r.2 count
        List.range' (lo - 1) (hi + 1 - lo)
  (idx.insertionSort (· ≤ ·)).dedup

def applyStore (msg : Message) (op : StoreOp) (flags : List Flag) : Message :=
  match op with
  | .replace =>
    let recent := msg.hasFlag .recent
    let msg := { msg with flags := flags.filter fun f => f ≠ .recent }
    if recent then msg.setFlag .recent else msg
  | .add => flags.foldl (fun msg f => if f ≠ .recent then msg.setFlag f else msg) msg
  | .remove => flags.foldl (fun msg f => msg.clearFlag f) msg

def fetchMarksSeen (items : List FetchItem) : Bool :=
  items.any fun
    | .rfc822 => true
    | .rfc822Text => true
    | .bodySection false _ _ => true
    | .binary false _ _ => true
    | _ => false

def renderFetchItems (views : Views) (items : List FetchItem) (msg : Message) (uidMode : Bool) :
    List Datum :=
  let data := items.map fun
    | .flags => Datum.flags msg.flags
    | .uid => .uid msg.uid
    | .modSeq => .modseq msg.modseq
    | item => .other (views.fetchItem item msg)
  if uidMode && !items.contains .uid then data ++ [.uid msg.uid] else data

def specialUseFromAttr (attr : String) : Option SpecialUse :=
  match attr.toLower with
  | "\\sent" => some .sent
  | "\\drafts" => some .drafts
  | "\\trash" => some .trash
  | "\\junk" => some .junk
  | "\\archive" => some .archive
  | "\\all" => some .all
  | _ => none

def imapString (s : String) : String :=
  if s = "" then "\"\""
  else if (utf8 s).any fun b => b == 13 || b == 10 || b == 0 || 0x80 ≤ b then
    "\x7b" ++ toString (utf8 s).length ++ "\x7d\r\n" ++ s
  else
    "\"" ++ String.ofList (s.toList.flatMap fun c =>
      if c = '\\' || c = '"' then ['\\', c] else [c]) ++ "\""

/-- One row of the matching table: which suffixes of the name the pattern from here on matches,
from the row below. -/
def wildcardRow (c : UInt8) : Bytes → List Bool → List Bool
  | [], below => [if c = 42 || c = 37 then below.headD false else false]
  | n :: name, below =>
    let row := wildcardRow c name below.tail
    let here :=
      if c = 42 then below.headD false || row.headD false
      else if c = 37 then below.headD false || (n ≠ 47 && row.headD false)
      else n = c && below.tail.headD false
    here :: row

def wildcardMatch (pattern name : String) : Bool :=
  let n := utf8 name
  let last := List.replicate n.length false ++ [true]
  ((utf8 pattern).foldr (fun c below => wildcardRow c n below) last).headD false

def parseUrlSection (s : String) : Section :=
  let s := String.ofList (s.toList.reverse.dropWhile (· == '/')).reverse
  if eqIgnoreAsciiCase s "HEADER" then .header
  else if eqIgnoreAsciiCase s "TEXT" then .text
  else if s = "" then .full
  else
    let nums := (split '.' s).filterMap parseU32
    if nums.isEmpty then .full else .part nums

end Targets

section Search
variable (views : Views)

structure SearchCtx where
  seq : ℕ
  maxSeq : ℕ
  uid : ℕ
  maxUid : ℕ
  msg : Message

mutual

def evalSaved (c : SearchCtx) (savedUids : List ℕ) : SearchKey → Bool
  | .all => true
  | .and keys => evalAll c savedUids keys
  | .or a b => evalSaved c savedUids a || evalSaved c savedUids b
  | .not key => !evalSaved c savedUids key
  | .uid set => if set.isSaved then savedUids.contains c.uid else set.contains c.uid c.maxUid
  | .seq set => if set.isSaved then savedUids.contains c.uid else set.contains c.seq c.maxSeq
  | .answered => c.msg.hasFlag .answered
  | .unanswered => !c.msg.hasFlag .answered
  | .deleted => c.msg.hasFlag .deleted
  | .undeleted => !c.msg.hasFlag .deleted
  | .draft => c.msg.hasFlag .draft
  | .undraft => !c.msg.hasFlag .draft
  | .flagged => c.msg.hasFlag .flagged
  | .unflagged => !c.msg.hasFlag .flagged
  | .seen => c.msg.hasFlag .seen
  | .unseen => !c.msg.hasFlag .seen
  | .recent => c.msg.hasFlag .recent
  | .new => c.msg.hasFlag .recent && !c.msg.hasFlag .seen
  | .old => !c.msg.hasFlag .recent
  | .keyword k => c.msg.hasFlag (.keyword k)
  | .unkeyword k => !c.msg.hasFlag (.keyword k)
  | .larger n => n < c.msg.size
  | .smaller n => c.msg.size < n
  | .modSeq n => n ≤ c.msg.modseq
  | .sender v => views.matchesText (.sender v) c.msg
  | .recipient v => views.matchesText (.recipient v) c.msg
  | .cc v => views.matchesText (.cc v) c.msg
  | .bcc v => views.matchesText (.bcc v) c.msg
  | .subject v => views.matchesText (.subject v) c.msg
  | .body v => views.matchesText (.body v) c.msg
  | .text v => views.matchesText (.text v) c.msg
  | .header f v => views.matchesText (.header f v) c.msg
  | .before d => views.matchesText (.before d) c.msg
  | .on d => views.matchesText (.on d) c.msg
  | .since d => views.matchesText (.since d) c.msg
  | .sentBefore d => views.matchesText (.sentBefore d) c.msg
  | .sentOn d => views.matchesText (.sentOn d) c.msg
  | .sentSince d => views.matchesText (.sentSince d) c.msg

def evalAll (c : SearchCtx) (savedUids : List ℕ) : List SearchKey → Bool
  | [] => true
  | key :: keys => evalSaved c savedUids key && evalAll c savedUids keys

end

/-- The indices of the messages a search program matches. -/
def searchMatches (mb : Mailbox) (key : SearchKey) (saved : List ℕ) : List ℕ :=
  (mb.messages.zipIdx.filter fun p =>
    evalSaved views ⟨p.2 + 1, mb.exists', p.1.uid, mb.maxUid, p.1⟩ saved key).map Prod.snd

def badCharset (charset : Option String) : Bool :=
  match charset with
  | none => false
  | some cs => !(["UTF-8", "US-ASCII", "ASCII"].contains cs.toUpper)

end Search

namespace Session
variable {σ : Type} [MailStore σ]

def new (store : σ) (auth : Authenticator) (tls : Bool) : Session σ where
  store := store
  auth := ⟨auth, []⟩
  tls := tls
  state := .notAuthenticated
  identity := none
  selected := none
  readOnly := false
  condstore := false
  qresync := false
  idleTag := none
  pending := none
  savedSearch := []

section Login

def cmdLogin (s : Session σ) (tag user pass : String) : Session σ × List Reply :=
  if !s.tls then (s, [no tag "[PRIVACYREQUIRED] LOGIN disabled until STARTTLS"])
  else
    match s.auth.verify user pass with
    | (some id, auth) =>
      ({ s with auth := auth, identity := some id, state := .authenticated },
        [ok tag "LOGIN completed"])
    | (none, auth) =>
      ({ s with auth := auth }, [no tag "[AUTHENTICATIONFAILED] invalid credentials"])

def finishCredentials (s : Session σ) (tag user pass : String) : Session σ × List Reply :=
  match s.auth.verify user pass with
  | (some id, auth) =>
    ({ s with auth := auth, identity := some id, state := .authenticated },
      [ok tag "AUTHENTICATE completed"])
  | (none, auth) =>
    ({ s with auth := auth }, [no tag "[AUTHENTICATIONFAILED] invalid credentials"])

def finishPlain (s : Session σ) (tag ir : String) : Session σ × List Reply :=
  match decodePlain ir with
  | some cred => s.finishCredentials tag cred.authcid cred.password
  | none => (s, [no tag "[AUTHENTICATIONFAILED] malformed SASL PLAIN"])

def cmdAuthenticate (s : Session σ) (tag mechanism : String) (initial : Option String) :
    Session σ × List Reply :=
  match SaslMechanism.parse mechanism with
  | none => (s, [no tag "[CANNOT] unsupported SASL mechanism"])
  | some mech =>
    if !s.tls then (s, [no tag "[PRIVACYREQUIRED] AUTHENTICATE disabled until STARTTLS"])
    else
      match mech, initial with
      | .plain, some ir => s.finishPlain tag ir
      | .plain, none => ({ s with pending := some (.plain tag) }, [.continuation ""])
      | .login, some ir =>
        let user := (decodeLoginField ir).getD ""
        ({ s with pending := some (.loginPass tag user) },
          [.continuation (base64Encode (utf8 "Password:"))])
      | .login, none =>
        ({ s with pending := some (.loginUser tag) },
          [.continuation (base64Encode (utf8 "Username:"))])

def continueSasl (s : Session σ) (pending : Pending) (buf : Bytes) : Session σ × List Reply :=
  let line := trim (fromUtf8Lossy buf)
  match pending with
  | .plain tag => s.finishPlain tag line
  | .loginUser tag =>
    let user := (decodeLoginField line).getD ""
    ({ s with pending := some (.loginPass tag user) },
      [.continuation (base64Encode (utf8 "Password:"))])
  | .loginPass tag user =>
    let pass := (decodeLoginField line).getD ""
    s.finishCredentials tag user pass

def enableOne (acc : Session σ × List String) (c : String) : Session σ × List String :=
  match c.toUpper with
  | "CONDSTORE" => ({ acc.1 with condstore := true }, acc.2 ++ ["CONDSTORE"])
  | "QRESYNC" => ({ acc.1 with qresync := true, condstore := true }, acc.2 ++ ["QRESYNC"])
  | "IMAP4REV2" => (acc.1, acc.2 ++ ["IMAP4rev2"])
  | _ => acc

def cmdEnable (s : Session σ) (tag : String) (caps : List String) : Session σ × List Reply :=
  let (s, enabled) := caps.foldl enableOne (s, [])
  (s, [untagged ("ENABLED " ++ joinWith " " enabled), ok tag "ENABLE completed"])

end Login

section Mailboxes

def setSubscribed (s : Session σ) (tag name : String) (sub : Bool) : Session σ × List Reply :=
  match MailStore.mailboxMut s.store name with
  | some (mb, write) =>
    ({ s with store := write { mb with subscribed := sub } },
      [ok tag (if sub then "SUBSCRIBE completed" else "UNSUBSCRIBE completed")])
  | none => (s, [no tag "no such mailbox"])

/-- The catch-up of a client that last saw `modseq`: what vanished, and what changed. -/
def qresyncResync (store : σ) (name : String) (modseq : ℕ) (knownUids : Option SequenceSet) :
    List Untagged :=
  match MailStore.mailbox store name with
  | none => []
  | some mb =>
    let known (u : ℕ) : Bool := (knownUids.map fun k => k.contains u mb.maxUid).getD true
    let vanished := ((mb.vanishedSince modseq).filter known).insertionSort (· ≤ ·)
    let changed := mb.messages.zipIdx.filter fun p => modseq < p.1.modseq && known p.1.uid
    (if vanished.isEmpty then [] else [.vanishedEarlier vanished]) ++
      changed.map fun p => .fetch (p.2 + 1) [.uid p.1.uid, .modseq p.1.modseq, .flags p.1.flags]

def cmdSelect (s : Session σ) (tag name : String) (readOnly condstore : Bool)
    (qresync : Option QResyncParams) : Session σ × List Reply :=
  match MailStore.mailbox s.store name with
  | none => (s, [no tag "[NONEXISTENT] no such mailbox"])
  | some mb =>
    let s := if condstore || qresync.isSome then { s with condstore := true } else s
    let out :=
      [untagged "FLAGS (\\Answered \\Flagged \\Deleted \\Seen \\Draft)",
        untagged (toString mb.exists' ++ " EXISTS"),
        untagged (toString mb.recent ++ " RECENT")] ++
      (match mb.firstUnseenSeq with
        | some u => [untagged ("OK [UNSEEN " ++ toString u ++ "] first unseen")]
        | none => []) ++
      [untagged ("OK [UIDVALIDITY " ++ toString mb.uidValidity ++ "] UIDs valid"),
        untagged ("OK [UIDNEXT " ++ toString mb.uidNext ++ "] predicted next UID"),
        untagged "OK [PERMANENTFLAGS (\\Answered \\Flagged \\Deleted \\Seen \\Draft \\*)] limited"] ++
      (if s.condstore then
        [untagged ("OK [HIGHESTMODSEQ " ++ toString mb.highestModseq ++ "] highest modseq")]
        else []) ++
      (match qresync with
        | some q =>
          if q.uidValidity = mb.uidValidity then
            (qresyncResync s.store name q.modseq q.knownUids).map .untagged
          else []
        | none => [])
    let s := if qresync.isSome then { s with qresync := true } else s
    let code := if readOnly then "[READ-ONLY]" else "[READ-WRITE]"
    let verb := if readOnly then "EXAMINE" else "SELECT"
    ({ s with selected := some name, readOnly := readOnly, state := .selected },
      out ++ [ok tag (code ++ " " ++ verb ++ " completed")])

def statusItem (mb : Mailbox) (item : String) : Option String :=
  match item.toUpper with
  | "MESSAGES" => some ("MESSAGES " ++ toString mb.exists')
  | "RECENT" => some ("RECENT " ++ toString mb.recent)
  | "UIDNEXT" => some ("UIDNEXT " ++ toString mb.uidNext)
  | "UIDVALIDITY" => some ("UIDVALIDITY " ++ toString mb.uidValidity)
  | "UNSEEN" => some ("UNSEEN " ++ toString mb.unseen)
  | "DELETED" =>
    some ("DELETED " ++ toString (mb.messages.filter fun m => m.hasFlag .deleted).length)
  | "HIGHESTMODSEQ" => some ("HIGHESTMODSEQ " ++ toString mb.highestModseq)
  | "SIZE" => some ("SIZE " ++ toString (mb.messages.map Message.size).sum)
  | _ => none

def statusReplyLine (store : σ) (name : String) (items : List String) : List Reply :=
  match MailStore.mailbox store name with
  | none => []
  | some mb =>
    [untagged ("STATUS " ++ imapString name ++ " (" ++
      joinWith " " (items.filterMap (statusItem mb)) ++ ")")]

def cmdStatus (s : Session σ) (tag name : String) (items : List String) :
    Session σ × List Reply :=
  if (MailStore.mailbox s.store name).isNone then (s, [no tag "[NONEXISTENT] no such mailbox"])
  else (s, statusReplyLine s.store name items ++ [ok tag "STATUS completed"])

def isStatusItem (s : String) : Bool :=
  ["MESSAGES", "RECENT", "UIDNEXT", "UIDVALIDITY", "UNSEEN", "DELETED", "SIZE",
    "HIGHESTMODSEQ"].contains s

def listStatusItems (returnOptsUpper : List String) : Option (List String) :=
  match returnOptsUpper.dropWhile fun s => s ≠ "STATUS" with
  | [] => none
  | _ :: rest =>
    let items := rest.takeWhile isStatusItem
    if items.isEmpty then none else some items

/-- The LIST line of one mailbox and its STATUS line, if it is to be listed. -/
def listOne (store : σ) (verb pattern : String) (lsub wantSubscribed onlySubscribed onlySpecial : Bool)
    (statusItems : Option (List String)) (names : List String) (name : String) :
    List Reply × List Reply :=
  if !wildcardMatch pattern name then ([], [])
  else
    match MailStore.mailbox store name with
    | none => ([], [])
    | some mb =>
      let role := mb.specialUse.bind SpecialUse.listAttribute
      if (lsub || onlySubscribed) && !mb.subscribed then ([], [])
      else if onlySpecial && role.isNone then ([], [])
      else
        let children :=
          if names.any fun n => (name ++ "/").toList <+: n.toList then "\\HasChildren"
          else "\\HasNoChildren"
        let attrs := [children] ++
          (if (wantSubscribed || lsub) && mb.subscribed then ["\\Subscribed"] else []) ++
          role.toList
        ([untagged (verb ++ " (" ++ joinWith " " attrs ++ ") \"/\" " ++ imapString name)],
          match statusItems with
          | some items => statusReplyLine store name items
          | none => [])

def cmdList (s : Session σ) (tag pattern : String) (lsub : Bool)
    (returnOpts selectOpts : List String) : Session σ × List Reply :=
  let verb := if lsub then "LSUB" else "LIST"
  if pattern = "" then
    (s, [untagged (verb ++ " (\\Noselect) \"/\" \"\""), ok tag (verb ++ " completed")])
  else
    let up := returnOpts.map String.toUpper
    let sel := selectOpts.map String.toUpper
    let names := MailStore.mailboxNames s.store
    let lines := names.map (listOne s.store verb pattern lsub (up.contains "SUBSCRIBED")
      (sel.contains "SUBSCRIBED") (sel.contains "SPECIAL-USE") (listStatusItems up) names)
    (s, lines.flatMap Prod.fst ++ lines.flatMap Prod.snd ++ [ok tag (verb ++ " completed")])

def cmdCreate (s : Session σ) (tag name : String) (useAttr : Option String) :
    Session σ × List Reply :=
  match MailStore.create s.store name with
  | (store, .ok ()) =>
    let store :=
      match useAttr.bind specialUseFromAttr with
      | some su =>
        match MailStore.mailboxMut store name with
        | some (mb, write) => write { mb with specialUse := some su }
        | none => store
      | none => store
    ({ s with store := store }, [ok tag "CREATE completed"])
  | (store, .error e) => ({ s with store := store }, [no tag ("CREATE failed: " ++ e.message)])

def cmdDelete (s : Session σ) (tag name : String) : Session σ × List Reply :=
  match MailStore.delete s.store name with
  | (store, .ok ()) => ({ s with store := store }, [ok tag "DELETE completed"])
  | (store, .error e) => ({ s with store := store }, [no tag ("DELETE failed: " ++ e.message)])

def cmdRename (s : Session σ) (tag source target : String) : Session σ × List Reply :=
  match MailStore.rename s.store source target with
  | (store, .ok ()) => ({ s with store := store }, [ok tag "RENAME completed"])
  | (store, .error e) => ({ s with store := store }, [no tag ("RENAME failed: " ++ e.message)])

/-- The bytes an IMAP URL names in this store. -/
def resolveImapUrl (views : Views) (store : σ) (url : String) : Option Bytes := do
  let path :=
    match splitOnceOn "//" url with
    | some (_, rest) => ((splitOnce '/' rest).map Prod.snd).getD rest
    | none => url
  let (mailboxPart, rest) ← splitOnceOn ";UID=" path
  let mailbox := String.ofList (mailboxPart.toList.dropWhile (· == '/'))
  let (uidStr, sectionStr) :=
    match splitOnceOn "/;SECTION=" rest with
    | some (u, s) => (u, some s)
    | none => (rest, none)
  let uid ← parseU32 (String.ofList (uidStr.toList.reverse.dropWhile (· == '/')).reverse)
  let mb ← MailStore.mailbox store mailbox
  let msg ← mb.byUid uid
  match sectionStr with
  | none => some msg.raw
  | some s => some (views.extractSection msg.raw (parseUrlSection s))

def buildCatenate (views : Views) (store : σ) : List CatPart → Except String Bytes
  | [] => .ok []
  | .text bytes :: parts => do
    let rest ← buildCatenate views store parts
    .ok (bytes ++ rest)
  | .url url :: parts =>
    match resolveImapUrl views store url with
    | none => .error "[BADURL] CATENATE URL not resolvable on this node"
    | some bytes => do
      let rest ← buildCatenate views store parts
      .ok (bytes ++ rest)

def cmdAppend (views : Views) (s : Session σ) (tag name : String) (flags : List Flag)
    (date : Option String) (message : Bytes) (catenate : Option (List CatPart)) :
    Session σ × List Reply :=
  let ts := (date.bind views.internalDate).getD 0
  let message : Except String Bytes :=
    match catenate with
    | some parts => buildCatenate views s.store parts
    | none => .ok message
  match message with
  | .error msg => (s, [no tag msg])
  | .ok message =>
    match MailStore.mailboxMut s.store name with
    | none => (s, [no tag "[TRYCREATE] no such mailbox"])
    | some (mb, write) =>
      let (uid, mb') := mb.append message flags ts
      ({ s with store := write mb' },
        [.status tag .ok (some (.appendUid mb.uidValidity uid)) "APPEND completed"])

end Mailboxes

section Selected

def requireSelected (s : Session σ) (tag done : String) : Session σ × List Reply :=
  if s.selected.isSome then (s, [ok tag done]) else (s, [bad tag "no mailbox selected"])

/-- Remove the messages at some ascending indices, the last one first. -/
def removeAll (mb : Mailbox) (indices : List ℕ) : Mailbox × List ℕ :=
  indices.reverse.foldl (fun acc i =>
    match acc.1.removeAt i with
    | (some uid, mb) => (mb, acc.2 ++ [uid])
    | (none, mb) => (mb, acc.2)) (mb, [])

/-- The lines that report removals, one for each or one for all. -/
def removalLines (qresync : Bool) (indices vanished : List ℕ) : List Reply :=
  if qresync then
    if vanished.isEmpty then []
    else [.untagged (.vanished (vanished.insertionSort (· ≤ ·)))]
  else indices.reverse.map fun i => .untagged (.expunge (i + 1))

def cmdClose (s : Session σ) (tag : String) (expunge : Bool) : Session σ × List Reply :=
  let verb := if expunge then "CLOSE" else "UNSELECT"
  let store :=
    match s.selected with
    | some name =>
      if expunge && !s.readOnly then
        match MailStore.mailboxMut s.store name with
        | some (mb, write) =>
          let toRemove := (mb.messages.zipIdx.filter fun p => p.1.hasFlag .deleted).map Prod.snd
          write (removeAll mb toRemove).1
        | none => s.store
      else s.store
    | none => s.store
  ({ s with store := store, selected := none, state := .authenticated },
    [ok tag (verb ++ " completed")])

/-- A sequence set with the saved search result put in for the reference to it. -/
def materialize (s : Session σ) (set : SequenceSet) (uidMode : Bool) : SequenceSet :=
  if !set.isSaved then set
  else if uidMode then SequenceSet.fromUids s.savedSearch
  else
    match s.selected.bind (MailStore.mailbox s.store) with
    | some mb => SequenceSet.fromUids (s.savedSearch.filterMap mb.seqOfUid)
    | none => SequenceSet.fromUids []

def cmdExpunge (s : Session σ) (tag : String) (uidSet : Option SequenceSet) :
    Session σ × List Reply :=
  match s.selected with
  | none => (s, [bad tag "no mailbox selected"])
  | some name =>
    if s.readOnly then (s, [no tag "mailbox is read-only"])
    else
      let uidSet := uidSet.map fun set => s.materialize set true
      match MailStore.mailboxMut s.store name with
      | none => (s, [bad tag "no mailbox selected"])
      | some (mb, write) =>
        let inSet (m : Message) : Bool := (uidSet.map fun set => set.contains m.uid mb.maxUid).getD true
        let toRemove :=
          (mb.messages.zipIdx.filter fun p => p.1.hasFlag .deleted && inSet p.1).map Prod.snd
        let (mb', vanished) := removeAll mb toRemove
        ({ s with store := write mb' },
          removalLines s.qresync toRemove vanished ++ [ok tag "EXPUNGE completed"])

def esearchLine (tag : String) (uid : Bool) (up : List String) (hits : List ℕ) : Reply :=
  let wantsAll := up.contains "ALL" || !(up.any fun r => r == "MIN" || r == "MAX" || r == "COUNT")
  untagged ("ESEARCH (TAG \"" ++ tag ++ "\")" ++
    (if uid then " UID" else "") ++
    (if up.contains "MIN" then (hits.min?.map fun m => " MIN " ++ toString m).getD "" else "") ++
    (if up.contains "MAX" then (hits.max?.map fun m => " MAX " ++ toString m).getD "" else "") ++
    (if up.contains "COUNT" then " COUNT " ++ toString hits.length else "") ++
    (if wantsAll && !hits.isEmpty then " ALL " ++ toSequenceSetOf hits else ""))

/-- The number a command answers with for the message at an index. -/
def numberOf (mb : Mailbox) (uid : Bool) (i : ℕ) : ℕ :=
  if uid then (mb.messages[i]?.map Message.uid).getD 0 else i + 1

def cmdSearch (views : Views) (s : Session σ) (tag : String) (key : SearchKey) (uid : Bool)
    (ret : List String) (charset : Option String) : Session σ × List Reply :=
  if badCharset charset then
    (s, [no tag "[BADCHARSET (US-ASCII UTF-8)] unsupported SEARCH charset"])
  else
    match s.selected.bind (MailStore.mailbox s.store) with
    | none => (s, [bad tag "no mailbox selected"])
    | some mb =>
      let matched := searchMatches views mb key s.savedSearch
      let hits := matched.map (numberOf mb uid)
      let up := ret.map String.toUpper
      let s :=
        if up.contains "SAVE" then { s with savedSearch := matched.map (numberOf mb true) } else s
      let onlySave := !up.isEmpty && up.all (· == "SAVE")
      let out :=
        if ret.isEmpty then
          [untagged (trimEnd ("SEARCH " ++ joinWith " " (hits.map toString)))]
        else if !onlySave then [esearchLine tag uid up hits]
        else []
      (s, out ++ [ok tag "SEARCH completed"])

def cmdSort (views : Views) (s : Session σ) (tag : String) (criteria : List SortCriterion)
    (charset : Option String) (key : SearchKey) (uid : Bool) : Session σ × List Reply :=
  if badCharset charset then (s, [no tag "[BADCHARSET (US-ASCII UTF-8)] unsupported charset"])
  else
    match s.selected.bind (MailStore.mailbox s.store) with
    | none => (s, [bad tag "no mailbox selected"])
    | some mb =>
      let matched := views.sortMatches mb criteria (searchMatches views mb key s.savedSearch)
      let ids := matched.map fun i => toString (numberOf mb uid i)
      (s, [untagged (trimEnd ("SORT " ++ joinWith " " ids)), ok tag "SORT completed"])

def cmdThread (views : Views) (s : Session σ) (tag : String) (algorithm : ThreadAlgorithm)
    (charset : Option String) (key : SearchKey) (uid : Bool) : Session σ × List Reply :=
  if badCharset charset then (s, [no tag "[BADCHARSET (US-ASCII UTF-8)] unsupported charset"])
  else
    match s.selected.bind (MailStore.mailbox s.store) with
    | none => (s, [bad tag "no mailbox selected"])
    | some mb =>
      let threads := views.threads mb algorithm (searchMatches views mb key s.savedSearch)
      let groups := threads.map fun group =>
        "(" ++ joinWith " " (group.map fun i => toString (numberOf mb uid i)) ++ ")"
      (s, [untagged (trimEnd ("THREAD " ++ joinWith "" groups)), ok tag "THREAD completed"])

/-- FETCH of one message: mark it as seen where its text is shown, then show it. -/
def fetchOne (views : Views) (items : List FetchItem) (uidMode readOnly : Bool)
    (changedsince : Option ℕ) (acc : Mailbox × List Reply) (i : ℕ) : Mailbox × List Reply :=
  match acc.1.messages[i]? with
  | none => acc
  | some m =>
    if (changedsince.map fun cs => decide (m.modseq ≤ cs)).getD false then acc
    else
      let mb :=
        if !readOnly && fetchMarksSeen items && !m.hasFlag .seen then
          acc.1.touch i fun m => m.setFlag .seen
        else acc.1
      let msg := (mb.messages[i]?).getD m
      (mb, acc.2 ++ [.untagged (.fetch (i + 1) (renderFetchItems views items msg uidMode))])

def cmdFetch (views : Views) (s : Session σ) (tag : String) (set : SequenceSet)
    (items : List FetchItem) (uidMode : Bool) (changedsince : Option ℕ) (vanished : Bool) :
    Session σ × List Reply :=
  match s.selected with
  | none => (s, [bad tag "no mailbox selected"])
  | some name =>
    let set := s.materialize set uidMode
    match MailStore.mailboxMut s.store name with
    | none => (s, [bad tag "no mailbox selected"])
    | some (mb, write) =>
      let gone :=
        match vanished, changedsince with
        | true, some cs =>
          let v := ((mb.vanishedSince cs).filter fun u => set.contains u mb.maxUid).insertionSort
            (· ≤ ·)
          if v.isEmpty then [] else [Reply.untagged (.vanishedEarlier v)]
        | _, _ => []
      let (mb', out) := (resolveTargets mb set uidMode).foldl
        (fetchOne views items uidMode s.readOnly changedsince) (mb, gone)
      ({ s with store := write mb' }, out ++ [ok tag "FETCH completed"])

/-- STORE on one message, unless it changed since. -/
def storeOne (sc : StoreCommand) (condstore : Bool) (acc : Mailbox × List Reply × List ℕ) (i : ℕ) :
    Mailbox × List Reply × List ℕ :=
  let (mb, out, modified) := acc
  match mb.messages[i]? with
  | none => acc
  | some m =>
    if (sc.unchangedsince.map fun uc => decide (uc < m.modseq)).getD false then
      (mb, out, modified ++ [m.uid])
    else
      let mb := mb.touch i fun m => applyStore m sc.op sc.flags
      if sc.silent then (mb, out, modified)
      else
        let msg := (mb.messages[i]?).getD m
        let data := [Datum.flags msg.flags] ++ (if sc.uid then [.uid m.uid] else []) ++
          (if condstore then [.modseq msg.modseq] else [])
        (mb, out ++ [.untagged (.fetch (i + 1) data)], modified)

def cmdStore (s : Session σ) (tag : String) (sc : StoreCommand) : Session σ × List Reply :=
  match s.selected with
  | none => (s, [bad tag "no mailbox selected"])
  | some name =>
    if s.readOnly then (s, [no tag "mailbox is read-only"])
    else
      let condstore := s.condstore || sc.unchangedsince.isSome
      let set := s.materialize sc.set sc.uid
      match MailStore.mailboxMut s.store name with
      | none => (s, [bad tag "no mailbox selected"])
      | some (mb, write) =>
        let (mb', out, modified) := (resolveTargets mb set sc.uid).foldl
          (storeOne sc condstore) (mb, [], [])
        let code := if modified.isEmpty then none else some (Code.modified modified)
        ({ s with store := write mb' }, out ++ [.status tag .ok code "STORE completed"])

/-- The messages a COPY or MOVE takes, with their UIDs, and the validity of the UIDs. -/
def collectForCopy (s : Session σ) (set : SequenceSet) (uidMode : Bool) :
    Option (List (ℕ × Message) × ℕ) := do
  let name ← s.selected
  let set := s.materialize set uidMode
  let mb ← MailStore.mailbox s.store name
  let out := ((resolveTargets mb set uidMode).filterMap fun i => mb.messages[i]?).map fun m =>
    (m.uid, m)
  some (out, mb.uidValidity)

/-- Append copies, collecting their new UIDs. -/
def appendAll (mb : Mailbox) (copied : List (ℕ × Message)) : Mailbox × List ℕ :=
  copied.foldl (fun acc p =>
    let (uid, mb) := acc.1.append p.2.raw p.2.flags p.2.internalDate
    (mb, acc.2 ++ [uid])) (mb, [])

def cmdCopy (s : Session σ) (tag : String) (set : SequenceSet) (dest : String) (uidMode : Bool) :
    Session σ × List Reply :=
  match s.collectForCopy set uidMode with
  | none => (s, [bad tag "no mailbox selected"])
  | some (copied, _) =>
    match MailStore.mailboxMut s.store dest with
    | none => (s, [no tag "[TRYCREATE] no such destination mailbox"])
    | some (dmb, write) =>
      let (dmb', dstUids) := appendAll dmb copied
      ({ s with store := write dmb' },
        [.status tag .ok (some (.copyUid dmb.uidValidity (copied.map Prod.fst) dstUids))
          "COPY completed"])

def cmdMove (s : Session σ) (tag : String) (set : SequenceSet) (dest : String) (uidMode : Bool) :
    Session σ × List Reply :=
  match s.selected with
  | none => (s, [bad tag "no mailbox selected"])
  | some name =>
    match s.collectForCopy set uidMode with
    | none => (s, [bad tag "no mailbox selected"])
    | some (copied, _) =>
      match MailStore.mailboxMut s.store dest with
      | none => (s, [no tag "[TRYCREATE] no such destination mailbox"])
      | some (dmb, write) =>
        let (dmb', dstUids) := appendAll dmb copied
        let movedUids := copied.map Prod.fst
        let store := write dmb'
        match MailStore.mailboxMut store name with
        | none => ({ s with store := store }, [bad tag "no mailbox selected"])
        | some (smb, write) =>
          let indices := (movedUids.filterMap smb.indexOfUid).insertionSort (· ≤ ·)
          let (smb', vanished) := removeAll smb indices
          ({ s with store := write smb' },
            [.untagged (.okCode (.copyUid dmb.uidValidity movedUids dstUids) "MOVE")] ++
              removalLines s.qresync indices vanished ++ [ok tag "MOVE completed"])

end Selected

/-- Forget a selected mailbox that is gone. -/
def selfHeal (s : Session σ) : Session σ :=
  match s.selected with
  | some name =>
    if (MailStore.mailbox s.store name).isNone then
      { s with selected := none, state := .authenticated }
    else s
  | none => s

/-- The commands open to everyone; the others are left to `f`. -/
def dispatchOpen (s : Session σ) (tag : String) (command : Command)
    (f : Unit → Session σ × List Reply) : Session σ × List Reply :=
  match command with
  | .capability => (s, [untagged (capabilityLine s.tls), ok tag "CAPABILITY completed"])
  | .noop => (s, [ok tag "NOOP completed"])
  | .logout =>
    ({ s with state := .logout }, [untagged "BYE Envoir logging out", ok tag "LOGOUT completed"])
  | .startTls => ({ s with tls := true }, [ok tag "Begin TLS negotiation now"])
  | .id _ =>
    (s, [untagged "ID (\"name\" \"Envoir\" \"version\" \"0.0.1\" \"vendor\" \"DMTAP\")",
      ok tag "ID completed"])
  | .enable caps => s.cmdEnable tag caps
  | .login user pass => s.cmdLogin tag user pass
  | .authenticate mechanism initial => s.cmdAuthenticate tag mechanism initial
  | .namespaces =>
    (s, [untagged "NAMESPACE ((\"\" \"/\")) NIL NIL", ok tag "NAMESPACE completed"])
  | _ => f ()

/-- The commands behind the login. -/
def dispatchAuthenticated (views : Views) (s : Session σ) (tag : String) (command : Command) :
    Session σ × List Reply :=
  match command with
  | .select mailbox qresync condstore => s.cmdSelect tag mailbox false condstore qresync
  | .examine mailbox qresync condstore => s.cmdSelect tag mailbox true condstore qresync
  | .create name useAttr => s.cmdCreate tag name useAttr
  | .delete name => s.cmdDelete tag name
  | .rename source target => s.cmdRename tag source target
  | .subscribe name => s.setSubscribed tag name true
  | .unsubscribe name => s.setSubscribed tag name false
  | .list _ pattern returnOpts selectOpts => s.cmdList tag pattern false returnOpts selectOpts
  | .lsub _ pattern => s.cmdList tag pattern true [] []
  | .status mailbox items => s.cmdStatus tag mailbox items
  | .append mailbox flags date message catenate =>
    s.cmdAppend views tag mailbox flags date message catenate
  | .idle => ({ s with idleTag := some tag }, [.continuation "idling"])
  | .check => s.requireSelected tag "CHECK completed"
  | .close => s.cmdClose tag true
  | .unselect => s.cmdClose tag false
  | .expunge => s.cmdExpunge tag none
  | .uidExpunge set => s.cmdExpunge tag (some set)
  | .search charset key uid ret => s.cmdSearch views tag key uid ret charset
  | .sort criteria charset key uid => s.cmdSort views tag criteria charset key uid
  | .thread algorithm charset key uid => s.cmdThread views tag algorithm charset key uid
  | .fetch set items uid changedsince vanished =>
    s.cmdFetch views tag set items uid changedsince vanished
  | .store sc => s.cmdStore tag sc
  | .copy set mailbox uid => s.cmdCopy tag set mailbox uid
  | .move set mailbox uid => s.cmdMove tag set mailbox uid
  | _ => (s, [])

def dispatch (views : Views) (s : Session σ) (pc : ParsedCommand) : Session σ × List Reply :=
  let s := s.selfHeal
  s.dispatchOpen pc.tag pc.command fun _ =>
    if s.identity.isNone then (s, [no pc.tag "Not authenticated"])
    else s.dispatchAuthenticated views pc.tag pc.command

/-- Process one complete command buffer; no result where the parser faults. -/
def process (views : Views) (s : Session σ) (buf : Bytes) : Option (Session σ × List Reply) :=
  match s.idleTag with
  | some tag =>
    if eqIgnoreAsciiCase (trim (fromUtf8Lossy buf)) "DONE" then
      some ({ s with idleTag := none }, [ok tag "IDLE terminated"])
    else some (s, [])
  | none =>
    match s.pending with
    | some p => some ({ s with pending := none }.continueSasl p buf)
    | none =>
      match parseCommand buf with
      | .ok pc => some (s.dispatch views pc)
      | .error (.error e) => some (s, [bad ((extractTag buf).getD "*") e.message])
      | .error _ => none

/-- What an input can do to a session. -/
theorem process_cases {P : Session σ → Prop} {views : Views} {s s' : Session σ} {buf : Bytes}
    {out : List Reply} (h : s.process views buf = some (s', out)) (hsame : P s)
    (hidle : P { s with idleTag := none })
    (hsasl : ∀ p, s.pending = some p → P ({ s with pending := none }.continueSasl p buf).1)
    (hdispatch : ∀ pc, s.pending = none → P (s.dispatch views pc).1) : P s' := by
  unfold process at h
  split at h
  · split_ifs at h
    · cases h
      exact hidle
    · cases h
      exact hsame
  · split at h
    case h_1 p hpending =>
      have hr := hsasl p hpending
      rw [Option.some.inj h] at hr
      exact hr
    case h_2 hpending =>
      split at h
      case h_1 pc _ =>
        have hr := hdispatch pc hpending
        rw [Option.some.inj h] at hr
        exact hr
      case h_2 =>
        cases h
        exact hsame
      case h_3 => cases h

/-- An answer that touches neither the login nor the store. -/
structure Quiet (s s' : Session σ) : Prop where
  auth : s'.auth = s.auth
  tls : s'.tls = s.tls
  store : s'.store = s.store

section Quiet
variable (views : Views) (s : Session σ) (tag : String)

theorem quiet_selfHeal : s.Quiet s.selfHeal := by
  unfold selfHeal
  cases s.selected with
  | none => exact ⟨rfl, rfl, rfl⟩
  | some name =>
    dsimp only
    split_ifs
    · exact ⟨rfl, rfl, rfl⟩
    · exact ⟨rfl, rfl, rfl⟩

theorem quiet_cmdSelect (name : String) (readOnly condstore : Bool)
    (qresync : Option QResyncParams) :
    s.Quiet (s.cmdSelect tag name readOnly condstore qresync).1 := by
  unfold cmdSelect
  cases MailStore.mailbox s.store name with
  | none => exact ⟨rfl, rfl, rfl⟩
  | some mb =>
    dsimp only
    split_ifs
    all_goals exact ⟨rfl, rfl, rfl⟩

/-- SEARCH changes the saved result, if anything. -/
theorem cmdSearch_saves (key : SearchKey) (uid : Bool) (ret : List String)
    (charset : Option String) :
    ∃ saved, (s.cmdSearch views tag key uid ret charset).1 = { s with savedSearch := saved } := by
  unfold cmdSearch
  by_cases hcharset : badCharset charset = true
  · rw [if_pos hcharset]
    exact ⟨_, rfl⟩
  · rw [if_neg hcharset]
    cases s.selected.bind (MailStore.mailbox s.store) with
    | none => exact ⟨_, rfl⟩
    | some mb =>
      dsimp only
      split_ifs
      all_goals exact ⟨_, rfl⟩

theorem quiet_cmdSearch (key : SearchKey) (uid : Bool) (ret : List String)
    (charset : Option String) : s.Quiet (s.cmdSearch views tag key uid ret charset).1 := by
  obtain ⟨saved, heq⟩ := s.cmdSearch_saves views tag key uid ret charset
  rw [heq]
  exact ⟨rfl, rfl, rfl⟩

end Quiet

/-! Commands that only ask leave the session as it is. -/
section Asks
variable (views : Views) (s : Session σ) (tag : String)

theorem cmdStatus_same (name : String) (items : List String) :
    (s.cmdStatus tag name items).1 = s := by
  unfold cmdStatus
  split_ifs
  · rfl
  · rfl

theorem cmdList_same (pattern : String) (lsub : Bool) (returnOpts selectOpts : List String) :
    (s.cmdList tag pattern lsub returnOpts selectOpts).1 = s := by
  unfold cmdList
  dsimp only
  by_cases hpattern : pattern = ""
  · rw [if_pos hpattern]
  · rw [if_neg hpattern]

omit [MailStore σ] in
theorem requireSelected_same (done : String) : (s.requireSelected tag done).1 = s := by
  unfold requireSelected
  split_ifs
  · rfl
  · rfl

theorem cmdSort_same (criteria : List SortCriterion) (charset : Option String) (key : SearchKey)
    (uid : Bool) : (s.cmdSort views tag criteria charset key uid).1 = s := by
  unfold cmdSort
  split_ifs
  · rfl
  · cases s.selected.bind (MailStore.mailbox s.store) with
    | none => rfl
    | some mb => rfl

theorem cmdThread_same (algorithm : ThreadAlgorithm) (charset : Option String) (key : SearchKey)
    (uid : Bool) : (s.cmdThread views tag algorithm charset key uid).1 = s := by
  unfold cmdThread
  split_ifs
  · rfl
  · cases s.selected.bind (MailStore.mailbox s.store) with
    | none => rfl
    | some mb => rfl

end Asks

end Session
end Dmtap.Mail.Imap
