import Dmtap.Mail.Changes
import Dmtap.Mail.Text

/-! JMAP methods over a store, with the two that change it in full. -/
namespace Dmtap.Mail.Jmap
open Lib

/-- A JSON value. Numbers keep their spelling, objects their members in key order. -/
inductive Json where
  | null
  | bool (b : Bool)
  | num (literal : String)
  | str (s : String)
  | arr (items : List Json)
  | obj (members : List (String × Json))

namespace Json

def asObject : Json → Option (List (String × Json))
  | obj m => some m
  | _ => none

def asArray : Json → Option (List Json)
  | arr l => some l
  | _ => none

def asStr : Json → Option String
  | str s => some s
  | _ => none

def asBool : Json → Option Bool
  | bool b => some b
  | _ => none

def get (key : String) : Json → Option Json
  | obj m => m.lookup key
  | _ => none

/-- `null` or `false`, which clear a keyword. -/
def clears : Json → Bool
  | null => true
  | bool false => true
  | _ => false

end Json

abbrev Members := List (String × Json)

/-- What a method shows of a store without changing it: renderings of messages, and the methods
that keep no state here. -/
structure Views (σ : Type) where
  compose : Json → Bytes
  other : σ → String → String → Json → Option Json

section Keywords

def flagOfKeyword (kw : String) : Flag :=
  match kw.toLower with
  | "$seen" => .seen
  | "$flagged" => .flagged
  | "$answered" => .answered
  | "$draft" => .draft
  | "$deleted" => .deleted
  | other => .keyword other

def parseEmailId (id : String) : Option (String × ℕ) := do
  let (mb, uid) ← rsplitOnce '|' id
  let uid ← parseU32 uid
  some (mb, uid)

/-- One member of a patch. -/
def patchKeyword (m : Message) (member : String × Json) : Message :=
  match stripPrefix "keywords/" member.1 with
  | some kw =>
    let flag := flagOfKeyword kw
    if member.2.clears then m.clearFlag flag else m.setFlag flag
  | none => m

/-- Replace the keywords of a message, then apply the patches to single ones. -/
def patchMessage (obj : Members) (m : Message) : Message :=
  let m :=
    match (obj.lookup "keywords").bind Json.asObject with
    | some kw =>
      let recent := m.hasFlag .recent
      let m := { m with flags := kw.map fun p => flagOfKeyword p.1 }
      if recent then m.setFlag .recent else m
    | none => m
  obj.foldl patchKeyword m

end Keywords

section Store
variable {σ : Type} [MailStore σ] (views : Views σ)

def notFound : Json := .obj [("type", .str "notFound")]

section EmailSet

/-- Where a new email is filed: the first mailbox asked for if it exists, else Drafts, else
INBOX. -/
def destination (store : σ) (obj : Json) : String :=
  let asked := ((obj.get "mailboxIds").bind Json.asObject).bind fun m =>
    (m.find? fun p => p.2.asBool = some true).map Prod.fst
  let asked := asked.filter fun m => (MailStore.mailbox store m).isSome
  let drafts := (MailStore.mailbox store "Drafts").map fun _ => "Drafts"
  (asked.orElse fun _ => drafts).getD "INBOX"

def composeEmail (store : σ) (obj : Json) : σ × Except Json (String × ℕ × ℕ) :=
  let mailbox := destination store obj
  if (MailStore.mailbox store mailbox).isNone then
    (store, .error (.obj [("description", .str "mailboxIds references no such mailbox"),
      ("type", .str "notFound")]))
  else
    let raw := views.compose obj
    let flags := (((obj.get "keywords").bind Json.asObject).getD []).map fun p => flagOfKeyword p.1
    match MailStore.mailboxMut store mailbox with
    | none => (store, .error (.obj [("type", .str "serverFail")]))
    | some (mb, write) =>
      let (uid, mb) := mb.append raw flags 0
      (write mb, .ok (mailbox, uid, raw.length))

def applyEmailUpdate (store : σ) (mailbox : String) (uid : ℕ) (patch : Json) : σ × Bool :=
  match MailStore.mailboxMut store mailbox with
  | none => (store, false)
  | some (mb, write) =>
    match mb.messages.findIdx? fun m => m.uid = uid with
    | none => (store, false)
    | some i =>
      match patch.asObject with
      | none => (store, false)
      | some obj => (write (mb.touch i (patchMessage obj)), true)

def destroyEmail (store : σ) (id : String) : σ × Bool :=
  match parseEmailId id with
  | none => (store, false)
  | some (mailbox, uid) =>
    match MailStore.mailboxMut store mailbox with
    | none => (store, false)
    | some (mb, write) =>
      match mb.indexOfUid uid with
      | none => (store, false)
      | some pos => (write (mb.removeAt pos).2, true)

/-- The store and the answers of a set method as it goes through its arguments. -/
structure SetState (σ : Type) where
  store : σ
  created : Members
  notCreated : Members
  updated : Members
  notUpdated : Members
  destroyed : List Json
  notDestroyed : Members

namespace SetState

def start (store : σ) : SetState σ := ⟨store, [], [], [], [], [], []⟩

/-- The answer of a set method. -/
def response (st : SetState σ) (account : String) : Json :=
  .obj [("accountId", .str account), ("created", .obj st.created), ("destroyed", .arr st.destroyed),
    ("newState", .str (jmapState st.store)), ("notCreated", .obj st.notCreated),
    ("notDestroyed", .obj st.notDestroyed), ("notUpdated", .obj st.notUpdated),
    ("oldState", .str "0"), ("updated", .obj st.updated)]

end SetState

def createEmail (st : SetState σ) (member : String × Json) : SetState σ :=
  match composeEmail views st.store member.2 with
  | (store, .ok (mailbox, uid, size)) =>
    let id := emailId mailbox uid
    { st with
      store := store
      created := insertEntry member.1 (.obj [("blobId", .str id), ("id", .str id),
        ("size", .num (toString size)), ("threadId", .str ("T" ++ toString uid))]) st.created }
  | (store, .error e) =>
    { st with store := store, notCreated := insertEntry member.1 e st.notCreated }

def updateEmail (st : SetState σ) (member : String × Json) : SetState σ :=
  match parseEmailId member.1 with
  | some (mailbox, uid) =>
    match applyEmailUpdate st.store mailbox uid member.2 with
    | (store, true) =>
      { st with store := store, updated := insertEntry member.1 .null st.updated }
    | (store, false) =>
      { st with store := store, notUpdated := insertEntry member.1 notFound st.notUpdated }
  | none => { st with notUpdated := insertEntry member.1 notFound st.notUpdated }

def destroyOneEmail (st : SetState σ) (id : String) : SetState σ :=
  match destroyEmail st.store id with
  | (store, true) => { st with store := store, destroyed := st.destroyed ++ [.str id] }
  | (store, false) =>
    { st with store := store, notDestroyed := insertEntry id notFound st.notDestroyed }

/-- The members of an object argument. -/
def membersOf (args : Json) (key : String) : Members := ((args.get key).bind Json.asObject).getD []

/-- The strings of an array argument. -/
def stringsOf (args : Json) (key : String) : List String :=
  (((args.get key).bind Json.asArray).getD []).filterMap Json.asStr

def emailSet (store : σ) (account : String) (args : Json) : σ × Json :=
  let st := (membersOf args "create").foldl (createEmail views) (SetState.start store)
  let st := (membersOf args "update").foldl updateEmail st
  let st := (stringsOf args "destroy").foldl destroyOneEmail st
  (st.store, st.response account)

end EmailSet

section MailboxSet

def createMailbox (st : SetState σ) (member : String × Json) : SetState σ :=
  let name := ((member.2.get "name").bind Json.asStr).getD ""
  if name = "" then
    { st with notCreated := insertEntry member.1 (.obj [("properties", .arr [.str "name"]),
        ("type", .str "invalidProperties")]) st.notCreated }
  else
    let full :=
      match (member.2.get "parentId").bind Json.asStr with
      | some p => if p ≠ "" then p ++ "/" ++ name else name
      | none => name
    match MailStore.create st.store full with
    | (store, .ok ()) =>
      { st with
        store := store
        created := insertEntry member.1 (.obj [("id", .str full), ("isSubscribed", .bool true),
          ("totalEmails", .num "0"), ("totalThreads", .num "0"), ("unreadEmails", .num "0"),
          ("unreadThreads", .num "0")]) st.created }
    | (store, .error e) =>
      { st with
        store := store
        notCreated := insertEntry member.1 (.obj [("description", .str e.message),
          ("type", .str "invalidArguments")]) st.notCreated }

def renameFor (store : σ) (id : String) (patch : Json) : σ × Bool :=
  match (patch.get "name").bind Json.asStr with
  | some newName =>
    match MailStore.rename store id newName with
    | (store, .ok ()) => (store, true)
    | (store, .error _) => (store, false)
  | none => (store, true)

def subscribeFor (store : σ) (id : String) (patch : Json) : σ :=
  match (patch.get "isSubscribed").bind Json.asBool with
  | some sub =>
    let target := ((patch.get "name").bind Json.asStr).getD id
    match MailStore.mailboxMut store target with
    | some (mb, write) => write { mb with subscribed := sub }
    | none => store
  | none => store

def updateMailbox (st : SetState σ) (member : String × Json) : SetState σ :=
  match renameFor st.store member.1 member.2 with
  | (store, true) =>
    { st with
      store := subscribeFor store member.1 member.2
      updated := insertEntry member.1 .null st.updated }
  | (store, false) =>
    { st with store := store, notUpdated := insertEntry member.1 notFound st.notUpdated }

def destroyMailbox (st : SetState σ) (id : String) : SetState σ :=
  match MailStore.delete st.store id with
  | (store, .ok ()) => { st with store := store, destroyed := st.destroyed ++ [.str id] }
  | (store, .error e) =>
    { st with
      store := store
      notDestroyed := insertEntry id (.obj [("description", .str e.message),
        ("type", .str "notFound")]) st.notDestroyed }

def mailboxSet (store : σ) (account : String) (args : Json) : σ × Json :=
  let st := (membersOf args "create").foldl createMailbox (SetState.start store)
  let st := (membersOf args "update").foldl updateMailbox st
  let st := (stringsOf args "destroy").foldl destroyMailbox st
  (st.store, st.response account)

end MailboxSet

def changes (store : σ) (account : String) (obj : JmapObj) (args : Json) : Json :=
  let since := ((args.get "sinceState").bind Json.asStr).getD "0"
  match jmapChanges store obj since with
  | some c =>
    .obj [("accountId", .str account), ("created", .arr (c.created.map .str)),
      ("destroyed", .arr (c.destroyed.map .str)), ("hasMoreChanges", .bool c.hasMore),
      ("newState", .str c.newState), ("oldState", .str c.oldState),
      ("updated", .arr (c.updated.map .str))]
  | none =>
    .obj [("description", .str "sinceState is not a recognizable state token"),
      ("type", .str "cannotCalculateChanges")]

section Requests

def dispatch (store : σ) (account name : String) (args : Json) :
    σ × Except Json (String × Json) :=
  match name with
  | "Core/echo" => (store, .ok (name, args))
  | "Mailbox/set" =>
    let (store, r) := mailboxSet store account args
    (store, .ok (name, r))
  | "Email/set" =>
    let (store, r) := emailSet views store account args
    (store, .ok (name, r))
  | "Mailbox/changes" => (store, .ok (name, changes store account .mailbox args))
  | "Email/changes" => (store, .ok (name, changes store account .email args))
  | "Thread/changes" => (store, .ok (name, changes store account .thread args))
  | _ =>
    match views.other store account name args with
    | some r => (store, .ok (name, r))
    | none => (store, .error (.obj [("description", .str name), ("type", .str "unknownMethod")]))

/-- A JSON pointer with the `*` extension; every token takes fuel. -/
def evalPointer : ℕ → Json → String → Option Json
  | 0, _, _ => none
  | fuel + 1, value, path =>
    let path := (stripPrefix "/" path).getD path
    if path = "" then some value
    else
      let (token, rest) := (splitOnce '/' path).getD (path, "")
      if token = "*" then
        value.asArray.map fun items =>
          .arr (items.flatMap fun item =>
            match evalPointer fuel item rest with
            | some (.arr inner) => inner
            | some v => [v]
            | none => [])
      else
        let next :=
          match value with
          | .obj m => m.lookup token
          | .arr a => (parseU64 token).bind fun i => a[i]?
          | _ => none
        next.bind fun next => if rest = "" then some next else evalPointer fuel next rest

structure Invocation where
  name : String
  args : Json
  callId : String

def refError (desc : String) : Json :=
  .obj [("description", .str desc), ("type", .str "invalidResultReference")]

/-- The value of a back-reference. -/
def resolveReference (prior : List Invocation) (v : Json) : Except Json Json :=
  match v.asObject with
  | none => .error (refError "ResultReference not an object")
  | some _ =>
    match (v.get "resultOf").bind Json.asStr, (v.get "name").bind Json.asStr,
      (v.get "path").bind Json.asStr with
    | some resultOf, some name, some path =>
      match prior.find? fun inv => inv.name = name && inv.callId = resultOf with
      | none => .error (refError "ResultReference target not found")
      | some source =>
        match evalPointer (path.length + 1) source.args path with
        | none => .error (refError "bad ResultReference path")
        | some resolved => .ok resolved
    | _, _, _ => .error (refError "ResultReference missing resultOf/name/path")

def resolveMembers (prior : List Invocation) : Members → Members → Except Json Members
  | out, [] => .ok out
  | out, (k, v) :: members =>
    match stripPrefix "#" k with
    | some real => do
      let resolved ← resolveReference prior v
      resolveMembers prior (insertEntry real resolved out) members
    | none => resolveMembers prior (insertEntry k v out) members

def resolveReferences (args : Json) (prior : List Invocation) : Except Json Json :=
  match args with
  | .obj members => do
    let out ← resolveMembers prior [] members
    .ok (.obj out)
  | _ => .ok args

/-- One method call of a request, with the responses so far. -/
def call (account : String) (acc : σ × List Invocation) (inv : Invocation) :
    σ × List Invocation :=
  match resolveReferences inv.args acc.2 with
  | .error e => (acc.1, acc.2 ++ [⟨"error", e, inv.callId⟩])
  | .ok args =>
    match dispatch views acc.1 account inv.name args with
    | (store, .ok (name, r)) => (store, acc.2 ++ [⟨name, r, inv.callId⟩])
    | (store, .error e) => (store, acc.2 ++ [⟨"error", e, inv.callId⟩])

structure Response where
  methodResponses : List Invocation
  sessionState : String

def process (store : σ) (account : String) (methodCalls : List Invocation) : σ × Response :=
  let (store, responses) := methodCalls.foldl (call views account) (store, [])
  (store, ⟨responses, jmapState store⟩)

end Requests
end Store
end Dmtap.Mail.Jmap
