import Dmtap.Mail.BodyStructure
import Dmtap.Mail.JsonPointer
import Dmtap.Mail.Keywords
import Dmtap.Mail.Refresh
import Dmtap.Mail.Snippets

/-! The JMAP methods that only read, and a client that chains them: what a query lists is what the
methods after it find. -/
namespace Dmtap.Mail.Jmap
open Lib

/-- An array of strings. -/
def strs (l : List String) : Json := .arr (l.map .str)

section Methods
variable {σ : Type} [MailStore σ] (store : σ) (account : String) (args : Json)

def myRights : Json :=
  .obj [("mayAddItems", .bool true), ("mayCreateChild", .bool true), ("mayDelete", .bool true),
    ("mayReadItems", .bool true), ("mayRemoveItems", .bool true), ("mayRename", .bool true),
    ("maySetKeywords", .bool true), ("maySetSeen", .bool true), ("maySubmit", .bool true)]

/-- One mailbox as Mailbox/get shows it. Every message is a thread of its own there. -/
def mailboxObject (name : String) (mb : Mailbox) : Json :=
  .obj [("id", .str name), ("isSubscribed", .bool mb.subscribed), ("myRights", myRights),
    ("name", .str name), ("parentId", .null),
    ("role", (mb.specialUse.map fun role => .str role.jmapRole).getD .null),
    ("sortOrder", .num "0"), ("totalEmails", .num (toString mb.exists')),
    ("totalThreads", .num (toString mb.exists')), ("unreadEmails", .num (toString mb.unseen)),
    ("unreadThreads", .num (toString mb.unseen))]

/-- The mailboxes asked for, in the order of the store. A name that there is none of is passed over. -/
def mailboxGet : Json :=
  let filter := (args.get "ids").bind Json.asArray
  let wanted (name : String) : Bool :=
    (filter.map fun ids => ids.any fun v => v.asStr = some name).getD true
  .obj [("accountId", .str account),
    ("list", .arr (((namedMailboxes store).filter fun p => wanted p.1).map fun p =>
      mailboxObject p.1 p.2)),
    ("notFound", .arr []), ("state", .str (jmapState store))]

def queryAnswer (ids : List String) : Json :=
  .obj [("accountId", .str account), ("canCalculateChanges", .bool true), ("ids", strs ids),
    ("position", .num "0"), ("queryState", .str (jmapState store)),
    ("total", .num (toString ids.length))]

def mailboxQuery : Json := queryAnswer store account (MailStore.mailboxNames store)

/-- The messages of the mailbox that is asked for, or of all, each with the name of its mailbox. -/
def queried : List (String × Message) :=
  let inMailbox := ((args.get "filter").bind (Json.get "inMailbox")).bind Json.asStr
  ((namedMailboxes store).filter fun p => (inMailbox.map fun target => decide (target = p.1)).getD
    true).flatMap fun p => p.2.messages.map fun m => (p.1, m)

def emailQuery : Json :=
  queryAnswer store account ((queried store args).map fun p => emailId p.1 p.2.uid)

/-- The emails that show a thread id, of all mailboxes. -/
def threadEmails (tid : String) : List String :=
  (namedMailboxes store).flatMap fun p =>
    (p.2.messages.filter fun m => threadId (ParsedMessage.parse m.raw) m.uid = tid).map fun m =>
      emailId p.1 m.uid

def threadObject (tid : String) : Json :=
  .obj [("emailIds", strs (threadEmails store tid)), ("id", .str tid)]

def threadGet : Json :=
  .obj [("accountId", .str account), ("list", .arr ((stringsOf args "ids").map (threadObject store))),
    ("notFound", .arr []), ("state", .str (jmapState store))]

def submissionSet : Json :=
  let created (member : String × Json) : Json :=
    .obj [("emailId", (member.2.get "emailId").getD .null), ("id", .str ("sub-" ++ member.1)),
      ("sendAt", .str (formatRfc5322Date 0)), ("undoStatus", .str "final")]
  .obj [("accountId", .str account),
    ("created", .obj ((membersOf args "create").foldl (fun out member =>
      insertEntry member.1 (created member) out) [])),
    ("destroyed", .arr []), ("newState", .str "0"), ("notCreated", .obj []), ("oldState", .str "0"),
    ("updated", .obj [])]

def submissionGet : Json :=
  .obj [("accountId", .str account), ("list", .arr []), ("notFound", strs (stringsOf args "ids")),
    ("state", .str "0")]

def emailQueryChanges : Json :=
  let since := ((args.get "sinceQueryState").bind Json.asStr).getD "0"
  match jmapChanges store .email since with
  | some c =>
    .obj [("accountId", .str account),
      ("added", .arr ((c.created ++ c.updated).zipIdx.map fun p =>
        .obj [("id", .str p.1), ("index", .num (toString p.2))])),
      ("newQueryState", .str c.newState), ("oldQueryState", .str c.oldState),
      ("removed", strs c.destroyed)]
  | none => .obj [("type", .str "cannotCalculateChanges")]

section Filters

mutual

/-- The words of a filter, those of its conditions behind its own. -/
def collectFilterTerms : Json → List String
  | .obj members =>
    (["text", "subject", "body", "from", "to"].filterMap fun key =>
      (members.lookup key).bind Json.asStr) ++ conditionTerms members
  | _ => []

/-- The words of the conditions among the members of a filter. -/
def conditionTerms : Members → List String
  | [] => []
  | (key, .arr conditions) :: members =>
    if key = "conditions" then allTerms conditions else conditionTerms members
  | (key, _) :: members => if key = "conditions" then [] else conditionTerms members

def allTerms : List Json → List String
  | [] => []
  | condition :: conditions => collectFilterTerms condition ++ allTerms conditions

end

example : collectFilterTerms (.obj [("conditions", .arr [.obj [("body", .str "b")]]),
    ("text", .str "a")]) = ["a", "b"] := by decide

end Filters

def isMultipart (p : ParsedMessage) : Bool :=
  match p.structure with
  | .multipart .. => true
  | .single .. => false

/-- Bodies as they are read from the message. -/
def bodyViews : BodyViews := ⟨ParsedMessage.decodedBodyText, isMultipart⟩

section Snippets
variable (lowerChar : Char → List Char) (lowerStr : String → String)

def searchSnippetGet : Json :=
  let terms := ((args.get "filter").map collectFilterTerms).getD []
  let snippet (id : String) : Json :=
    let (subject, shown) :=
      match findEmail store id with
      | some (_, m) =>
        let p := ParsedMessage.parse m.raw
        (highlight lowerChar lowerStr (decodeEncodedWords ((p.header "Subject").getD "")) terms,
          highlight lowerChar lowerStr (preview bodyViews p) terms)
      | none => (.null, .null)
    .obj [("emailId", .str id), ("preview", shown), ("subject", subject)]
  .obj [("accountId", .str account), ("list", .arr ((stringsOf args "emailIds").map snippet)),
    ("notFound", .arr [])]

end Snippets

section Identities

def defaultIdentity : Json :=
  .obj [("bcc", .null), ("email", .str account), ("htmlSignature", .str ""), ("id", .str "I0"),
    ("mayDelete", .bool false), ("name", .str account), ("replyTo", .null), ("textSignature", .str "")]

def identityGet : Json :=
  let list :=
    match (args.get "ids").bind Json.asArray with
    | some ids => if ids.any fun v => v.asStr = some "I0" then [defaultIdentity account] else []
    | none => [defaultIdentity account]
  .obj [("accountId", .str account), ("list", .arr list), ("notFound", .arr []), ("state", .str "0")]

def identityChanges : Json :=
  .obj [("accountId", .str account), ("created", .arr []), ("destroyed", .arr []),
    ("hasMoreChanges", .bool false), ("newState", .str "0"),
    ("oldState", .str (((args.get "sinceState").bind Json.asStr).getD "0")), ("updated", .arr [])]

def identitySet : Json :=
  let created (member : String × Json) : Json :=
    .obj [("email", .str (((member.2.get "email").bind Json.asStr).getD account)),
      ("id", .str ("I-" ++ member.1)), ("mayDelete", .bool true)]
  let kept := (stringsOf args "destroy").filter fun id => id = "I0"
  .obj [("accountId", .str account),
    ("created", .obj ((membersOf args "create").foldl (fun out member =>
      insertEntry member.1 (created member) out) [])),
    ("destroyed", .arr []), ("newState", .str "0"), ("notCreated", .obj []),
    ("notDestroyed", .obj (kept.foldl (fun out id => insertEntry id
      (.obj [("description", .str "default identity"), ("type", .str "forbidden")]) out) [])),
    ("notUpdated", .obj []), ("oldState", .str "0"), ("updated", .obj [])]

end Identities

section Pushes
variable (blake3 : Bytes → Digest)

def pushSubscriptionGet : Json :=
  .obj [("list", .arr []), ("notFound", .arr []), ("state", .str "0")]

def pushSubscriptionSet : Json :=
  let created (member : String × Json) : Json :=
    let url := ((member.2.get "url").bind Json.asStr).getD ""
    let code := hex (ContentId.of blake3 (utf8 url)).digest
    .obj [("id", .str ("P-" ++ member.1)), ("keys", .null),
      ("verificationCode", .str (String.ofList (code.toList.take 16)))]
  .obj [("created", .obj ((membersOf args "create").foldl (fun out member =>
      insertEntry member.1 (created member) out) [])),
    ("destroyed", .arr []), ("newState", .str "0"), ("notCreated", .obj []),
    ("notDestroyed", .obj []), ("notUpdated", .obj []), ("oldState", .str "0"), ("updated", .obj [])]

end Pushes

def blobUpload (blake3 : Bytes → Digest) (bytes : Bytes) (contentType : String) : Json :=
  .obj [("accountId", .str account),
    ("blobId", .str (hex (ContentId.of blake3 bytes).digest)), ("size", .num (toString bytes.length)),
    ("type", .str contentType)]

/-- A download by the id of an email gives its bytes. -/
def blobDownload (blobId : String) : Option Bytes := (findEmail store blobId).map fun p => p.2.raw

section Dispatch
variable (lowerChar : Char → List Char) (lowerStr : String → String) (blake3 : Bytes → Digest)

/-- What a reading method answers. An Email/get that does not return has no answer. -/
def readMethod (name : String) : Option Json :=
  match name with
  | "Mailbox/get" => some (mailboxGet store account args)
  | "Mailbox/query" => some (mailboxQuery store account)
  | "Email/get" => emailGet bodyViews store account args
  | "Email/query" => some (emailQuery store account args)
  | "Email/queryChanges" => some (emailQueryChanges store account args)
  | "Thread/get" => some (threadGet store account args)
  | "SearchSnippet/get" => some (searchSnippetGet store account args lowerChar lowerStr)
  | "Identity/get" => some (identityGet account args)
  | "Identity/changes" => some (identityChanges account args)
  | "Identity/set" => some (identitySet account args)
  | "EmailSubmission/set" => some (submissionSet account args)
  | "EmailSubmission/get" => some (submissionGet account args)
  | "PushSubscription/get" => some pushSubscriptionGet
  | "PushSubscription/set" => some (pushSubscriptionSet args blake3)
  | _ => none

/-- The methods that a request is answered with are those above. -/
def Views.Answers (views : Views σ) : Prop :=
  ∀ store account args name r,
    readMethod store account args lowerChar lowerStr blake3 name = some r →
      views.other store account name args = some r

variable {lowerChar lowerStr blake3} {store account args}

theorem dispatch_read {views : Views σ} (hviews : views.Answers lowerChar lowerStr blake3)
    {name : String} {r : Json}
    (h : readMethod store account args lowerChar lowerStr blake3 name = some r) :
    dispatch views store account name args = (store, .ok (name, r)) := by
  have hother := hviews store account args name r h
  unfold readMethod at h
  split at h
  case h_15 => cases h
  all_goals
    unfold dispatch
    rw [hother]
    rfl

end Dispatch

end Methods
section References

/-- A reference to what an earlier call answered. -/
def reference (resultOf name path : String) : Json :=
  .obj [("name", .str name), ("path", .str path), ("resultOf", .str resultOf)]

/-- A request with a reference for its ids. -/
def byReference (name callId resultOf source path : String) : Invocation :=
  ⟨name, .obj [("#ids", reference resultOf source path)], callId⟩

theorem resolveReferences_ids {prior : List Invocation} {resultOf source path : String}
    {inv : Invocation} {v : Json}
    (hfind : prior.find? (fun inv => inv.name = source && inv.callId = resultOf) = some inv)
    (heval : evalPointer (path.length + 1) inv.args path = some v) :
    resolveReferences (.obj [("#ids", reference resultOf source path)]) prior =
      .ok (.obj [("ids", v)]) := by
  have hkey : stripPrefix "#" "#ids" = some "ids" := by decide
  have hresolved : resolveReference prior (reference resultOf source path) = .ok v := by
    unfold resolveReference
    have hname : (reference resultOf source path).get "name" = some (.str source) := rfl
    have hpath : (reference resultOf source path).get "path" = some (.str path) := rfl
    have hresult : (reference resultOf source path).get "resultOf" = some (.str resultOf) := rfl
    have hobject : (reference resultOf source path).asObject ≠ none := fun h => nomatch h
    split
    · exact absurd ‹_› hobject
    · rw [hname, hpath, hresult]
      simp only [Option.bind_some, Json.asStr, hfind, heval]
  unfold resolveReferences
  dsimp only
  unfold resolveMembers
  rw [hkey]
  dsimp only
  rw [hresolved]
  rfl

theorem evalPointer_ids {members : Members} {v : Json} (h : members.lookup "ids" = some v) :
    evalPointer ("/ids".length + 1) (.obj members) "/ids" = some v := by
  have htokens : trodden false (pointerTokens "/ids") = ["ids"] := by decide
  rw [evalPointer_eq_walk (by decide), htokens, walk, codeStep_obj (by decide), h]
  rfl

/-- A `*` in front of a member's name collects that member of every item. -/
theorem evalPointer_threadIds {members : Members} {items : List Json} {tids : List String}
    (h : members.lookup "list" = some (.arr items))
    (hitems : List.Forall₂ (fun item tid => item.get "threadId" = some (.str tid)) items tids) :
    evalPointer ("/list/*/threadId".length + 1) (.obj members) "/list/*/threadId" =
      some (strs tids) := by
  have htokens : trodden false (pointerTokens "/list/*/threadId") = ["list", "*", "threadId"] := by
    decide
  have hspread : items.flatMap (fun item => spread (walk codeStep ["threadId"] item)) =
      tids.map Json.str := by
    clear h
    induction hitems with
    | nil => rfl
    | @cons item tid items tids hitem _ ih =>
      have hone : walk codeStep ["threadId"] item = some (.str tid) := by
        cases item with
        | obj members =>
          rw [walk, codeStep_obj (by decide), show members.lookup "threadId" = some (.str tid) from hitem]
          rfl
        | null | bool | num | str | arr => cases hitem
      rw [List.flatMap_cons, hone, ih]
      rfl
  have heach : codeStep "*" (.arr items) = some (.each items) := rfl
  rw [evalPointer_eq_walk (by decide), htokens, walk, codeStep_obj (by decide), h, Option.map_some,
    follow, walk, heach, follow, hspread]
  rfl

end References

section Found
variable {s : MemoryStore}

theorem pairwise_namedMailboxes (hs : s.WellFormed) :
    (namedMailboxes s).Pairwise fun p q => p.1 ≠ q.1 := by
  unfold namedMailboxes
  have horder : (MailStore.mailboxNames s).Pairwise (· ≠ ·) := hs.distinct
  rw [List.pairwise_filterMap]
  refine horder.imp fun hne p hp q hq => ?_
  obtain ⟨-, -, rfl⟩ := Option.map_eq_some_iff.mp hp
  obtain ⟨-, -, rfl⟩ := Option.map_eq_some_iff.mp hq
  exact hne

theorem mem_queried {args : Json} {p : String × Message} (h : p ∈ queried s args) :
    ∃ mb, (p.1, mb) ∈ namedMailboxes s ∧ p.2 ∈ mb.messages := by
  obtain ⟨q, hq, hp⟩ := List.mem_flatMap.mp h
  obtain ⟨m, hm, rfl⟩ := List.mem_map.mp hp
  exact ⟨q.2, (List.mem_filter.mp hq).1, hm⟩

/-- No email is listed twice. -/
theorem nodup_queried (hs : s.WellFormed) (args : Json) :
    ((queried s args).map fun p => emailId p.1 p.2.uid).Nodup := by
  unfold queried
  dsimp only
  rw [List.map_flatMap, List.nodup_flatMap]
  refine ⟨fun q hq => ?_, ?_⟩
  · have hmb := (mem_namedMailboxes hs).mp (List.mem_filter.mp hq).1
    have hascending := (Mailbox.invariant_of_ledger (hs.ledgers _ _ hmb)).ascending
    rw [List.map_map, List.nodup_iff_pairwise_ne, List.pairwise_map]
    exact hascending.imp fun hlt heq => hlt.ne (emailId_inj heq).2
  · refine ((pairwise_namedMailboxes hs).filter _).imp fun hne => ?_
    refine List.disjoint_left.mpr fun id hid hid' => ?_
    dsimp only at hid hid'
    rw [List.map_map, List.mem_map] at hid hid'
    obtain ⟨m, -, rfl⟩ := hid
    obtain ⟨m', -, heq⟩ := hid'
    exact hne (emailId_inj heq).1.symm

/-- The UIDs fit their type. -/
def FitsUid (s : MemoryStore) : Prop :=
  ∀ name mb, s.mailbox name = some mb → ∀ m ∈ mb.messages, m.uid < 2 ^ 32

theorem findEmail_emailId (hs : s.WellFormed) (hfits : FitsUid s) {name : String} {mb : Mailbox}
    (hmb : s.mailbox name = some mb) {m : Message} (hm : m ∈ mb.messages) :
    findEmail s (emailId name m.uid) = some (name, m) := by
  obtain ⟨i, hi⟩ := List.getElem?_of_mem hm
  exact (findEmail_eq_some_iff hs).mpr ⟨mb, i, parseEmailId_emailId (hfits _ _ hmb _ hm), hmb, hi⟩

theorem mem_threadEmails {tid id : String} : id ∈ threadEmails s tid ↔
    ∃ name mb m, (name, mb) ∈ namedMailboxes s ∧ m ∈ mb.messages ∧ id = emailId name m.uid ∧
      threadId (ParsedMessage.parse m.raw) m.uid = tid := by
  unfold threadEmails
  simp only [List.mem_flatMap, List.mem_map, List.mem_filter, decide_eq_true_eq, Prod.exists]
  constructor
  · rintro ⟨name, mb, hmb, m, ⟨hm, htid⟩, rfl⟩
    exact ⟨name, mb, m, hmb, hm, rfl, htid⟩
  · rintro ⟨name, mb, m, hmb, hm, rfl, htid⟩
    exact ⟨name, mb, hmb, m, ⟨hm, htid⟩, rfl⟩

end Found

section Chains
variable {s : MemoryStore}

theorem stringsOf_ids (ids : List String) : stringsOf (.obj [("ids", strs ids)]) "ids" = ids := by
  have hget : (Json.obj [("ids", strs ids)]).get "ids" = some (strs ids) := rfl
  have hstr : (Json.asStr ∘ Json.str) = some := rfl
  unfold stringsOf
  rw [hget, Option.bind_some, strs, Json.asArray, Option.getD_some, List.filterMap_map, hstr,
    List.filterMap_some]

/-- Email/get on emails that are there, with headers that can be read. -/
theorem emailGet_found (account : String) {l : List (String × Message)}
    (hfind : ∀ p ∈ l, findEmail s (emailId p.1 p.2.uid) = some p)
    (hread : ∀ p ∈ l, ∀ name ∈ emailHeaders, HeaderReadable p.2.raw name) :
    ∃ emails, List.Forall₂ (fun p email => findEmail s (emailId p.1 p.2.uid) = some p ∧
        emailObject bodyViews (emailId p.1 p.2.uid) p.1 p.2 = some email) l emails ∧
      emailGet bodyViews s account (.obj [("ids", strs (l.map fun p => emailId p.1 p.2.uid))]) =
        some (.obj [("accountId", .str account), ("list", .arr emails), ("notFound", .arr []),
          ("state", .str (jmapState s))]) := by
  have hids : wantIds s (.obj [("ids", strs (l.map fun p => emailId p.1 p.2.uid))]) =
      l.map fun p => emailId p.1 p.2.uid := by
    exact stringsOf_ids _
  have hlist : (l.map fun p => emailId p.1 p.2.uid).filterMap (fun id =>
      (findEmail s id).map fun p => (id, p)) = l.map fun p => (emailId p.1 p.2.uid, p) := by
    rw [List.filterMap_map, ← List.filterMap_eq_map]
    refine List.filterMap_congr fun p hp => ?_
    rw [Function.comp_apply, hfind p hp]
    rfl
  have hmissing : (l.map fun p => emailId p.1 p.2.uid).filter (fun id => (findEmail s id).isNone) =
      [] := by
    refine List.filter_eq_nil_iff.mpr fun id hid => ?_
    obtain ⟨p, hp, rfl⟩ := List.mem_map.mp hid
    rw [hfind p hp]
    exact Bool.false_ne_true
  have hobjects : ∃ emails, List.Forall₂ (fun p email => findEmail s (emailId p.1 p.2.uid) = some p ∧
        emailObject bodyViews (emailId p.1 p.2.uid) p.1 p.2 = some email) l emails ∧
      (l.map fun p => (emailId p.1 p.2.uid, p)).mapM (fun p =>
        emailObject bodyViews p.1 p.2.1 p.2.2) = some emails := by
    clear hids hlist hmissing
    induction l with
    | nil => exact ⟨[], .nil, rfl⟩
    | cons p l ih =>
      obtain ⟨hp, hl⟩ := List.forall_mem_cons.mp hread
      obtain ⟨hfound, hrest⟩ := List.forall_mem_cons.mp hfind
      obtain ⟨emails, hemails, hmap⟩ := ih hrest hl
      have hsome := (emailObject_isSome_iff bodyViews (emailId p.1 p.2.uid) p.1 p.2).mpr fun name hname =>
        ((ParsedMessage.parse p.2.raw).addresses_isSome_iff name).mpr (hp name hname)
      obtain ⟨email, hemail⟩ := Option.isSome_iff_exists.mp hsome
      refine ⟨email :: emails, .cons ⟨hfound, hemail⟩ hemails, ?_⟩
      rw [List.map_cons, List.mapM_cons, hemail, hmap]
      rfl
  obtain ⟨emails, hemails, hmap⟩ := hobjects
  refine ⟨emails, hemails, ?_⟩
  unfold emailGet
  dsimp only
  rw [hids, hlist, hmissing, hmap]
  rfl

theorem get_threadId_emailObject {views : BodyViews} {id mailbox : String} {m : Message}
    {email : Json} (h : emailObject views id mailbox m = some email) :
    email.get "threadId" = some (.str (threadId (ParsedMessage.parse m.raw) m.uid)) := by
  unfold emailObject at h
  simp only [Option.bind_eq_bind, Option.bind_eq_some_iff, Option.some.injEq] at h
  obtain ⟨-, -, -, -, -, -, rfl⟩ := h
  rfl

/-- A request that queries the emails, gets those it lists, and gets the threads of these. -/
def chain (filter : Json) (a b c : String) : List Invocation :=
  [⟨"Email/query", .obj [("filter", filter)], a⟩,
    byReference "Email/get" b a "Email/query" "/ids",
    byReference "Thread/get" c b "Email/get" "/list/*/threadId"]

variable {lowerChar : Char → List Char} {lowerStr : String → String} {blake3 : Bytes → Digest}
  {views : Views MemoryStore}

theorem call_read (hviews : views.Answers lowerChar lowerStr blake3) {account : String}
    {acc : MemoryStore × List Invocation} {inv : Invocation} {args r : Json}
    (hargs : resolveReferences inv.args acc.2 = .ok args)
    (hr : readMethod acc.1 account args lowerChar lowerStr blake3 inv.name = some r) :
    call views account acc inv = (acc.1, acc.2 ++ [⟨inv.name, r, inv.callId⟩]) := by
  unfold call
  rw [hargs]
  dsimp only
  rw [dispatch_read hviews hr]

/-- The three calls of one request fit together, whatever the filter. No email is listed twice; every
email listed is got, in the order of the list, and none is missing; each email is in the thread that it
names, and a thread holds exactly the emails that name it. -/
theorem chained_reads {r : Renderers} (hs : Reachable r s) (hfits : FitsUid s)
    (hviews : views.Answers lowerChar lowerStr blake3) (account : String) (filter : Json)
    (a b c : String)
    (hread : ∀ p ∈ queried s (.obj [("filter", filter)]), ∀ name ∈ emailHeaders,
      HeaderReadable p.2.raw name) :
    ∃ emails tids, process views s account (chain filter a b c) = (s, ⟨[
        ⟨"Email/query", queryAnswer s account ((queried s (.obj [("filter", filter)])).map fun p =>
          emailId p.1 p.2.uid), a⟩,
        ⟨"Email/get", .obj [("accountId", .str account), ("list", .arr emails), ("notFound", .arr []),
          ("state", .str (jmapState s))], b⟩,
        ⟨"Thread/get", .obj [("accountId", .str account),
          ("list", .arr (tids.map (threadObject s))), ("notFound", .arr []),
          ("state", .str (jmapState s))], c⟩], jmapState s⟩) ∧
      ((queried s (.obj [("filter", filter)])).map fun p => emailId p.1 p.2.uid).Nodup ∧
      List.Forall₂ (fun p email => findEmail s (emailId p.1 p.2.uid) = some p ∧
        emailObject bodyViews (emailId p.1 p.2.uid) p.1 p.2 = some email)
          (queried s (.obj [("filter", filter)])) emails ∧
      List.Forall₂ (fun p tid => tid = threadId (ParsedMessage.parse p.2.raw) p.2.uid ∧
        emailId p.1 p.2.uid ∈ threadEmails s tid) (queried s (.obj [("filter", filter)])) tids ∧
      ∀ tid id, id ∈ threadEmails s tid ↔ ∃ name m, id = emailId name m.uid ∧
        findEmail s id = some (name, m) ∧ threadId (ParsedMessage.parse m.raw) m.uid = tid := by
  have hfind : ∀ p ∈ queried s (.obj [("filter", filter)]),
      findEmail s (emailId p.1 p.2.uid) = some p := by
    intro p hp
    obtain ⟨mb, hmb, hm⟩ := mem_queried hp
    exact findEmail_emailId hs.wellFormed hfits ((mem_namedMailboxes hs.wellFormed).mp hmb) hm
  obtain ⟨emails, hemails, hget⟩ := emailGet_found account hfind hread
  refine ⟨emails, (queried s (.obj [("filter", filter)])).map fun p =>
    threadId (ParsedMessage.parse p.2.raw) p.2.uid, ?_, nodup_queried hs.wellFormed _, ?_, ?_, ?_⟩
  · have hquery : resolveReferences (.obj [("filter", filter)]) [] =
        .ok (.obj [("filter", filter)]) := by
      have hkey : stripPrefix "#" "filter" = none := by decide
      unfold resolveReferences
      dsimp only
      unfold resolveMembers
      rw [hkey]
      rfl
    have hids := @resolveReferences_ids
      [⟨"Email/query", emailQuery s account (.obj [("filter", filter)]), a⟩] a "Email/query" "/ids" _ _
      (List.find?_cons_of_pos (by simp)) (evalPointer_ids rfl)
    have htids : List.Forall₂ (fun (email : Json) tid => email.get "threadId" = some (.str tid)) emails
        ((queried s (.obj [("filter", filter)])).map fun p =>
          threadId (ParsedMessage.parse p.2.raw) p.2.uid) := by
      rw [List.forall₂_map_right_iff]
      exact hemails.flip.imp fun email p hemail => get_threadId_emailObject hemail.2
    have hthreads := @resolveReferences_ids
      [⟨"Email/query", emailQuery s account (.obj [("filter", filter)]), a⟩,
        ⟨"Email/get", .obj [("accountId", .str account), ("list", .arr emails), ("notFound", .arr []),
          ("state", .str (jmapState s))], b⟩] b "Email/get" "/list/*/threadId" _ _
      ((List.find?_cons_of_neg (by simp)).trans (List.find?_cons_of_pos (by simp)))
      (evalPointer_threadIds rfl htids)
    have hfirst : call views account (s, []) ⟨"Email/query", .obj [("filter", filter)], a⟩ =
        (s, [⟨"Email/query", emailQuery s account (.obj [("filter", filter)]), a⟩]) :=
      call_read hviews hquery rfl
    have hsecond := @call_read _ _ _ views hviews account (s,
      [⟨"Email/query", emailQuery s account (.obj [("filter", filter)]), a⟩])
      (byReference "Email/get" b a "Email/query" "/ids") _ _ hids hget
    have hthird := @call_read _ _ _ views hviews account (s,
      [⟨"Email/query", emailQuery s account (.obj [("filter", filter)]), a⟩,
        ⟨"Email/get", .obj [("accountId", .str account), ("list", .arr emails), ("notFound", .arr []),
          ("state", .str (jmapState s))], b⟩])
      (byReference "Thread/get" c b "Email/get" "/list/*/threadId") _ _ hthreads rfl
    have hlist : stringsOf (.obj [("ids", strs ((queried s (.obj [("filter", filter)])).map fun p =>
          threadId (ParsedMessage.parse p.2.raw) p.2.uid))]) "ids" =
        (queried s (.obj [("filter", filter)])).map fun p =>
          threadId (ParsedMessage.parse p.2.raw) p.2.uid := stringsOf_ids _
    unfold threadGet at hthird
    rw [hlist] at hthird
    unfold process chain
    rw [List.foldl_cons, hfirst, List.foldl_cons, hsecond, List.foldl_cons, List.foldl_nil]
    exact congrArg (fun acc : MemoryStore × List Invocation =>
      (acc.1, (⟨acc.2, jmapState acc.1⟩ : Response))) hthird
  · exact hemails
  · rw [List.forall₂_map_right_iff, List.forall₂_same]
    intro p hp
    obtain ⟨mb, hmb, hm⟩ := mem_queried hp
    exact ⟨rfl, mem_threadEmails.mpr ⟨p.1, mb, p.2, hmb, hm, rfl, rfl⟩⟩
  · intro tid id
    rw [mem_threadEmails]
    constructor
    · rintro ⟨name, mb, m, hmb, hm, rfl, htid⟩
      have hmb := (mem_namedMailboxes hs.wellFormed).mp hmb
      exact ⟨name, m, rfl, findEmail_emailId hs.wellFormed hfits hmb hm, htid⟩
    · rintro ⟨name, m, rfl, hfound, htid⟩
      obtain ⟨mb, i, -, hmb, hi⟩ := (findEmail_eq_some_iff hs.wellFormed).mp hfound
      exact ⟨name, mb, m, (mem_namedMailboxes hs.wellFormed).mpr hmb, List.mem_of_getElem? hi, rfl, htid⟩

/-- Views that answer like this. -/
def reading : Views MemoryStore where
  compose _ := []
  other store account name args :=
    readMethod store account args (fun c => [c]) id (fun _ => ⟨List.replicate 32 0, rfl⟩) name

/-- A message with no field but its id. -/
def twinRaw : Bytes := utf8 "Message-ID: <1@x>\n\nhi"

/-- The message in INBOX, delivered twice. -/
def twins : MemoryStore :=
  ((MemoryStore.new.deliverRaw "INBOX" twinRaw [.recent] 0).1.deliverRaw "INBOX" twinRaw [.seen] 0).1

theorem reachable_twins : Reachable .blank twins :=
  ((reachable_new _).op (.deliverRaw "INBOX" twinRaw [.recent] 0) rfl).op
    (.deliverRaw "INBOX" twinRaw [.seen] 0) rfl

theorem mailbox_twins {name : String} {mb : Mailbox} (h : twins.mailbox name = some mb) :
    ∀ m ∈ mb.messages, m.raw = twinRaw ∧ m.uid < 2 ^ 32 := by
  have hentry := SortedMap.get?_eq_some_iff.mp h
  have hall : ∀ p ∈ twins.mailboxes.entries, ∀ m ∈ p.2.messages,
      m.raw = twinRaw ∧ m.uid < 2 ^ 32 := by decide
  exact hall (name, mb) hentry

/-- Both copies are listed, got, and in the thread of either. -/
theorem chained_reads_twins : ∃ emails,
    process reading twins "me" (chain (.obj [("inMailbox", .str "INBOX")]) "a" "b" "c") =
      (twins, ⟨[
        ⟨"Email/query", queryAnswer twins "me" ["INBOX|1", "INBOX|2"], "a"⟩,
        ⟨"Email/get", .obj [("accountId", .str "me"), ("list", .arr emails), ("notFound", .arr []),
          ("state", .str (jmapState twins))], "b"⟩,
        ⟨"Thread/get", .obj [("accountId", .str "me"),
          ("list", .arr (["T1@x", "T1@x"].map (threadObject twins))), ("notFound", .arr []),
          ("state", .str (jmapState twins))], "c"⟩], jmapState twins⟩) ∧
      threadEmails twins "T1@x" = ["INBOX|1", "INBOX|2"] := by
  have hfits : FitsUid twins := fun name mb hmb m hm => (mailbox_twins hmb m hm).2
  have hread : ∀ p ∈ queried twins (.obj [("filter", .obj [("inMailbox", .str "INBOX")])]),
      ∀ name ∈ emailHeaders, HeaderReadable p.2.raw name := by
    intro p hp name hname v hv
    obtain ⟨mb, hmb, hm⟩ := mem_queried hp
    have hmb := (mem_namedMailboxes reachable_twins.wellFormed).mp hmb
    have hnone : ∀ name ∈ emailHeaders, (ParsedMessage.parse twinRaw).header name = none := by
      decide +kernel
    rw [(mailbox_twins hmb _ hm).1, hnone name hname] at hv
    cases hv
  obtain ⟨emails, tids, hprocess, -, -, htids, -⟩ := @chained_reads twins _ _ _ reading .blank
    reachable_twins hfits (fun _ _ _ _ _ h => h) "me" (.obj [("inMailbox", .str "INBOX")]) "a" "b"
    "c" hread
  have hlisted : (queried twins (.obj [("filter", .obj [("inMailbox", .str "INBOX")])])).map
      (fun p => (emailId p.1 p.2.uid, threadId (ParsedMessage.parse p.2.raw) p.2.uid)) =
        [("INBOX|1", "T1@x"), ("INBOX|2", "T1@x")] := by decide +kernel
  have hids := congrArg (List.map Prod.fst) hlisted
  have hthreads := congrArg (List.map Prod.snd) hlisted
  rw [List.map_map] at hids hthreads
  have hall := List.forall₂_map_left_iff.mpr (htids.imp fun p tid h => h.1.symm)
  rw [List.forall₂_eq_eq_eq] at hall
  obtain rfl := hall.symm.trans hthreads
  have hlist : (queried twins (.obj [("filter", .obj [("inMailbox", .str "INBOX")])])).map
      (fun p => emailId p.1 p.2.uid) = ["INBOX|1", "INBOX|2"] := hids
  rw [hlist] at hprocess
  exact ⟨emails, hprocess, by decide +kernel⟩

end Chains

section Counts
variable {s : MemoryStore} {lowerChar : Char → List Char} {lowerStr : String → String}
  {blake3 : Bytes → Digest} {views : Views MemoryStore}

theorem map_fst_namedMailboxes (hs : s.WellFormed) :
    (namedMailboxes s).map Prod.fst = MailStore.mailboxNames s := by
  have hall : ∀ name ∈ MailStore.mailboxNames s, (MailStore.mailbox s name).isSome = true :=
    fun name hname => (hs.listed name).mp hname
  unfold namedMailboxes
  generalize MailStore.mailboxNames s = names at hall
  induction names with
  | nil => rfl
  | cons name names ih =>
    obtain ⟨hname, hnames⟩ := List.forall_mem_cons.mp hall
    obtain ⟨mb, hmb⟩ := Option.isSome_iff_exists.mp hname
    rw [List.filterMap_cons, hmb, Option.map_some]
    dsimp only
    rw [List.map_cons, ih hnames]

/-- A query of one mailbox. -/
def inMailbox (name : String) : Json := .obj [("filter", .obj [("inMailbox", .str name)])]

theorem queried_inMailbox (hs : s.WellFormed) {name : String} {mb : Mailbox}
    (h : (name, mb) ∈ namedMailboxes s) :
    queried s (inMailbox name) = mb.messages.map fun m => (name, m) := by
  have hone : ((namedMailboxes s).filter fun p => decide (name = p.1)) = [(name, mb)] := by
    have hdistinct := pairwise_namedMailboxes hs
    generalize namedMailboxes s = l at h hdistinct
    induction l with
    | nil => cases h
    | cons p l ih =>
      obtain ⟨hp, hl⟩ := List.pairwise_cons.mp hdistinct
      obtain rfl | hmem := List.mem_cons.mp h
      · have hrest : l.filter (fun p => decide (name = p.1)) = [] :=
          List.filter_eq_nil_iff.mpr fun q hq => by simpa using hp q hq
        rw [List.filter_cons_of_pos (by simp), hrest]
      · have hne : ¬decide (name = p.1) = true := by simpa using (hp (name, mb) hmem).symm
        rw [List.filter_cons, if_neg hne, ih hmem hl]
  have hasked : ((((inMailbox name).get "filter").bind (Json.get "inMailbox")).bind Json.asStr) =
      some name := rfl
  unfold queried
  rw [hasked]
  dsimp only [Option.map_some, Option.getD_some]
  rw [hone, List.flatMap_cons, List.flatMap_nil, List.append_nil]

/-- The members that count a mailbox are those of what a query of the mailbox finds: its emails, and
those that show no `$seen`. -/
theorem mailboxObject_counts (hs : s.WellFormed) {name : String} {mb : Mailbox}
    (h : (name, mb) ∈ namedMailboxes s) :
    (mailboxObject name mb).get "totalEmails" =
        some (.num (toString (queried s (inMailbox name)).length)) ∧
    (mailboxObject name mb).get "unreadEmails" =
        some (.num (toString ((queried s (inMailbox name)).filter fun p =>
          !shows p.2 "$seen").length)) := by
  have hunseen : (queried s (inMailbox name)).filter (fun p => !shows p.2 "$seen") =
      (mb.messages.filter fun m => !m.hasFlag .seen).map fun m => (name, m) := by
    rw [queried_inMailbox hs h, List.filter_map]
    refine congrArg (List.map _) (List.filter_congr fun m _ => ?_)
    rw [Function.comp_apply, shows_of_keywordOf (f := .seen) rfl]
    rfl
  refine ⟨?_, ?_⟩
  · rw [queried_inMailbox hs h, List.length_map]
    rfl
  · rw [hunseen, List.length_map]
    rfl

/-- The emails of all mailboxes are those of each. -/
theorem queried_all (s : MemoryStore) : queried s (.obj []) =
    (namedMailboxes s).flatMap fun p => p.2.messages.map fun m => (p.1, m) := by
  unfold queried
  rw [show (((Json.obj []).get "filter").bind (Json.get "inMailbox")).bind Json.asStr = none from rfl]
  dsimp only [Option.map_none, Option.getD_none]
  rw [List.filter_true]

theorem mailboxGet_all (hs : s.WellFormed) (account : String) :
    mailboxGet s account (.obj [("ids", strs (MailStore.mailboxNames s))]) =
      .obj [("accountId", .str account),
        ("list", .arr ((namedMailboxes s).map fun p => mailboxObject p.1 p.2)), ("notFound", .arr []),
        ("state", .str (jmapState s))] := by
  have hids : ((Json.obj [("ids", strs (MailStore.mailboxNames s))]).get "ids").bind Json.asArray =
      some ((MailStore.mailboxNames s).map .str) := rfl
  have hall : (namedMailboxes s).filter (fun p =>
      ((MailStore.mailboxNames s).map Json.str).any fun v => v.asStr = some p.1) =
        namedMailboxes s := by
    refine List.filter_eq_self.mpr fun p hp => ?_
    have hname : p.1 ∈ MailStore.mailboxNames s :=
      map_fst_namedMailboxes hs ▸ List.mem_map_of_mem hp
    exact List.any_eq_true.mpr ⟨.str p.1, List.mem_map_of_mem hname, decide_eq_true rfl⟩
  unfold mailboxGet
  rw [hids]
  dsimp only [Option.map_some, Option.getD_some]
  rw [hall]

/-- A request lists the mailboxes and gets them: there is one object for each, in the order of the
store, whose counts are those of a query of the mailbox, and the counts add up to those of a query of
all. What counts as unread is what Email/get shows without `$seen`. -/
theorem counted_mailboxes {r : Renderers} (hs : Reachable r s)
    (hviews : views.Answers lowerChar lowerStr blake3) (account a b : String) :
    process views s account [⟨"Mailbox/query", .obj [], a⟩,
        byReference "Mailbox/get" b a "Mailbox/query" "/ids"] = (s, ⟨[
      ⟨"Mailbox/query", queryAnswer s account ((namedMailboxes s).map Prod.fst), a⟩,
      ⟨"Mailbox/get", .obj [("accountId", .str account),
        ("list", .arr ((namedMailboxes s).map fun p => mailboxObject p.1 p.2)), ("notFound", .arr []),
        ("state", .str (jmapState s))], b⟩], jmapState s⟩) ∧
    (∀ p ∈ namedMailboxes s,
      (mailboxObject p.1 p.2).get "totalEmails" =
        some (.num (toString (queried s (inMailbox p.1)).length)) ∧
      (mailboxObject p.1 p.2).get "unreadEmails" = some (.num (toString ((queried s
        (inMailbox p.1)).filter fun q => !shows q.2 "$seen").length))) ∧
    (queried s (.obj [])).length =
      ((namedMailboxes s).map fun p => (queried s (inMailbox p.1)).length).sum ∧
    ∀ p ∈ queried s (.obj []), ∀ email,
      emailObject bodyViews (emailId p.1 p.2.uid) p.1 p.2 = some email →
        (((email.get "keywords").bind (Json.get "$seen")).isSome = shows p.2 "$seen") := by
  refine ⟨?_, fun p hp => mailboxObject_counts hs.wellFormed hp, ?_, fun p _ email hemail => ?_⟩
  · have hids := @resolveReferences_ids [⟨"Mailbox/query", mailboxQuery s account, a⟩] a
      "Mailbox/query" "/ids" _ _ (List.find?_cons_of_pos (by simp)) (evalPointer_ids rfl)
    have hfirst : call views account (s, []) ⟨"Mailbox/query", .obj [], a⟩ =
        (s, [⟨"Mailbox/query", mailboxQuery s account, a⟩]) := call_read hviews rfl rfl
    have hsecond := @call_read _ _ _ views hviews account
      (s, [⟨"Mailbox/query", mailboxQuery s account, a⟩])
      (byReference "Mailbox/get" b a "Mailbox/query" "/ids") _ _ hids rfl
    rw [mailboxGet_all hs.wellFormed] at hsecond
    unfold process
    rw [List.foldl_cons, hfirst, List.foldl_cons, hsecond, List.foldl_nil,
      map_fst_namedMailboxes hs.wellFormed]
    rfl
  · rw [queried_all, List.length_flatMap]
    refine congrArg List.sum (List.map_congr_left fun p hp => ?_)
    rw [queried_inMailbox hs.wellFormed hp]
  · rw [emailObject_keywords hemail]
    rfl

/-- One message in INBOX, with no field at all. -/
def oneBlank : MemoryStore := (MemoryStore.new.deliverRaw "INBOX" [97] [.recent] 0).1

theorem reachable_oneBlank : Reachable .blank oneBlank :=
  (reachable_new _).op (.deliverRaw "INBOX" [97] [.recent] 0) rfl

theorem counted_mailboxes_blank : ∃ list,
    process reading oneBlank "me" [⟨"Mailbox/query", .obj [], "a"⟩,
        byReference "Mailbox/get" "b" "a" "Mailbox/query" "/ids"] = (oneBlank, ⟨[
      ⟨"Mailbox/query", queryAnswer oneBlank "me"
        ["INBOX", "Sent", "Drafts", "Trash", "Junk", "Archive"], "a"⟩,
      ⟨"Mailbox/get", .obj [("accountId", .str "me"), ("list", .arr list), ("notFound", .arr []),
        ("state", .str (jmapState oneBlank))], "b"⟩], jmapState oneBlank⟩) :=
  ⟨_, (@counted_mailboxes oneBlank _ _ _ reading .blank reachable_oneBlank (fun _ _ _ _ _ h => h)
    "me" "a" "b").1⟩

end Counts

end Dmtap.Mail.Jmap
