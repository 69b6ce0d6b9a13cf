import Dmtap.Mail.Addresses
import Dmtap.Mail.Dates
import Dmtap.Mail.Imap.Envelope
import Dmtap.Mail.Jmap

/-! Email/get, and what a stored message can do to its readers. -/
namespace Dmtap.Mail.Jmap
open Lib

/-- What is shown of the body of a message. -/
structure BodyViews where
  decodedBodyText : ParsedMessage → String × Bool
  isMultipart : ParsedMessage → Bool

def keywordOf : Flag → Option String
  | .seen => some "$seen"
  | .flagged => some "$flagged"
  | .answered => some "$answered"
  | .draft => some "$draft"
  | .deleted => some "$deleted"
  | .recent => none
  | .keyword _ => none

def trimAngles (s : String) : String :=
  let isAngle (c : Char) : Bool := c == '<' || c == '>'
  String.ofList ((s.toList.dropWhile isAngle).reverse.dropWhile isAngle).reverse

def jmapAddress (a : Address) : Json :=
  let email :=
    match a.mailbox, a.host with
    | some m, some h => m ++ "@" ++ h
    | some m, none => m
    | _, _ => ""
  .obj [("email", .str email),
    ("name", ((a.name.map decodeEncodedWords).map Json.str).getD .null)]

def jmapAddresses (p : ParsedMessage) (header : String) : Option Json :=
  (p.addresses header).map fun addrs =>
    if addrs.isEmpty then .null else .arr (addrs.map jmapAddress)

def threadId (p : ParsedMessage) (uid : ℕ) : String :=
  ((p.header "Message-ID").map fun m => "T" ++ trimAngles m).getD ("T" ++ toString uid)

def preview (views : BodyViews) (p : ParsedMessage) : String :=
  String.ofList ((views.decodedBodyText p).1.toList.take 200)

/-- One email as Email/get shows it. -/
def emailObject (views : BodyViews) (id mailbox : String) (msg : Message) : Option Json := do
  let parsed := ParsedMessage.parse msg.raw
  let bodyText := views.decodedBodyText parsed
  let keywords : SortedMap String Json :=
    SortedMap.empty.insertAll (fun k => k) (fun _ => .bool true) (msg.flags.filterMap keywordOf)
  let author ← jmapAddresses parsed "From"
  let recipients ← jmapAddresses parsed "To"
  let cc ← jmapAddresses parsed "Cc"
  some (.obj [
    ("blobId", .str id),
    ("bodyValues", .obj [("1", .obj [("isEncodingProblem", .bool bodyText.2),
      ("isTruncated", .bool false), ("value", .str bodyText.1)])]),
    ("cc", cc),
    ("from", author),
    ("hasAttachment", .bool (views.isMultipart parsed)),
    ("id", .str id),
    ("keywords", .obj keywords.entries),
    ("mailboxIds", .obj [(mailbox, .bool true)]),
    ("messageId", ((parsed.header "Message-ID").map fun s => .arr [.str (trimAngles s)]).getD .null),
    ("preview", .str (preview views parsed)),
    ("receivedAt", .str (formatRfc5322Date msg.internalDate)),
    ("size", .num (toString msg.size)),
    ("subject", .str (decodeEncodedWords ((parsed.header "Subject").getD ""))),
    ("textBody", .arr [.obj [("partId", .str "1"), ("type", .str "text/plain")]]),
    ("threadId", .str (threadId parsed msg.uid)),
    ("to", recipients)])

section Store
variable {σ : Type} [MailStore σ] (views : BodyViews) (store : σ)

def allEmailIds : List String :=
  (namedMailboxes store).flatMap fun p => p.2.messages.map fun m => emailId p.1 m.uid

/-- The ids asked for; with no list, those of all emails. -/
def wantIds (args : Json) : List String :=
  match (args.get "ids").bind Json.asArray with
  | some arr => arr.filterMap Json.asStr
  | none => allEmailIds store

def findEmail (id : String) : Option (String × Message) := do
  let (mailbox, uid) ← parseEmailId id
  let mb ← MailStore.mailbox store mailbox
  let msg ← mb.byUid uid
  some (mailbox, msg)

/-- The emails found, and the ids of those not found. -/
def emailGet (account : String) (args : Json) : Option Json := do
  let ids := wantIds store args
  let list ← (ids.filterMap fun id => (findEmail store id).map fun p => (id, p)).mapM fun p =>
    emailObject views p.1 p.2.1 p.2.2
  some (.obj [("accountId", .str account), ("list", .arr list),
    ("notFound", .arr ((ids.filter fun id => (findEmail store id).isNone).map .str)),
    ("state", .str (jmapState store))])

end Store

section Readers
open Imap

def emailHeaders : List String := ["From", "To", "Cc"]

theorem emailObject_isSome_iff (views : BodyViews) (id mailbox : String) (msg : Message) :
    (emailObject views id mailbox msg).isSome = true ↔
      ∀ name ∈ emailHeaders, ((ParsedMessage.parse msg.raw).addresses name).isSome = true := by
  have hshown : ∀ (p : ParsedMessage) name, (p.addresses name).isSome = (jmapAddresses p name).isSome :=
    fun p name => Option.isSome_map.symm
  have hall : (∀ name ∈ emailHeaders, ((ParsedMessage.parse msg.raw).addresses name).isSome = true) ↔
      (jmapAddresses (ParsedMessage.parse msg.raw) "From").isSome = true ∧
      (jmapAddresses (ParsedMessage.parse msg.raw) "To").isSome = true ∧
      (jmapAddresses (ParsedMessage.parse msg.raw) "Cc").isSome = true := by
    simp [emailHeaders, hshown]
  rw [hall]
  unfold emailObject
  refine isSome_bind_iff fun _ => isSome_bind_iff fun _ => ?_
  cases jmapAddresses (ParsedMessage.parse msg.raw) "Cc" with
  | none => rfl
  | some cc => rfl

/-- A header of a message lists addresses with their brackets in order, if it is there. -/
def HeaderReadable (raw : Bytes) (name : String) : Prop :=
  ∀ v, (ParsedMessage.parse raw).header name = some v → ∀ e ∈ splitAddresses v, BracketsOrdered e

theorem emailGet_isSome_iff {σ : Type} [MailStore σ] (views : BodyViews) (store : σ)
    (account : String) (args : Json) : (emailGet views store account args).isSome = true ↔
      ∀ id ∈ wantIds store args, ∀ mailbox msg, findEmail store id = some (mailbox, msg) →
        ∀ name ∈ emailHeaders, HeaderReadable msg.raw name := by
  have hlist : (emailGet views store account args).isSome =
      (((wantIds store args).filterMap fun id => (findEmail store id).map fun p => (id, p)).mapM
        fun p => emailObject views p.1 p.2.1 p.2.2).isSome := by
    unfold emailGet
    dsimp only
    cases ((wantIds store args).filterMap fun id => (findEmail store id).map fun p =>
      (id, p)).mapM fun p => emailObject views p.1 p.2.1 p.2.2 with
    | none => rfl
    | some list => rfl
  have hread : ∀ (raw : Bytes) (name : String), HeaderReadable raw name ↔
      ((ParsedMessage.parse raw).addresses name).isSome = true := fun raw name =>
    ((ParsedMessage.parse raw).addresses_isSome_iff name).symm
  simp only [hlist, mapM_isSome_iff, hread]
  constructor
  · intro h id hid mailbox msg hfind
    have hmem : (id, (mailbox, msg)) ∈ (wantIds store args).filterMap fun id =>
        (findEmail store id).map fun p => (id, p) :=
      List.mem_filterMap.mpr ⟨id, hid, by rw [hfind]; rfl⟩
    have hobject := h _ hmem
    dsimp only at hobject
    exact (emailObject_isSome_iff views id mailbox msg).mp hobject
  · intro h p hp
    obtain ⟨id, hid, heq⟩ := List.mem_filterMap.mp hp
    obtain ⟨q, hfind, hp⟩ := Option.map_eq_some_iff.mp heq
    have hobject := (emailObject_isSome_iff views id q.1 q.2).mpr (h id hid q.1 q.2 hfind)
    rw [← hp]
    exact hobject

/-- An address list is read, an envelope is made, and Email/get answers, exactly when in each entry
of the lists they read that has both brackets some `<` is in front of some `>`. -/
theorem readers_isSome_iff {σ : Type} [MailStore σ] (v : String) (raw : Bytes) (views : BodyViews)
    (store : σ) (account : String) (args : Json) :
    ((parseAddressList v).isSome = true ↔ ∀ e ∈ splitAddresses v, BracketsOrdered e) ∧
    ((envelope (ParsedMessage.parse raw)).isSome = true ↔
      ∀ name ∈ envelopeHeaders, HeaderReadable raw name) ∧
    ((emailGet views store account args).isSome = true ↔
      ∀ id ∈ wantIds store args, ∀ mailbox msg, findEmail store id = some (mailbox, msg) →
        ∀ name ∈ emailHeaders, HeaderReadable msg.raw name) := by
  have henvelope : (envelope (ParsedMessage.parse raw)).isSome = true ↔
      ∀ name ∈ envelopeHeaders, HeaderReadable raw name := by
    rw [envelope_isSome_iff]
    exact forall_congr' fun name => imp_congr_right fun _ =>
      (ParsedMessage.parse raw).addresses_isSome_iff name
  exact ⟨parseAddressList_isSome_iff v, henvelope, emailGet_isSome_iff views store account args⟩

/-- A sender's header `From: > <` takes its readers down. -/
theorem readers_isSome_inverted : parseAddressList "> <" = none ∧
    envelope (ParsedMessage.parse (utf8 "From: > <\r\n\r\n")) = none ∧
    ∀ (views : BodyViews) (id mailbox : String),
      emailObject views id mailbox (Message.new 1 [] 0 1 (utf8 "From: > <\r\n\r\n")) = none := by
  have hfrom : (ParsedMessage.parse (utf8 "From: > <\r\n\r\n")).addresses "From" = none := by
    decide +kernel
  refine ⟨by decide +kernel, ?_, ?_⟩
  · unfold envelope shownAddresses
    rw [hfrom]
    rfl
  · intro views id mailbox
    unfold emailObject jmapAddresses
    simp only [Message.new, hfrom, Option.map_none, Option.bind_eq_bind, Option.bind_none]

end Readers
end Dmtap.Mail.Jmap
