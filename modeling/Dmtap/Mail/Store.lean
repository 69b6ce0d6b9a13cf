import Dmtap.Lib.Search
import Dmtap.Lib.SortedMap
import Dmtap.Mote.Payload

/-! The mail store: mailboxes of numbered messages, and the operations every protocol view
calls. UIDs (`u32`) and modification sequences (`u64`) are natural numbers; both only ever grow by
one. What concludes that a UID is new (copies and moves, the order of a sort, the changes since a
state) is exact of the code below `2 ^ 32` appends to a mailbox, where the invariant of mailboxes
has the next UID fit in 32 bits. -/
namespace Dmtap.Mail
open Lib

inductive Flag where
  | seen
  | answered
  | flagged
  | deleted
  | draft
  | recent
  | keyword (name : String)
  deriving DecidableEq, Repr

namespace Flag

/-- The wire form. -/
def imap : Flag → String
  | seen => "\\Seen"
  | answered => "\\Answered"
  | flagged => "\\Flagged"
  | deleted => "\\Deleted"
  | draft => "\\Draft"
  | recent => "\\Recent"
  | keyword k => k

def parse (tok : String) : Flag :=
  match tok.toLower with
  | "\\seen" => seen
  | "\\answered" => answered
  | "\\flagged" => flagged
  | "\\deleted" => deleted
  | "\\draft" => draft
  | "\\recent" => recent
  | _ => keyword tok

end Flag

inductive SpecialUse where
  | inbox
  | sent
  | drafts
  | trash
  | junk
  | archive
  | all
  deriving DecidableEq, Repr

namespace SpecialUse

def listAttribute : SpecialUse → Option String
  | inbox => none
  | sent => some "\\Sent"
  | drafts => some "\\Drafts"
  | trash => some "\\Trash"
  | junk => some "\\Junk"
  | archive => some "\\Archive"
  | all => some "\\All"

def jmapRole : SpecialUse → String
  | .inbox => "inbox"
  | .sent => "sent"
  | .drafts => "drafts"
  | .trash => "trash"
  | .junk => "junk"
  | .archive => "archive"
  | .all => "all"

end SpecialUse

structure Message where
  uid : ℕ
  flags : List Flag
  internalDate : ℕ
  modseq : ℕ
  createdModseq : ℕ
  raw : Bytes
  deriving DecidableEq

namespace Message

def new (uid : ℕ) (flags : List Flag) (internalDate modseq : ℕ) (raw : Bytes) : Message :=
  ⟨uid, flags, internalDate, modseq, modseq, raw⟩

def size (m : Message) : ℕ := m.raw.length

def hasFlag (m : Message) (f : Flag) : Bool := m.flags.contains f

def setFlag (m : Message) (f : Flag) : Message :=
  if m.flags.contains f then m else { m with flags := m.flags ++ [f] }

def clearFlag (m : Message) (f : Flag) : Message :=
  { m with flags := m.flags.filter fun x => x ≠ f }

end Message

structure Mailbox where
  name : String
  specialUse : Option SpecialUse
  uidValidity : ℕ
  uidNext : ℕ
  highestModseq : ℕ
  subscribed : Bool
  messages : List Message
  expunged : List (ℕ × ℕ)
  deriving DecidableEq

namespace Mailbox

def new (name : String) (specialUse : Option SpecialUse) : Mailbox where
  name := name
  specialUse := specialUse
  uidValidity := 1
  uidNext := 1
  highestModseq := 1
  subscribed := true
  messages := []
  expunged := []

def exists' (mb : Mailbox) : ℕ := mb.messages.length

def recent (mb : Mailbox) : ℕ := (mb.messages.filter fun m => m.hasFlag .recent).length

def unseen (mb : Mailbox) : ℕ := (mb.messages.filter fun m => !m.hasFlag .seen).length

def maxUid (mb : Mailbox) : ℕ := (mb.messages.getLast?.map Message.uid).getD 0

def firstUnseenSeq (mb : Mailbox) : Option ℕ :=
  (mb.messages.findIdx? fun m => !m.hasFlag .seen).map (· + 1)

/-- File a message under the next UID; the UID comes with the new mailbox. -/
def append (mb : Mailbox) (raw : Bytes) (flags : List Flag) (internalDate : ℕ) : ℕ × Mailbox :=
  let uid := mb.uidNext
  let highest := mb.highestModseq + 1
  (uid, { mb with
    uidNext := mb.uidNext + 1
    highestModseq := highest
    messages := mb.messages ++ [Message.new uid flags internalDate highest raw] })

def indexOfUid (mb : Mailbox) (uid : ℕ) : Option ℕ :=
  binarySearchBy (fun m => compare m.uid uid) mb.messages

def seqOfUid (mb : Mailbox) (uid : ℕ) : Option ℕ := (mb.indexOfUid uid).map (· + 1)

def byUid (mb : Mailbox) (uid : ℕ) : Option Message :=
  (mb.indexOfUid uid).bind fun i => mb.messages[i]?

def removeAt (mb : Mailbox) (index : ℕ) : Option ℕ × Mailbox :=
  match mb.messages[index]? with
  | none => (none, mb)
  | some m =>
    let highest := mb.highestModseq + 1
    (some m.uid, { mb with
      highestModseq := highest
      expunged := mb.expunged ++ [(m.uid, highest)]
      messages := mb.messages.eraseIdx index })

def vanishedSince (mb : Mailbox) (modseq : ℕ) : List ℕ :=
  ((mb.expunged.filter fun p => modseq < p.2).map Prod.fst).insertionSort (· ≤ ·)

/-- Change one message in place, advance the modification sequence and stamp the message with
it, as every flag change does. -/
def touch (mb : Mailbox) (i : ℕ) (f : Message → Message) : Mailbox :=
  let highest := mb.highestModseq + 1
  { mb with
    highestModseq := highest
    messages := mb.messages.modify i fun m => { f m with modseq := highest } }

end Mailbox

inductive StoreError where
  | alreadyExists
  | noSuchMailbox
  | inboxImmutable
  deriving DecidableEq, Repr

def StoreError.message : StoreError → String
  | alreadyExists => "mailbox already exists"
  | noSuchMailbox => "no such mailbox"
  | inboxImmutable => "INBOX cannot be deleted or renamed"

/-- What a protocol view asks of a store. A mutable borrow of a mailbox is the mailbox with the
way to write it back. -/
class MailStore (σ : Type) where
  mailboxNames : σ → List String
  mailbox : σ → String → Option Mailbox
  mailboxMut : σ → String → Option (Mailbox × (Mailbox → σ))
  create : σ → String → σ × Except StoreError Unit
  delete : σ → String → σ × Except StoreError Unit
  rename : σ → String → String → σ × Except StoreError Unit

structure MemoryStore where
  mailboxes : SortedMap String Mailbox
  order : List String
  deriving DecidableEq

namespace MemoryStore

def insert (s : MemoryStore) (mb : Mailbox) : MemoryStore where
  order := s.order ++ [mb.name]
  mailboxes := s.mailboxes.insert mb.name mb

def vacant : MemoryStore := ⟨SortedMap.empty, []⟩

/-- INBOX and the folders with a special use. -/
def new : MemoryStore :=
  ((((((vacant.insert (Mailbox.new "INBOX" (some .inbox))).insert
    (Mailbox.new "Sent" (some .sent))).insert
    (Mailbox.new "Drafts" (some .drafts))).insert
    (Mailbox.new "Trash" (some .trash))).insert
    (Mailbox.new "Junk" (some .junk))).insert
    (Mailbox.new "Archive" (some .archive)))

/-- INBOX only. -/
def empty : MemoryStore := vacant.insert (Mailbox.new "INBOX" (some .inbox))

def mailboxNames (s : MemoryStore) : List String := s.order

def mailbox (s : MemoryStore) (name : String) : Option Mailbox := s.mailboxes.get? name

/-- Write a mailbox back through a borrow. -/
def put (s : MemoryStore) (name : String) (mb : Mailbox) : MemoryStore :=
  { s with mailboxes := s.mailboxes.insert name mb }

def mailboxMut (s : MemoryStore) (name : String) : Option (Mailbox × (Mailbox → MemoryStore)) :=
  (s.mailbox name).map fun mb => (mb, s.put name)

def create (s : MemoryStore) (name : String) : MemoryStore × Except StoreError Unit :=
  if (s.mailbox name).isSome then (s, .error .alreadyExists)
  else (s.insert (Mailbox.new name none), .ok ())

def delete (s : MemoryStore) (name : String) : MemoryStore × Except StoreError Unit :=
  if name.toLower = "inbox" then (s, .error .inboxImmutable)
  else if (s.mailbox name).isNone then (s, .error .noSuchMailbox)
  else
    ({ mailboxes := s.mailboxes.erase name, order := s.order.filter fun n => n ≠ name }, .ok ())

def rename (s : MemoryStore) (source target : String) : MemoryStore × Except StoreError Unit :=
  if source.toLower = "inbox" then (s, .error .inboxImmutable)
  else if (s.mailbox target).isSome then (s, .error .alreadyExists)
  else
    match s.mailbox source with
    | none => (s, .error .noSuchMailbox)
    | some mb =>
      ({ mailboxes := (s.mailboxes.erase source).insert target { mb with name := target }
         order := s.order.map fun n => if n = source then target else n }, .ok ())

instance : MailStore MemoryStore where
  mailboxNames := mailboxNames
  mailbox := mailbox
  mailboxMut := mailboxMut
  create := create
  delete := delete
  rename := rename

def deliverRaw (s : MemoryStore) (mailbox : String) (raw : Bytes) (flags : List Flag)
    (internalDate : ℕ) : MemoryStore × Option ℕ :=
  match s.mailboxMut mailbox with
  | none => (s, none)
  | some (mb, write) =>
    let (uid, mb) := mb.append raw flags internalDate
    (write mb, some uid)

end MemoryStore

inductive Delivery where
  | stored (uid : ℕ)
  | ephemeral (raw : Bytes)
  | noSuchMailbox
  deriving DecidableEq

/-- File a decrypted payload, unless it is marked sensitive. `renderRfc5322` stands for the
rendering of payloads. -/
def MemoryStore.deliverMote (renderRfc5322 : Mote.Payload → ℕ → Bytes) (s : MemoryStore)
    (payload : Mote.Payload) (mailbox : String) (ts : ℕ) : MemoryStore × Delivery :=
  let raw := renderRfc5322 payload ts
  if payload.headers.sensitive = some true then (s, .ephemeral raw)
  else
    let flags := [Flag.recent]
    match s.mailboxMut mailbox with
    | none => (s, .noSuchMailbox)
    | some (mb, write) =>
      let (uid, mb) := mb.append raw flags ts
      (write mb, .stored uid)

end Dmtap.Mail
