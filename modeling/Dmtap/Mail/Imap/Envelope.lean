import Dmtap.Mail.Addresses
import Dmtap.Mail.Imap.Session

/-! The ENVELOPE of a message. -/
namespace Dmtap.Mail.Imap
open Lib

def nstring : Option String → String
  | none => "NIL"
  | some v => imapString v

def addrList (addrs : List Address) : String :=
  if addrs.isEmpty then "NIL"
  else
    "(" ++ joinWith "" (addrs.map fun a =>
      "(" ++ nstring a.name ++ " " ++ nstring a.adl ++ " " ++ nstring a.mailbox ++ " " ++
        nstring a.host ++ ")") ++ ")"

def shownAddresses (p : ParsedMessage) (name : String) : Option String :=
  (p.addresses name).map addrList

/-- The author stands in for a header that is missing. -/
def shownOrAuthor (p : ParsedMessage) (author name : String) : Option String :=
  if (p.header name).isSome then shownAddresses p name else some author

def envelope (p : ParsedMessage) : Option String := do
  let author ← shownAddresses p "From"
  let sender ← shownOrAuthor p author "Sender"
  let replyTo ← shownOrAuthor p author "Reply-To"
  let recipients ← shownAddresses p "To"
  let cc ← shownAddresses p "Cc"
  let bcc ← shownAddresses p "Bcc"
  some ("(" ++ joinWith " " [nstring (p.header "Date"), nstring (p.header "Subject"), author, sender,
    replyTo, recipients, cc, bcc, nstring (p.header "In-Reply-To"),
    nstring ((p.header "Message-ID").or (p.header "Message-Id"))] ++ ")")

def envelopeHeaders : List String := ["From", "Sender", "Reply-To", "To", "Cc", "Bcc"]

theorem isSome_bind_iff {α β : Type} {o : Option α} {f : α → Option β} {P : Prop}
    (h : ∀ x, (f x).isSome = true ↔ P) : (o.bind f).isSome = true ↔ o.isSome = true ∧ P := by
  cases o with
  | none => simp
  | some x => simp [h x]

theorem shownOrAuthor_isSome (p : ParsedMessage) (author name : String) :
    (shownOrAuthor p author name).isSome = (shownAddresses p name).isSome := by
  unfold shownOrAuthor shownAddresses ParsedMessage.addresses
  cases p.header name with
  | none => rfl
  | some v => rfl

/-- An envelope needs all the address headers it shows. -/
theorem envelope_isSome_iff (p : ParsedMessage) :
    (envelope p).isSome = true ↔ ∀ name ∈ envelopeHeaders, (p.addresses name).isSome = true := by
  have hshown : ∀ name, (p.addresses name).isSome = (shownAddresses p name).isSome := fun name =>
    Option.isSome_map.symm
  have hall : (∀ name ∈ envelopeHeaders, (p.addresses name).isSome = true) ↔
      (shownAddresses p "From").isSome = true ∧ (shownAddresses p "Sender").isSome = true ∧
      (shownAddresses p "Reply-To").isSome = true ∧ (shownAddresses p "To").isSome = true ∧
      (shownAddresses p "Cc").isSome = true ∧ (shownAddresses p "Bcc").isSome = true := by
    simp [envelopeHeaders, hshown]
  rw [hall]
  unfold envelope
  refine isSome_bind_iff fun author => ?_
  rw [← shownOrAuthor_isSome p author "Sender", ← shownOrAuthor_isSome p author "Reply-To"]
  refine isSome_bind_iff fun _ => isSome_bind_iff fun _ => isSome_bind_iff fun _ =>
    isSome_bind_iff fun _ => ?_
  cases shownAddresses p "Bcc" with
  | none => rfl
  | some bcc => rfl

end Dmtap.Mail.Imap
