import Dmtap.Mail.Auth
import Dmtap.Mail.Md5
import Dmtap.Mail.Mime
import Dmtap.Mail.Store

/-! The POP3 session: login, the snapshot of INBOX, and the deletions that QUIT commits. -/
namespace Dmtap.Mail.Pop3
open Lib

inductive State where
  | authorization
  | transaction
  deriving DecidableEq

/-- A message of the snapshot taken at login. -/
structure Slot where
  uid : ℕ
  raw : Bytes
  deleted : Bool
  deriving DecidableEq

structure Session (σ : Type) where
  store : σ
  auth : Consulted
  tls : Bool
  state : State
  user : Option String
  identity : Option Bytes
  slots : List Slot
  banner : String
  pendingSasl : Bool

/-- A leading dot is doubled on every line, and the text ends with a line feed. -/
def dotStuff (raw : Bytes) : Bytes :=
  let out := (splitInclusive raw).flatMap fun line =>
    if line.head? = some 46 then 46 :: line else line
  if out.getLast? = some 10 then out else out ++ [13, 10]

namespace Session
variable {σ : Type} [MailStore σ]

def new (store : σ) (auth : Authenticator) (tls : Bool) : Session σ where
  store := store
  auth := ⟨auth, []⟩
  tls := tls
  state := .authorization
  user := none
  identity := none
  slots := []
  banner := "<envoir.1.1@mail.dmtap.local>"
  pendingSasl := false

section Authorization

def capa (s : Session σ) : String :=
  "+OK Capability list follows\r\n" ++ "TOP\r\nUIDL\r\nUSER\r\nRESP-CODES\r\nPIPELINING\r\n" ++
    (if s.tls then "SASL PLAIN\r\n" else "STLS\r\n") ++ ".\r\n"

def loadInbox (s : Session σ) : Session σ :=
  { s with slots :=
      match MailStore.mailbox s.store "INBOX" with
      | some mb => mb.messages.map fun m => ⟨m.uid, m.raw, false⟩
      | none => [] }

def loginOk (s : Session σ) (identity : Bytes) : Session σ × String :=
  let s := { s with identity := some identity, state := .transaction }.loadInbox
  (s, "+OK mailbox ready, " ++ toString s.slots.length ++ " messages\r\n")

/-- Put a user name and a password to the authenticator. -/
def checkCredentials (s : Session σ) (user pass refusal : String) : Session σ × String :=
  match s.auth.verify user pass with
  | (some id, auth) => { s with auth := auth }.loginOk id
  | (none, auth) => ({ s with auth := auth }, refusal)

def pass (s : Session σ) (password : String) : Session σ × String :=
  match s.user with
  | none => (s, "-ERR USER first\r\n")
  | some user => s.checkCredentials user password "-ERR [AUTH] invalid credentials\r\n"

def apop (s : Session σ) (rest : String) : Session σ × String :=
  match splitWhitespace rest with
  | name :: digest :: _ =>
    match s.auth.secretFor name with
    | (none, auth) =>
      ({ s with auth := auth }, "-ERR [AUTH] APOP not available for this user\r\n")
    | (some secret, auth) =>
      let s := { s with auth := auth }
      let expected := hex (md5 (utf8 (s.banner ++ secret)))
      if ctEq (utf8 expected) (utf8 digest.toLower) then
        s.checkCredentials name secret "-ERR [AUTH] APOP failed\r\n"
      else (s, "-ERR [AUTH] APOP digest mismatch\r\n")
  | _ => (s, "-ERR APOP requires name and digest\r\n")

def finishPlain (s : Session σ) (ir : String) : Session σ × String :=
  match decodePlain ir with
  | some cred =>
    s.checkCredentials cred.authcid cred.password "-ERR [AUTH] invalid credentials\r\n"
  | none => (s, "-ERR malformed SASL PLAIN\r\n")

def authCmd (s : Session σ) (rest : String) : Session σ × String :=
  match splitWhitespace rest with
  | mech :: args =>
    if mech.toUpper = "PLAIN" then
      match args with
      | ir :: _ => s.finishPlain ir
      | [] => ({ s with pendingSasl := true }, "+ \r\n")
    else (s, "-ERR unsupported SASL mechanism\r\n")
  | [] => (s, "-ERR unsupported SASL mechanism\r\n")

end Authorization

section Transaction

/-- The messages not marked as deleted, with their indices. -/
def active (s : Session σ) : List (ℕ × Slot) :=
  (s.slots.zipIdx.filter fun p => !p.1.deleted).map fun p => (p.2, p.1)

def indexOf (s : Session σ) (num : String) : Option ℕ := do
  let n ← parseU64 (trim num)
  if n = 0 then none
  else
    let slot ← s.slots[n - 1]?
    if slot.deleted then none else some (n - 1)

def slotOf (s : Session σ) (num : String) : Option (ℕ × Slot) := do
  let i ← s.indexOf num
  let slot ← s.slots[i]?
  some (i, slot)

def stat (s : Session σ) : String :=
  "+OK " ++ toString s.active.length ++ " " ++
    toString (s.active.map fun p => p.2.raw.length).sum ++ "\r\n"

/-- LIST and UIDL: a number for each message, or for one. -/
def listing (s : Session σ) (follows : String) (number : Slot → ℕ) (rest : String) : String :=
  if rest = "" then
    "+OK " ++ follows ++ "\r\n" ++
      String.join (s.active.map fun p =>
        toString (p.1 + 1) ++ " " ++ toString (number p.2) ++ "\r\n") ++ ".\r\n"
  else
    match s.slotOf rest with
    | some (i, slot) => "+OK " ++ toString (i + 1) ++ " " ++ toString (number slot) ++ "\r\n"
    | none => "-ERR no such message\r\n"

def list (s : Session σ) (rest : String) : String :=
  s.listing "scan listing follows" (fun slot => slot.raw.length) rest

def uidl (s : Session σ) (rest : String) : String :=
  s.listing "unique-id listing follows" Slot.uid rest

def retr (s : Session σ) (rest : String) : Bytes :=
  match s.slotOf rest with
  | some (_, slot) =>
    utf8 ("+OK " ++ toString slot.raw.length ++ " octets\r\n") ++ dotStuff slot.raw ++ utf8 ".\r\n"
  | none => utf8 "-ERR no such message\r\n"

def top (s : Session σ) (rest : String) : Bytes :=
  let args := splitWhitespace rest
  let lines := (args[1]?.bind parseU64).getD 0
  match s.slotOf (args.headD "") with
  | some (_, slot) =>
    let (headers, body) := headerAndBody slot.raw
    utf8 "+OK\r\n" ++ dotStuff (headers ++ ((splitInclusive body).take lines).flatten) ++
      utf8 ".\r\n"
  | none => utf8 "-ERR no such message\r\n"

def dele (s : Session σ) (rest : String) : Session σ × String :=
  match s.indexOf rest with
  | some i =>
    ({ s with slots := s.slots.modify i fun slot => { slot with deleted := true } },
      "+OK message deleted\r\n")
  | none => (s, "-ERR no such message\r\n")

def rset (s : Session σ) : Session σ × String :=
  ({ s with slots := s.slots.map fun slot => { slot with deleted := false } }, "+OK\r\n")

/-- Remove the messages with some UIDs, one after the other. -/
def removeUids (mb : Mailbox) (uids : List ℕ) : Mailbox :=
  uids.foldl (fun mb uid =>
    match mb.indexOfUid uid with
    | some pos => (mb.removeAt pos).2
    | none => mb) mb

def quit (s : Session σ) : Session σ × String :=
  let store :=
    if s.state = .transaction then
      let toDelete := (s.slots.filter Slot.deleted).map Slot.uid
      match MailStore.mailboxMut s.store "INBOX" with
      | some (mb, write) => write (removeUids mb toDelete)
      | none => s.store
    else s.store
  ({ s with store := store }, "+OK Envoir POP3 signing off\r\n")

end Transaction

/-- A text reply as bytes. -/
def text (r : Session σ × String) : Session σ × Bytes := (r.1, utf8 r.2)

def feedLineRaw (s : Session σ) (line : String) : Session σ × Bytes :=
  if s.pendingSasl then text ({ s with pendingSasl := false }.finishPlain (trim line))
  else
    let (verb, rest) := verbAndRest line
    match s.state, verb with
    | _, "CAPA" => text (s, s.capa)
    | _, "QUIT" => text s.quit
    | _, "NOOP" => text (s, "+OK\r\n")
    | .authorization, "STLS" => text ({ s with tls := true }, "+OK Begin TLS\r\n")
    | .authorization, "USER" => text ({ s with user := some rest }, "+OK send PASS\r\n")
    | .authorization, "PASS" => text (s.pass rest)
    | .authorization, "APOP" => text (s.apop rest)
    | .authorization, "AUTH" => text (s.authCmd rest)
    | .transaction, "STAT" => text (s, s.stat)
    | .transaction, "LIST" => text (s, s.list rest)
    | .transaction, "UIDL" => text (s, s.uidl rest)
    | .transaction, "RETR" => (s, s.retr rest)
    | .transaction, "TOP" => (s, s.top rest)
    | .transaction, "DELE" => text (s.dele rest)
    | .transaction, "RSET" => text s.rset
    | _, _ => text (s, "-ERR command not permitted in this state\r\n")

section Kept
variable (s : Session σ)

theorem checkCredentials_store (user pass refusal : String) :
    (s.checkCredentials user pass refusal).1.store = s.store := by
  unfold checkCredentials
  rcases s.auth.verify user pass with ⟨answer, auth⟩
  cases answer with
  | none => rfl
  | some id => rfl

theorem finishPlain_store (ir : String) : (s.finishPlain ir).1.store = s.store := by
  unfold finishPlain
  cases decodePlain ir with
  | none => rfl
  | some cred => exact s.checkCredentials_store _ _ _

theorem apop_store (rest : String) : (s.apop rest).1.store = s.store := by
  unfold apop
  match splitWhitespace rest with
  | [] => rfl
  | [_] => rfl
  | name :: digest :: _ =>
    dsimp only
    rcases s.auth.secretFor name with ⟨answer, auth⟩
    cases answer with
    | none => rfl
    | some secret =>
      dsimp only
      split_ifs
      · exact checkCredentials_store _ _ _ _
      · rfl

theorem authCmd_store (rest : String) : (s.authCmd rest).1.store = s.store := by
  unfold authCmd
  match splitWhitespace rest with
  | [] => rfl
  | mech :: args =>
    dsimp only
    by_cases h : mech.toUpper = "PLAIN"
    · rw [if_pos h]
      cases args with
      | nil => rfl
      | cons ir _ =>
        dsimp only
        exact s.finishPlain_store ir
    · rw [if_neg h]

theorem pass_store (password : String) : (s.pass password).1.store = s.store := by
  unfold pass
  cases s.user with
  | none => rfl
  | some user => exact s.checkCredentials_store _ _ _

omit [MailStore σ] in
theorem dele_store (rest : String) : (s.dele rest).1.store = s.store := by
  unfold dele
  cases s.indexOf rest with
  | none => rfl
  | some i => rfl

end Kept

omit [MailStore σ] in
@[simp] theorem text_fst (r : Session σ × String) : (text r).1 = r.1 := rfl

/-- What a line can do to a session: continue a SASL exchange, present credentials, or neither. -/
theorem feedLineRaw_cases {P : Session σ → Prop} (s : Session σ) (line : String)
    (hsasl : s.pendingSasl = true → P ({ s with pendingSasl := false }.finishPlain (trim line)).1)
    (hlogin : s.pendingSasl = false → s.state = .authorization →
      ((verbAndRest line).1 = "PASS" → P (s.pass (verbAndRest line).2).1) ∧
      ((verbAndRest line).1 = "APOP" → P (s.apop (verbAndRest line).2).1) ∧
      ((verbAndRest line).1 = "AUTH" → P (s.authCmd (verbAndRest line).2).1))
    (hother : s.pendingSasl = false →
      (s.state = .authorization → (verbAndRest line).1 ∉ ["PASS", "APOP", "AUTH"]) →
      P s ∧ P { s with tls := true } ∧ P { s with user := some (verbAndRest line).2 } ∧
      P s.quit.1 ∧ P (s.dele (verbAndRest line).2).1 ∧ P s.rset.1) :
    P (s.feedLineRaw line).1 := by
  unfold feedLineRaw
  by_cases hpending : s.pendingSasl = true
  · rw [if_pos hpending, text_fst]
    exact hsasl hpending
  · have hlogin := hlogin (Bool.eq_false_of_not_eq_true hpending)
    have hother := hother (Bool.eq_false_of_not_eq_true hpending)
    rw [if_neg hpending]
    dsimp only
    have hquiet : ∀ {verb}, (verbAndRest line).1 = verb → verb ∉ ["PASS", "APOP", "AUTH"] →
        s.state = .authorization → (verbAndRest line).1 ∉ ["PASS", "APOP", "AUTH"] := by
      intro verb hverb hnot _
      rw [hverb]
      exact hnot
    have hbehind : s.state = .transaction → s.state = .authorization →
        (verbAndRest line).1 ∉ ["PASS", "APOP", "AUTH"] := by
      intro hstate hstate'
      rw [hstate] at hstate'
      cases hstate'
    split
    case h_1 hverb => exact (hother (hquiet hverb (by decide))).1
    case h_2 hverb => exact (hother (hquiet hverb (by decide))).2.2.2.1
    case h_3 hverb => exact (hother (hquiet hverb (by decide))).1
    case h_4 _ hverb => exact (hother (hquiet hverb (by decide))).2.1
    case h_5 _ hverb => exact (hother (hquiet hverb (by decide))).2.2.1
    case h_6 hstate hverb =>
      rw [text_fst]
      exact (hlogin hstate).1 hverb
    case h_7 hstate hverb =>
      rw [text_fst]
      exact (hlogin hstate).2.1 hverb
    case h_8 hstate hverb =>
      rw [text_fst]
      exact (hlogin hstate).2.2 hverb
    case h_14 hstate _ =>
      rw [text_fst]
      exact (hother (hbehind hstate)).2.2.2.2.1
    case h_15 hstate _ =>
      rw [text_fst]
      exact (hother (hbehind hstate)).2.2.2.2.2
    case h_16 hpass hapop hauth _ _ _ _ _ _ _ =>
      refine (hother fun hstate hmem => ?_).1
      rcases List.mem_cons.mp hmem with hverb | hmem
      · exact hpass hstate hverb
      rcases List.mem_cons.mp hmem with hverb | hmem
      · exact hapop hstate hverb
      · exact hauth hstate (List.mem_singleton.mp hmem)
    all_goals
      rename_i hstate _
      exact (hother (hbehind hstate)).1

end Session
end Dmtap.Mail.Pop3
