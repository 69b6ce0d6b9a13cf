import Dmtap.Mail.Jmap
import Dmtap.Mail.Rfc5322

/-! Messages composed from what a client sends. -/
namespace Dmtap.Mail.Jmap
open Lib Mote

section Compose

def sanitizeHeader : String → String := sanitizeHeaderValue

/-- An address with its display name, if it has one. -/
def renderAddress (a : Json) : Option String :=
  ((a.get "email").bind Json.asStr).map fun email =>
    let email := sanitizeHeader email
    match (a.get "name").bind Json.asStr with
    | some n =>
      if n ≠ "" then encodeDisplayName (sanitizeHeader n) ++ " <" ++ email ++ ">" else email
    | none => email

def addresses (obj : Json) (key : String) : List String :=
  (((obj.get key).bind Json.asArray).getD []).filterMap renderAddress

def addrHeader (obj : Json) (key label : String) : String :=
  if (addresses obj key).isEmpty then "" else headerLine label (", ".intercalate (addresses obj key))

def subjectOf (obj : Json) : Option String := (obj.get "subject").bind Json.asStr

/-- The text part the first text body names, else the first value. -/
def composedBody (obj : Json) : String :=
  let bodyValues := (obj.get "bodyValues").bind Json.asObject
  let partId := ((((obj.get "textBody").bind Json.asArray).bind List.head?).bind
    (Json.get "partId")).bind Json.asStr
  (bodyValues.bind fun bv =>
    let named := partId.bind fun pid => bv.lookup pid
    ((named.orElse fun _ => bv.head?.map Prod.snd).bind (Json.get "value")).bind Json.asStr).getD ""

/-- The bytes that are filed for a new email. -/
def composeMessage (obj : Json) : Bytes :=
  let headers := addrHeader obj "from" "From" ++ addrHeader obj "to" "To" ++
    addrHeader obj "cc" "Cc" ++
    (match subjectOf obj with
    | some subject => headerLine "Subject" (encodeHeaderValue (sanitizeHeader subject))
    | none => "") ++
    headerLine "Date" (formatRfc5322Date 0) ++ headerLine "MIME-Version" "1.0" ++
    headerLine "Content-Type" "text/plain; charset=utf-8"
  utf8 headers ++ utf8 "\r\n" ++ utf8 (composedBody obj)

end Compose

section Fields

theorem lf_not_mem_of_isWireSafeAscii {v : String} (h : isWireSafeAscii v = true) :
    '\n' ∉ v.toList := by
  rw [← lf_mem_utf8_iff]
  intro hmem
  exact absurd (List.all_eq_true.mp h 10 hmem) (by decide)

theorem foldedText_encodeDisplayName (name : String) : FoldedText (encodeDisplayName name) := by
  unfold encodeDisplayName
  by_cases hsafe : isWireSafeAscii name = true
  · have hlf := lf_not_mem_of_isWireSafeAscii hsafe
    rw [hsafe, if_neg (by decide)]
    split
    · exact foldedText_of_not_mem hlf
    · have hquote : FoldedText "\"" := foldedText_of_not_mem (by decide)
      refine (hquote.append (foldedText_of_not_mem ?_)).append hquote
      rw [String.toList_ofList, List.mem_flatMap]
      rintro ⟨c, hc, hlf'⟩
      split at hlf'
      · rcases List.mem_cons.mp hlf' with h | h
        · exact absurd h (by decide)
        · rw [List.mem_singleton.mp h] at hlf
          exact hlf hc
      · rw [List.mem_singleton.mp hlf'] at hlf
        exact hlf hc
  · rw [Bool.not_eq_true] at hsafe
    rw [hsafe, if_pos (by decide)]
    exact foldedText_encodeHeaderValue name

theorem foldedText_renderAddress {a : Json} {s : String} (h : renderAddress a = some s) :
    FoldedText s := by
  obtain ⟨email, -, rfl⟩ := Option.map_eq_some_iff.mp h
  have hemail : FoldedText (sanitizeHeader email) := foldedText_sanitizeHeaderValue email
  dsimp only
  split
  · split
    · exact (((foldedText_encodeDisplayName _).append (foldedText_of_not_mem (by decide))).append
        hemail).append (foldedText_of_not_mem (by decide))
    · exact hemail
  · exact hemail

theorem foldedText_addresses (obj : Json) (key : String) :
    FoldedText (", ".intercalate (addresses obj key)) := by
  refine (foldedText_of_not_mem (by decide)).intercalate fun s hs => ?_
  obtain ⟨a, -, ha⟩ := List.mem_filterMap.mp hs
  exact foldedText_renderAddress ha

/-- The address field of a message, when an address is given for it. -/
def addrFields (obj : Json) (key label : String) (hlabel : isFieldName label = true) :
    List WrittenField :=
  if (addresses obj key).isEmpty then []
  else
    [WrittenField.text label (", ".intercalate (addresses obj key)) hlabel
      (foldedText_addresses obj key)]

theorem utf8_addrHeader (obj : Json) (key label : String) (hlabel) :
    utf8 (addrHeader obj key label) =
      (addrFields obj key label hlabel).flatMap WrittenField.written := by
  unfold addrHeader addrFields
  split
  · rfl
  · rw [List.flatMap_cons, List.flatMap_nil, List.append_nil, written_text]

theorem sanitizeHeaderValue_plain : sanitizeHeaderValue "text/plain; charset=utf-8" =
    "text/plain; charset=utf-8" := by decide

def composedFields (obj : Json) : List WrittenField :=
  addrFields obj "from" "From" isFieldName_from ++ addrFields obj "to" "To" (by decide) ++
  addrFields obj "cc" "Cc" (by decide) ++ ((subjectOf obj).map subjectField).toList ++
  [dateField 0, mimeVersionField, contentTypeField "text/plain; charset=utf-8"]

theorem composeMessage_eq (obj : Json) :
    composeMessage obj = (composedFields obj).flatMap WrittenField.written ++ utf8 "\r\n" ++
      utf8 (composedBody obj) := by
  have hempty : utf8 "" = [] := rfl
  have hfrom := utf8_addrHeader obj "from" "From" isFieldName_from
  have hto := utf8_addrHeader obj "to" "To" (by decide)
  have hcc := utf8_addrHeader obj "cc" "Cc" (by decide)
  unfold composeMessage composedFields dateField subjectField mimeVersionField contentTypeField
    sanitizeHeader
  dsimp only
  cases subjectOf obj <;>
    simp only [utf8_append, hfrom, hto, hcc, hempty, sanitizeHeaderValue_plain, Option.map_none, Option.map_some,
      Option.toList_none, Option.toList_some, List.flatMap_append, List.flatMap_cons,
      List.flatMap_nil, written_text, List.append_assoc, List.append_nil]

/-- Some item under the key is an object with an address. -/
def givesAddress (obj : Json) (key : String) : Bool :=
  (((obj.get key).bind Json.asArray).getD []).any fun a => ((a.get "email").bind Json.asStr).isSome

theorem isEmpty_addresses (obj : Json) (key : String) :
    (addresses obj key).isEmpty = !givesAddress obj key := by
  unfold addresses givesAddress
  induction ((obj.get key).bind Json.asArray).getD [] with
  | nil => rfl
  | cons a list ih =>
    rw [List.filterMap_cons, List.any_cons]
    unfold renderAddress
    cases (a.get "email").bind Json.asStr with
    | none => exact ih
    | some email => rfl

/-- The names of a composed message, those of the optional fields where they are given. -/
def composedNames (obj : Json) : List String :=
  (if givesAddress obj "from" then ["From"] else []) ++
    (if givesAddress obj "to" then ["To"] else []) ++
    (if givesAddress obj "cc" then ["Cc"] else []) ++
    (if (subjectOf obj).isSome then ["Subject"] else []) ++ ["Date", "MIME-Version", "Content-Type"]

theorem map_name_addrFields (obj : Json) (key label : String) (hlabel) :
    (addrFields obj key label hlabel).map WrittenField.name =
      if givesAddress obj key then [label] else [] := by
  unfold addrFields
  rw [isEmpty_addresses]
  cases givesAddress obj key <;> rfl

theorem map_name_composedFields (obj : Json) :
    (composedFields obj).map WrittenField.name = composedNames obj := by
  unfold composedFields composedNames
  rw [List.map_append, List.map_append, List.map_append, List.map_append, map_name_addrFields,
    map_name_addrFields, map_name_addrFields]
  cases subjectOf obj <;> rfl

theorem splitHeaders_composeMessage (obj : Json) :
    (splitHeaders (composeMessage obj)).1.map Prod.fst = composedNames obj ∧
      (splitHeaders (composeMessage obj)).2 = utf8 (composedBody obj) := by
  rw [composeMessage_eq, ← map_name_composedFields]
  exact splitHeaders_written (List.append_ne_nil_of_right_ne_nil _ (List.cons_ne_nil _ _)) _

end Fields

section ReadBack

/-- A new email is refused, or its bytes are added to the mailbox it goes to. -/
theorem composeEmail_cases {σ : Type} [MailStore σ] (views : Views σ) (store : σ) (obj : Json) :
    (∃ e, composeEmail views store obj = (store, .error e)) ∨
      ∃ mb write flags, MailStore.mailboxMut store (destination store obj) = some (mb, write) ∧
        composeEmail views store obj = (write (mb.append (views.compose obj) flags 0).2,
          .ok (destination store obj, (mb.append (views.compose obj) flags 0).1,
            (views.compose obj).length)) := by
  unfold composeEmail
  dsimp only
  split
  · exact Or.inl ⟨_, rfl⟩
  · cases MailStore.mailboxMut store (destination store obj) with
    | none => exact Or.inl ⟨_, rfl⟩
    | some found => exact Or.inr ⟨found.1, found.2, _, rfl, rfl⟩

/-- What is made for a payload without a header block, and what is composed for a client, is read
back as the fields that were meant and the body that was given: no text put into a field starts
another or ends the header. -/
theorem reader_finds_meant_fields (blake3 : Bytes → Digest) :
    (∀ (payload : Payload) (ts : ℕ), rawHeadersExt payload.headers = none →
      (ParsedMessage.parse (renderRfc5322 blake3 payload ts)).headers.map Prod.fst =
          ["From"] ++ (if payload.headers.thread.isSome then ["References"] else []) ++
            ["Date", "Subject", "Message-ID", "MIME-Version", "Content-Type",
              "Content-Transfer-Encoding"] ∧
        (ParsedMessage.parse (renderRfc5322 blake3 payload ts)).body =
          payload.body ++ if payload.body.getLast? = some 10 then [] else utf8 "\r\n") ∧
    ∀ (σ : Type) [MailStore σ] (views : Views σ) (store : σ) (obj : Json),
      (∃ e, composeEmail { views with compose := composeMessage } store obj = (store, .error e)) ∨
      ∃ mb write flags raw,
        MailStore.mailboxMut store (destination store obj) = some (mb, write) ∧
        composeEmail { views with compose := composeMessage } store obj =
          (write (mb.append raw flags 0).2,
            .ok (destination store obj, (mb.append raw flags 0).1, raw.length)) ∧
        (ParsedMessage.parse raw).headers.map Prod.fst =
          (if givesAddress obj "from" then ["From"] else []) ++
            (if givesAddress obj "to" then ["To"] else []) ++
            (if givesAddress obj "cc" then ["Cc"] else []) ++
            (if (subjectOf obj).isSome then ["Subject"] else []) ++
            ["Date", "MIME-Version", "Content-Type"] ∧
        (ParsedMessage.parse raw).body = utf8 (composedBody obj) := by
  constructor
  · intro payload ts h
    rw [ParsedMessage.headers_parse, ParsedMessage.body_parse]
    exact splitHeaders_renderRfc5322 blake3 h ts
  · intro σ _ views store obj
    rcases composeEmail_cases { views with compose := composeMessage } store obj with
      herror | ⟨mb, write, flags, hmut, hcompose⟩
    · exact Or.inl herror
    · obtain ⟨hnames, hbody⟩ := splitHeaders_composeMessage obj
      rw [composedNames] at hnames
      refine Or.inr ⟨mb, write, flags, composeMessage obj, hmut, hcompose, ?_, ?_⟩
      · rw [ParsedMessage.headers_parse]
        exact hnames
      · rw [ParsedMessage.body_parse]
        exact hbody

/-- A sender's attempt to add a field and to end the header. -/
def hostilePayload : Payload where
  sender := []
  sig := []
  headers :=
    { thread := some [7], subject := some "Hi\r\nBcc: é", mime := some "text/plain\r\n\r\n<html>"
      cc := [], ext := [], sensitive := none }
  body := [66]
  refs := []
  attach := []
  expires := none

/-- The same attempt by a client, in a name, an address and a subject. -/
def hostileObject : Json :=
  .obj [("bodyValues", .obj [("1", .obj [("value", .str "B")])]),
    ("from", .arr [.obj [("email", .str "a@x\r\nBcc: b@x"), ("name", .str "é\r\n\r\nBcc: b@x")]]),
    ("subject", .str "Hi\r\nBcc: é")]

def composing : Views MemoryStore := ⟨composeMessage, fun _ _ _ _ => none⟩

theorem reader_finds_meant_fields_hostile :
    ((ParsedMessage.parse (renderRfc5322 (fun _ => ⟨List.replicate 32 0, rfl⟩) hostilePayload
        0)).headers.map Prod.fst =
          ["From", "References", "Date", "Subject", "Message-ID", "MIME-Version", "Content-Type",
            "Content-Transfer-Encoding"] ∧
      (ParsedMessage.parse (renderRfc5322 (fun _ => ⟨List.replicate 32 0, rfl⟩) hostilePayload
        0)).body = [66] ++ utf8 "\r\n") ∧
    ∃ raw, (composeEmail composing MemoryStore.new hostileObject).2 =
        .ok ("Drafts", 1, raw.length) ∧
      (ParsedMessage.parse raw).headers.map Prod.fst =
        ["From", "Subject", "Date", "MIME-Version", "Content-Type"] ∧
      (ParsedMessage.parse raw).body = utf8 "B" := by
  obtain ⟨hrendered, hcomposed⟩ := reader_finds_meant_fields fun _ => ⟨List.replicate 32 0, rfl⟩
  refine ⟨hrendered hostilePayload 0 rfl, ?_⟩
  have hok : (composeEmail composing MemoryStore.new hostileObject).2.toOption.isSome = true := rfl
  have huid : (MailStore.mailboxMut MemoryStore.new
      (destination MemoryStore.new hostileObject)).map (fun found => found.1.uidNext) = some 1 := rfl
  rcases hcomposed MemoryStore composing MemoryStore.new hostileObject with
    ⟨e, herror⟩ | ⟨mb, write, flags, raw, hmut, hcompose, hnames, hbody⟩
  · change composeEmail composing MemoryStore.new hostileObject = _ at herror
    rw [herror] at hok
    cases hok
  · refine ⟨raw, ?_, hnames, hbody⟩
    change composeEmail composing MemoryStore.new hostileObject = _ at hcompose
    rw [hmut] at huid
    have hfirst : (mb.append raw flags 0).1 = 1 := Option.some.inj huid
    rw [hcompose, hfirst]
    rfl

end ReadBack

end Dmtap.Mail.Jmap
