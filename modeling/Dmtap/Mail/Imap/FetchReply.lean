import Dmtap.Mail.BodyStructure
import Dmtap.Mail.DateTimes
import Dmtap.Mail.Imap.Printing

/-! The data of a FETCH reply. Whatever bytes a message is made of, a client reads the reply as the
items that it asked for and as nothing else. -/
namespace Dmtap.Mail.Imap
open Lib

-- The mapping of all of Unicode to capital letters.
variable (uppercase : String → String)

section Rendering

def paramList (params : List (String × String)) : String :=
  if params.isEmpty then "NIL"
  else
    "(" ++ joinWith " " (params.map fun kv =>
      imapString (uppercase kv.1) ++ " " ++ imapString kv.2) ++ ")"

mutual

/-- The tree of a message. `extensible` adds the data behind what is required. -/
def bodyStructure (extensible : Bool) : BodyPart → String
  | .multipart subtype parts params =>
    "(" ++ bodyStructures extensible parts ++ " " ++ imapString (uppercase subtype) ++
      (if extensible then " " ++ paramList uppercase params ++ " NIL NIL NIL" else "") ++ ")"
  | .single mimeType subtype params id description encoding octets lines =>
    "(" ++ joinWith " " [imapString (uppercase mimeType), imapString (uppercase subtype),
      paramList uppercase params, nstring id, nstring description, imapString encoding,
      toString octets] ++ (if mimeType = "text" then " " ++ toString lines else "") ++
      (if extensible then " NIL NIL NIL NIL" else "") ++ ")"

def bodyStructures (extensible : Bool) : List BodyPart → String
  | [] => ""
  | p :: ps => bodyStructure extensible p ++ bodyStructures extensible ps

end

def joinPath (path : List ℕ) : String := joinWith "." (path.map toString)

def sectionLabel : Section → String
  | .full => ""
  | .header => "HEADER"
  | .text => "TEXT"
  | .headerFields fields => "HEADER.FIELDS (" ++ joinWith " " fields ++ ")"
  | .headerFieldsNot fields => "HEADER.FIELDS.NOT (" ++ joinWith " " fields ++ ")"
  | .part path => joinPath path
  | .partMime path => joinPath path ++ ".MIME"

/-- A window of the bytes, and where it starts. -/
def applyPartial (bytes : Bytes) : Option (ℕ × ℕ) → Bytes × Option ℕ
  | none => (bytes, none)
  | some (start, count) =>
    (if bytes.length ≤ start then [] else (bytes.take (min (start + count) bytes.length)).drop start,
      some start)

def literalItem (label : String) (data : Bytes) : Bytes :=
  utf8 (label ++ " ") ++ (utf8 ("\x7b" ++ toString data.length ++ "\x7d\r\n") ++ data)

def originLabel : Option ℕ → String
  | none => ""
  | some o => "<" ++ toString o ++ ">"

/-- An item of FETCH data; missing where the address parser faults. -/
def renderFetchItem (msg : Message) : FetchItem → Option Bytes
  | .flags => some (Datum.wire (.flags msg.flags))
  | .uid => some (Datum.wire (.uid msg.uid))
  | .internalDate => some (utf8 ("INTERNALDATE \"" ++ formatInternalDate msg.internalDate ++ "\""))
  | .rfc822Size => some (utf8 ("RFC822.SIZE " ++ toString msg.raw.length))
  | .envelope => (envelope (ParsedMessage.parse msg.raw)).map fun e => utf8 ("ENVELOPE " ++ e)
  | .bodyStructure =>
    some (utf8 ("BODYSTRUCTURE " ++ bodyStructure uppercase true (structureOf msg.raw)))
  | .body => some (utf8 ("BODY " ++ bodyStructure uppercase false (structureOf msg.raw)))
  | .modSeq => some (Datum.wire (.modseq msg.modseq))
  | .rfc822 => some (literalItem "RFC822" msg.raw)
  | .rfc822Header => some (literalItem "RFC822.HEADER" (headerAndBody msg.raw).1)
  | .rfc822Text => some (literalItem "RFC822.TEXT" (headerAndBody msg.raw).2)
  | .bodySection _ part window =>
    let (data, origin) := applyPartial (extractSection msg.raw part) window
    some (literalItem ("BODY[" ++ sectionLabel part ++ "]" ++ originLabel origin) data)
  | .binary _ path window =>
    let (data, origin) := applyPartial (extractBinary msg.raw path) window
    some (utf8 ("BINARY[" ++ joinPath path ++ "]" ++ originLabel origin ++ " ~") ++
      (utf8 ("\x7b" ++ toString data.length ++ "\x7d\r\n") ++ data))
  | .binarySize path => some (utf8 ("BINARY.SIZE[" ++ joinPath path ++ "] " ++
      toString (extractBinary msg.raw path).length))

/-- Views with the items as they are rendered. -/
def Views.withItems (views : Views) : Views :=
  { views with fetchItem := fun item msg => (renderFetchItem uppercase msg item).getD [] }

end Rendering

section Reading

def atomItem (s : String) : Nested Leaf := .leaf (.atom s)

def numberItem (n : ℕ) : Nested Leaf := atomItem (toString n)

def stringItem (s : String) : Nested Leaf := .leaf (stringLeaf s)

def nstringItem (s : Option String) : Nested Leaf := .leaf (nstringLeaf s)

def nilItem : Nested Leaf := atomItem "NIL"

/-- A list, or `NIL` if it is empty. -/
def listOrNil (items : List (Nested Leaf)) : Nested Leaf := if items.isEmpty then nilItem else .list items

def shownParams (params : List (String × String)) : Nested Leaf :=
  listOrNil (params.flatMap fun kv => [stringItem (uppercase kv.1), stringItem kv.2])

mutual

def shownPart (extensible : Bool) : BodyPart → Nested Leaf
  | .multipart subtype parts params =>
    .list (shownParts extensible parts ++ stringItem (uppercase subtype) ::
      if extensible then [shownParams uppercase params, nilItem, nilItem, nilItem] else [])
  | .single mimeType subtype params id description encoding octets lines =>
    .list ([stringItem (uppercase mimeType), stringItem (uppercase subtype), shownParams uppercase params,
      nstringItem id, nstringItem description, stringItem encoding, numberItem octets] ++
      (if mimeType = "text" then [numberItem lines] else []) ++
      if extensible then [nilItem, nilItem, nilItem, nilItem] else [])

def shownParts (extensible : Bool) : List BodyPart → List (Nested Leaf)
  | [] => []
  | p :: ps => shownPart extensible p :: shownParts extensible ps

end

def shownAddress (a : Address) : Nested Leaf :=
  .list [nstringItem a.name, nstringItem a.adl, nstringItem a.mailbox, nstringItem a.host]

def shownAddrList (addrs : List Address) : Nested Leaf := listOrNil (addrs.map shownAddress)

def headerAddresses (p : ParsedMessage) (name : String) : List Address := (p.addresses name).getD []

/-- The addresses of a header, or those of the author if there is no such header. -/
def addressesOrAuthor (p : ParsedMessage) (name : String) : List Address :=
  headerAddresses p (if (p.header name).isSome then name else "From")

def shownEnvelope (p : ParsedMessage) : Nested Leaf :=
  .list [nstringItem (p.header "Date"), nstringItem (p.header "Subject"),
    shownAddrList (headerAddresses p "From"), shownAddrList (addressesOrAuthor p "Sender"),
    shownAddrList (addressesOrAuthor p "Reply-To"), shownAddrList (headerAddresses p "To"),
    shownAddrList (headerAddresses p "Cc"), shownAddrList (headerAddresses p "Bcc"),
    nstringItem (p.header "In-Reply-To"),
    nstringItem ((p.header "Message-ID").or (p.header "Message-Id"))]

def shownSection : Section → List (Nested Leaf)
  | .full => []
  | .header => [atomItem "HEADER"]
  | .text => [atomItem "TEXT"]
  | .headerFields fields => [atomItem "HEADER.FIELDS", .list (fields.map atomItem)]
  | .headerFieldsNot fields => [atomItem "HEADER.FIELDS.NOT", .list (fields.map atomItem)]
  | .part path => if path = [] then [] else [atomItem (joinPath path)]
  | .partMime path => [atomItem (joinPath path ++ ".MIME")]

def shownOrigin : Option ℕ → List (Nested Leaf)
  | none => []
  | some o => [atomItem ("<" ++ toString o ++ ">")]

/-- What an item tells the client. -/
def shownItem (msg : Message) : FetchItem → List (Nested Leaf)
  | .flags => [atomItem "FLAGS", .list (msg.flags.map fun f => atomItem f.imap)]
  | .uid => [atomItem "UID", numberItem msg.uid]
  | .internalDate => [atomItem "INTERNALDATE", .leaf (.quoted (formatInternalDate msg.internalDate))]
  | .rfc822Size => [atomItem "RFC822.SIZE", numberItem msg.raw.length]
  | .envelope => [atomItem "ENVELOPE", shownEnvelope (ParsedMessage.parse msg.raw)]
  | .bodyStructure => [atomItem "BODYSTRUCTURE", shownPart uppercase true (structureOf msg.raw)]
  | .body => [atomItem "BODY", shownPart uppercase false (structureOf msg.raw)]
  | .modSeq => [atomItem "MODSEQ", .list [numberItem msg.modseq]]
  | .rfc822 => [atomItem "RFC822", .leaf (.literal msg.raw)]
  | .rfc822Header => [atomItem "RFC822.HEADER", .leaf (.literal (headerAndBody msg.raw).1)]
  | .rfc822Text => [atomItem "RFC822.TEXT", .leaf (.literal (headerAndBody msg.raw).2)]
  | .bodySection _ part window =>
    let (data, origin) := applyPartial (extractSection msg.raw part) window
    atomItem "BODY" :: .leaf .lbracket :: (shownSection part ++
      .leaf .rbracket :: (shownOrigin origin ++ [.leaf (.literal data)]))
  | .binary _ path window =>
    let (data, origin) := applyPartial (extractBinary msg.raw path) window
    atomItem "BINARY" :: .leaf .lbracket :: (shownSection (.part path) ++
      .leaf .rbracket :: (shownOrigin origin ++ [atomItem "~", .leaf (.literal data)]))
  | .binarySize path => atomItem "BINARY.SIZE" :: .leaf .lbracket :: (shownSection (.part path) ++
      [.leaf .rbracket, numberItem (extractBinary msg.raw path).length])

/-- The items of a reply, with the UID at the end where the command asks for it by the way. -/
def shownData (items : List FetchItem) (msg : Message) (uidMode : Bool) : List (Nested Leaf) :=
  items.flatMap (shownItem uppercase msg) ++
    if uidMode && !items.contains .uid then [atomItem "UID", numberItem msg.uid] else []

def shownReply (seq : ℕ) (data : List (Nested Leaf)) : List (Nested Leaf) :=
  [atomItem "*", numberItem seq, atomItem "FETCH", .list data]

end Reading

section Fragments
variable {s t : String} {xs ys : List (Nested Leaf)}

theorem utf8_blank : utf8 " " = [32] := by decide

theorem Shows.paren (h : Shows (utf8 t) xs) : Shows (utf8 ("(" ++ t ++ ")")) [.list xs] := by
  have hopen : utf8 "(" = [40] := by decide
  have hclose : utf8 ")" = [41] := by decide
  rw [utf8_append, utf8_append, hopen, hclose, List.append_assoc]
  exact h.list

theorem Shows.words (hs : Shows (utf8 s) xs) (ht : Shows (utf8 t) ys) :
    Shows (utf8 (s ++ " " ++ t)) (xs ++ ys) := by
  rw [utf8_append, utf8_append, utf8_blank, List.append_assoc, List.singleton_append]
  exact hs.spaced ht

/-- A name in front of what it names. -/
theorem Shows.named (hs : IsAtom s) (ht : Shows (utf8 t) xs) :
    Shows (utf8 (s ++ " " ++ t)) (atomItem s :: xs) := (shows_atom hs).words ht

theorem shows_number (n : ℕ) : Shows (utf8 (toString n)) [numberItem n] :=
  shows_atom (isAtom_toString n)

/-- Single items in a row. -/
theorem shows_line {l : List String} (h : List.Forall₂ (fun s x => Shows (utf8 s) [x]) l xs) :
    Shows (utf8 (joinWith " " l)) xs := by
  have hrow : List.Forall₂ (fun s xs => Shows (utf8 s) xs) l (xs.map fun x => [x]) := by
    rw [List.forall₂_map_right_iff]
    exact h
  have hflat : (xs.map fun x => [x]).flatten = xs := by
    rw [← List.flatMap_def]
    exact List.flatMap_singleton' xs
  rw [← hflat]
  exact shows_joinWith hrow

/-- Items of one kind in a row. -/
theorem shows_items {α : Type} {f : α → String} {g : α → List (Nested Leaf)} {l : List α}
    (h : ∀ a ∈ l, Shows (utf8 (f a)) (g a)) : Shows (utf8 (joinWith " " (l.map f))) (l.flatMap g) := by
  have hrow : List.Forall₂ (fun s xs => Shows (utf8 s) xs) (l.map f) (l.map g) := by
    rw [List.forall₂_map_left_iff, List.forall₂_map_right_iff, List.forall₂_same]
    exact h
  exact shows_joinWith hrow

theorem shows_nil : Shows (utf8 "NIL") [nilItem] := shows_atom (by decide)

theorem shows_three_nils : Shows (utf8 " NIL NIL NIL") [nilItem, nilItem, nilItem] := by
  have hrow : utf8 " NIL NIL NIL" = 32 :: utf8 (joinWith " " ["NIL", "NIL", "NIL"]) := by decide
  rw [hrow]
  exact (shows_line (.cons shows_nil (.cons shows_nil (.cons shows_nil .nil)))).blank

theorem shows_four_nils : Shows (utf8 " NIL NIL NIL NIL") [nilItem, nilItem, nilItem, nilItem] := by
  have hrow : utf8 " NIL NIL NIL NIL" = 32 :: utf8 (joinWith " " ["NIL", "NIL", "NIL", "NIL"]) := by
    decide
  rw [hrow]
  exact (shows_line
    (.cons shows_nil (.cons shows_nil (.cons shows_nil (.cons shows_nil .nil))))).blank

theorem shows_params (params : List (String × String)) :
    Shows (utf8 (paramList uppercase params)) [shownParams uppercase params] := by
  have hrow := shows_items (l := params) fun kv _ =>
    (shows_string (uppercase kv.1)).words (shows_string kv.2)
  unfold paramList shownParams listOrNil
  cases params with
  | nil => exact shows_nil
  | cons kv params =>
    rw [if_neg (by simp), if_neg (by simp)]
    exact hrow.paren

end Fragments

section Structures

theorem endsAtom_paren (t : String) : EndsAtom (utf8 ("(" ++ t)) := by
  have hopen : utf8 "(" = [40] := by decide
  rw [utf8_append, hopen]
  exact endsAtom_cons _ (by decide)

theorem endsAtom_blank (t : String) : EndsAtom (utf8 (" " ++ t)) := by
  rw [utf8_append, utf8_blank]
  exact endsAtom_cons _ (by decide)

theorem endsAtom_empty : EndsAtom (utf8 "") := fun _ hc => nomatch hc

theorem endsAtom_bodyStructure (extensible : Bool) (p : BodyPart) :
    EndsAtom (utf8 (bodyStructure uppercase extensible p)) := by
  cases p with
  | multipart subtype parts params =>
    unfold bodyStructure
    simp only [String.append_assoc]
    exact endsAtom_paren _
  | single mimeType subtype params id description encoding octets lines =>
    unfold bodyStructure
    simp only [String.append_assoc]
    exact endsAtom_paren _

theorem endsAtom_bodyStructures (extensible : Bool) (ps : List BodyPart) :
    EndsAtom (utf8 (bodyStructures uppercase extensible ps)) := by
  induction ps with
  | nil => exact endsAtom_empty
  | cons p ps ih =>
    unfold bodyStructures
    rw [utf8_append]
    exact (endsAtom_bodyStructure uppercase extensible p).append ih

mutual

theorem shows_bodyStructure (extensible : Bool) (p : BodyPart) :
    Shows (utf8 (bodyStructure uppercase extensible p)) [shownPart uppercase extensible p] := by
  cases p with
  | multipart subtype parts params =>
    have hmore : Shows (utf8 (if extensible then " " ++ paramList uppercase params ++ " NIL NIL NIL"
        else "")) (if extensible then [shownParams uppercase params, nilItem, nilItem, nilItem]
        else []) := by
      cases extensible with
      | false => exact Shows.nil
      | true =>
        rw [if_pos rfl, if_pos rfl, String.append_assoc, utf8_append, utf8_blank]
        have hrow := (shows_params uppercase params).append shows_three_nils
          (endsAtom_blank "NIL NIL NIL")
        rw [← utf8_append] at hrow
        exact hrow.blank
    have hends : EndsAtom (utf8 (if extensible then " " ++ paramList uppercase params ++
        " NIL NIL NIL" else "")) := by
      cases extensible with
      | false => exact endsAtom_empty
      | true =>
        rw [if_pos rfl, String.append_assoc]
        exact endsAtom_blank _
    have hsubtype := (shows_string (uppercase subtype)).append hmore hends
    rw [← utf8_append] at hsubtype
    have hall := ((shows_bodyStructures extensible parts).words hsubtype).paren
    have htext : bodyStructure uppercase extensible (.multipart subtype parts params) =
        "(" ++ (bodyStructures uppercase extensible parts ++ " " ++ (imapString (uppercase subtype) ++
          (if extensible then " " ++ paramList uppercase params ++ " NIL NIL NIL" else ""))) ++
            ")" := by
      unfold bodyStructure
      simp only [String.append_assoc]
    rw [htext]
    exact hall
  | single mimeType subtype params id description encoding octets lines =>
    have hrow := shows_line (.cons (shows_string (uppercase mimeType))
      (.cons (shows_string (uppercase subtype)) (.cons (shows_params uppercase params)
        (.cons (shows_nstring id) (.cons (shows_nstring description)
          (.cons (shows_string encoding) (.cons (shows_number octets) .nil)))))))
    have hlines : Shows (utf8 (if mimeType = "text" then " " ++ toString lines else ""))
        (if mimeType = "text" then [numberItem lines] else []) := by
      split_ifs
      · rw [utf8_append, utf8_blank]
        exact (shows_number lines).blank
      · exact Shows.nil
    have hlinesEnds : EndsAtom (utf8 (if mimeType = "text" then " " ++ toString lines else "")) := by
      split_ifs
      · exact endsAtom_blank _
      · exact endsAtom_empty
    have hmore : Shows (utf8 (if extensible then " NIL NIL NIL NIL" else ""))
        (if extensible then [nilItem, nilItem, nilItem, nilItem] else []) := by
      cases extensible with
      | false => exact Shows.nil
      | true => exact shows_four_nils
    have hmoreEnds : EndsAtom (utf8 (if extensible then " NIL NIL NIL NIL" else "")) := by
      cases extensible with
      | false => exact endsAtom_empty
      | true => exact endsAtom_blank "NIL NIL NIL NIL"
    have hall := (hrow.append hlines hlinesEnds).append hmore hmoreEnds
    rw [← utf8_append, ← utf8_append] at hall
    have hparen := hall.paren
    rw [← String.append_assoc, ← String.append_assoc] at hparen
    unfold bodyStructure shownPart
    exact hparen

theorem shows_bodyStructures (extensible : Bool) (ps : List BodyPart) :
    Shows (utf8 (bodyStructures uppercase extensible ps)) (shownParts uppercase extensible ps) := by
  cases ps with
  | nil => exact Shows.nil
  | cons p ps =>
    unfold bodyStructures shownParts
    rw [utf8_append]
    exact (shows_bodyStructure extensible p).append (shows_bodyStructures extensible ps)
      (endsAtom_bodyStructures uppercase extensible ps)

end

end Structures

section Envelopes
variable {p : ParsedMessage} {name text : String}

theorem shows_address (a : Address) :
    Shows (utf8 ("(" ++ nstring a.name ++ " " ++ nstring a.adl ++ " " ++ nstring a.mailbox ++ " " ++
      nstring a.host ++ ")")) [shownAddress a] := by
  have hrow := (((shows_nstring a.name).words (shows_nstring a.adl)).words
    (shows_nstring a.mailbox)).words (shows_nstring a.host)
  have hparen := hrow.paren
  simp only [← String.append_assoc] at hparen
  exact hparen

theorem shows_addrList (addrs : List Address) :
    Shows (utf8 (addrList addrs)) [shownAddrList addrs] := by
  unfold addrList shownAddrList listOrNil
  cases addrs with
  | nil => exact shows_nil
  | cons a addrs =>
    rw [if_neg (by simp), if_neg (by simp)]
    refine Shows.paren ?_
    generalize a :: addrs = addrs
    have hjoin (t : String) (l : List String) : joinWith "" (t :: l) = t ++ joinWith "" l := by
      unfold joinWith
      cases l with
      | nil => simp
      | cons u l => rw [String.intercalate_cons_cons, String.append_empty]
    induction addrs with
    | nil => exact Shows.nil
    | cons a addrs ih =>
      rw [List.map_cons, List.map_cons, hjoin, utf8_append]
      refine (shows_address a).append ih ?_
      cases addrs with
      | nil => exact endsAtom_empty
      | cons b addrs =>
        rw [List.map_cons, hjoin]
        simp only [String.append_assoc]
        exact endsAtom_paren _

theorem shows_addresses (h : shownAddresses p name = some text) :
    Shows (utf8 text) [shownAddrList (headerAddresses p name)] := by
  obtain ⟨addrs, haddrs, rfl⟩ := Option.map_eq_some_iff.mp h
  unfold headerAddresses
  rw [haddrs]
  exact shows_addrList addrs

theorem shows_orAuthor {author : String} (hauthor : shownAddresses p "From" = some author)
    (h : shownOrAuthor p author name = some text) :
    Shows (utf8 text) [shownAddrList (addressesOrAuthor p name)] := by
  unfold shownOrAuthor at h
  unfold addressesOrAuthor
  split_ifs at h ⊢
  · exact shows_addresses h
  · cases h
    exact shows_addresses hauthor

theorem shows_envelope (h : envelope p = some text) : Shows (utf8 text) [shownEnvelope p] := by
  unfold envelope at h
  obtain ⟨author, hauthor, h⟩ := Option.bind_eq_some_iff.mp h
  obtain ⟨sender, hsender, h⟩ := Option.bind_eq_some_iff.mp h
  obtain ⟨replyTo, hreplyTo, h⟩ := Option.bind_eq_some_iff.mp h
  obtain ⟨recipients, hrecipients, h⟩ := Option.bind_eq_some_iff.mp h
  obtain ⟨cc, hcc, h⟩ := Option.bind_eq_some_iff.mp h
  obtain ⟨bcc, hbcc, h⟩ := Option.bind_eq_some_iff.mp h
  cases h
  refine Shows.paren (shows_line ?_)
  exact .cons (shows_nstring _) (.cons (shows_nstring _) (.cons (shows_addresses hauthor)
    (.cons (shows_orAuthor hauthor hsender) (.cons (shows_orAuthor hauthor hreplyTo)
      (.cons (shows_addresses hrecipients) (.cons (shows_addresses hcc) (.cons (shows_addresses hbcc)
        (.cons (shows_nstring _) (.cons (shows_nstring _) .nil)))))))))

end Envelopes

section Items

/-- The field names of a section are atoms. -/
def PlainSection : Section → Prop
  | .headerFields fields => ∀ field ∈ fields, IsAtom field
  | .headerFieldsNot fields => ∀ field ∈ fields, IsAtom field
  | _ => True

def PlainItem : FetchItem → Prop
  | .bodySection _ part _ => PlainSection part
  | _ => True

theorem isAtom_append {s t : String} (hs : IsAtom s) (ht : ∀ c ∈ t.toList, c.toNat < 128 ∧
    endsAtom (asciiByte c) = false) : IsAtom (s ++ t) := by
  constructor
  · intro hempty
    have hnil := congrArg String.toList hempty
    rw [String.toList_append] at hnil
    exact hs.1 (String.toList_eq_nil_iff.mp (List.append_eq_nil_iff.mp hnil).1)
  · intro c hc
    rw [String.toList_append, List.mem_append] at hc
    exact hc.elim (hs.2 c) (ht c)

theorem isAtom_joinPath {path : List ℕ} (h : path ≠ []) : IsAtom (joinPath path) := by
  unfold joinPath joinWith
  induction path with
  | nil => exact absurd rfl h
  | cons n path ih =>
    cases path with
    | nil =>
      rw [List.map_singleton, String.intercalate_singleton]
      exact isAtom_toString n
    | cons m path =>
      have hdot : ∀ c ∈ ".".toList, c.toNat < 128 ∧ endsAtom (asciiByte c) = false := by decide
      have hrest := ih (List.cons_ne_nil m path)
      rw [List.map_cons, List.map_cons, String.intercalate_cons_cons]
      rw [List.map_cons] at hrest
      exact isAtom_append (isAtom_append (isAtom_toString n) hdot) hrest.2

theorem shows_fields {name : String} (hname : IsAtom name) {fields : List String}
    (h : ∀ field ∈ fields, IsAtom field) :
    Shows (utf8 (name ++ " " ++ ("(" ++ joinWith " " fields ++ ")")))
      [atomItem name, .list (fields.map atomItem)] := by
  have hrow := shows_items (f := id) fun field hfield => shows_atom (h field hfield)
  rw [List.map_id, ← List.map_eq_flatMap] at hrow
  exact Shows.named hname hrow.paren

theorem shows_section {part : Section} (h : PlainSection part) :
    Shows (utf8 (sectionLabel part)) (shownSection part) := by
  cases part with
  | full => exact Shows.nil
  | header => exact shows_atom (by decide)
  | text => exact shows_atom (by decide)
  | headerFields fields =>
    have hfields := shows_fields (by decide : IsAtom "HEADER.FIELDS") h
    rw [← String.append_assoc, ← String.append_assoc] at hfields
    exact hfields
  | headerFieldsNot fields =>
    have hfields := shows_fields (by decide : IsAtom "HEADER.FIELDS.NOT") h
    rw [← String.append_assoc, ← String.append_assoc] at hfields
    exact hfields
  | part path =>
    change Shows (utf8 (joinPath path)) (if path = [] then [] else [atomItem (joinPath path)])
    split_ifs with hpath
    · rw [hpath]
      exact Shows.nil
    · exact shows_atom (isAtom_joinPath hpath)
  | partMime path =>
    have hmime : IsAtom ".MIME" := by decide
    by_cases hpath : path = []
    · rw [hpath]
      exact shows_atom hmime
    · exact shows_atom (isAtom_append (isAtom_joinPath hpath) hmime.2)

theorem shows_origin (o : Option ℕ) : Shows (utf8 (originLabel o)) (shownOrigin o) := by
  cases o with
  | none => exact Shows.nil
  | some o =>
    have hopen : IsAtom "<" := by decide
    have hclose : IsAtom ">" := by decide
    exact shows_atom (isAtom_append (isAtom_append hopen (isAtom_toString o).2) hclose.2)

/-- A name with a section and an origin. -/
theorem shows_sectioned {name label : String} {xs : List (Nested Leaf)} (hname : IsAtom name)
    (hlabel : Shows (utf8 label) xs) (o : Option ℕ) :
    Shows (utf8 (name ++ "[" ++ label ++ "]" ++ originLabel o))
      (atomItem name :: .leaf .lbracket :: (xs ++ .leaf .rbracket :: shownOrigin o)) := by
  have hopen : utf8 "[" = [91] := by decide
  have hclose : utf8 "]" = [93] := by decide
  have hbehind : Shows (93 :: utf8 (originLabel o)) (.leaf .rbracket :: shownOrigin o) :=
    (shows_origin o).bracket rfl rfl
  have hinside := hlabel.append hbehind (endsAtom_cons _ (by decide))
  have hall := (shows_atom hname).append (hinside.bracket (c := 91) (l := .lbracket) rfl rfl)
    (endsAtom_cons _ (by decide))
  rw [utf8_append, utf8_append, utf8_append, utf8_append, hopen, hclose]
  simp only [List.append_assoc, List.singleton_append]
  exact hall

theorem shows_literalItem {label : String} {xs : List (Nested Leaf)} (h : Shows (utf8 label) xs)
    (data : Bytes) : Shows (literalItem label data) (xs ++ [.leaf (.literal data)]) := by
  unfold literalItem
  rw [utf8_append, utf8_blank, List.append_assoc, List.singleton_append]
  exact h.spaced (shows_literal data)

/-- The characters of a date. -/
theorem mem_formatInternalDate {ms : ℕ} {c : Char} (h : c ∈ (formatInternalDate ms).toList) :
    c.isDigit = true ∨ c ∈ ['-', ' ', ':', '+'] ∨ ∃ m ∈ "" :: months, c ∈ m.toList := by
  have hpadded {w : ℕ} {n : ℤ} (hc : c ∈ (padded w n).toList) : c.isDigit = true := by
    rw [toList_padded] at hc
    exact isDigit_of_mem_leftpad hc
  have hmonth {i : ℕ} (hc : c ∈ (months.getD i "").toList) : ∃ m ∈ "" :: months, c ∈ m.toList := by
    rw [List.getD_eq_getElem?_getD] at hc
    cases hi : months[i]? with
    | none =>
      rw [hi] at hc
      exact ⟨"", List.mem_cons_self, hc⟩
    | some m =>
      rw [hi] at hc
      exact ⟨m, List.mem_cons_of_mem _ (List.mem_of_getElem? hi), hc⟩
  have hzone : " +0000".toList = [' ', '+', '0', '0', '0', '0'] := by decide
  have hdash : "-".toList = ['-'] := by decide
  have hblank : " ".toList = [' '] := by decide
  have hcolon : ":".toList = [':'] := by decide
  unfold formatInternalDate at h
  simp only [String.toList_append, List.mem_append, hzone, hdash, hblank, hcolon,
    List.mem_singleton] at h
  rcases h with ((((((((((h | h) | h) | h) | h) | h) | h) | h) | h) | h) | h) | h
  · exact Or.inl (hpadded h)
  · simp [h]
  · exact Or.inr (Or.inr (hmonth h))
  · simp [h]
  · exact Or.inl (hpadded h)
  · simp [h]
  · exact Or.inl (hpadded h)
  · simp [h]
  · exact Or.inl (hpadded h)
  · simp [h]
  · exact Or.inl (hpadded h)
  · simp only [List.mem_cons, List.not_mem_nil, or_false] at h
    rcases h with rfl | rfl | rfl | rfl | rfl | rfl
    · decide
    · decide
    all_goals decide

/-- Text that stands between quotes as it is. -/
def Unescaped (c : Char) : Prop :=
  (c.toNat < 128 ∧ c ≠ '\r' ∧ c ≠ '\n' ∧ c ≠ Char.ofNat 0) ∧ c ≠ '\\' ∧ c ≠ '"'

instance : DecidablePred Unescaped := fun c =>
  inferInstanceAs (Decidable ((c.toNat < 128 ∧ c ≠ '\r' ∧ c ≠ '\n' ∧ c ≠ Char.ofNat 0) ∧ _))

theorem unescaped_of_isDigit {c : Char} (h : c.isDigit = true) : Unescaped c := by
  obtain ⟨hlow, hhigh⟩ := toNat_of_isDigit h
  refine ⟨⟨by omega, ?_, ?_, ?_⟩, ?_, ?_⟩
  all_goals
    rintro rfl
    revert hlow hhigh
    decide

theorem unescaped_formatInternalDate {ms : ℕ} {c : Char}
    (h : c ∈ (formatInternalDate ms).toList) : Unescaped c := by
  have hmonths : ∀ m ∈ "" :: months, ∀ c ∈ m.toList, Unescaped c := by decide
  have hmarks : ∀ c ∈ ['-', ' ', ':', '+'], Unescaped c := by decide
  rcases mem_formatInternalDate h with h | h | ⟨m, hm, h⟩
  · exact unescaped_of_isDigit h
  · exact hmarks c h
  · exact hmonths m hm c h

theorem shows_quoted {s : String} (h : ∀ c ∈ s.toList, Unescaped c) :
    Shows (utf8 ("\"" ++ s ++ "\"")) [.leaf (.quoted s)] := by
  have hquotable : Quotable s := fun c hc => (h c hc).1
  have hescaped : escaped s.toList = s.toList := by
    unfold escaped
    rw [← List.flatMap_singleton' s.toList]
    conv_lhs => rw [List.flatMap_singleton']
    refine List.flatMap_congr fun c hc => ?_
    rw [if_neg (by simp [(h c hc).2])]
  have hshows := shows_string s
  unfold stringLeaf at hshows
  rwa [if_pos hquotable, imapString_quotable hquotable, hescaped, String.ofList_toList] at hshows

variable {msg : Message} {item : FetchItem} {b : Bytes}

theorem shows_flags {flags : List Flag} (h : ∀ f ∈ flags, IsBare f.imap) :
    Shows (Datum.wire (.flags flags)) [atomItem "FLAGS", .list (flags.map fun f => atomItem f.imap)] := by
  have hrow := shows_items (g := fun f : Flag => [atomItem f.imap]) fun f hf => (h f hf).shows
  rw [← List.map_eq_flatMap] at hrow
  have hnamed := Shows.named (by decide : IsAtom "FLAGS") hrow.paren
  rw [← String.append_assoc, ← String.append_assoc] at hnamed
  exact hnamed

theorem shows_uid (uid : ℕ) : Shows (Datum.wire (.uid uid)) [atomItem "UID", numberItem uid] :=
  Shows.named (by decide : IsAtom "UID") (shows_number uid)

theorem shows_modseq (modseq : ℕ) :
    Shows (Datum.wire (.modseq modseq)) [atomItem "MODSEQ", .list [numberItem modseq]] := by
  have hnamed := Shows.named (by decide : IsAtom "MODSEQ") (shows_number modseq).paren
  rw [← String.append_assoc, ← String.append_assoc] at hnamed
  exact hnamed

theorem shows_crlf : Shows crlf [] := by
  intro _ rest _
  change tokenize (13 :: 10 :: rest) = _
  rw [tokenize_blank _ (by decide), tokenize_blank _ (by decide)]
  cases tokenize rest with
  | ok toks => rfl
  | error e => rfl

/-- An item is read as what it tells. -/
theorem shows_renderFetchItem (hflags : ∀ f ∈ msg.flags, IsAtom f.imap) (hplain : PlainItem item)
    (h : renderFetchItem uppercase msg item = some b) : Shows b (shownItem uppercase msg item) := by
  cases item with
  | flags =>
    cases h
    exact shows_flags fun f hf => (hflags f hf).isBare
  | uid =>
    cases h
    exact shows_uid msg.uid
  | internalDate =>
    cases h
    have hdate := Shows.named (by decide : IsAtom "INTERNALDATE")
      (shows_quoted (s := formatInternalDate msg.internalDate) fun c hc =>
        unescaped_formatInternalDate hc)
    rw [← String.append_assoc, ← String.append_assoc] at hdate
    exact hdate
  | rfc822Size =>
    cases h
    exact Shows.named (by decide : IsAtom "RFC822.SIZE") (shows_number msg.raw.length)
  | envelope =>
    obtain ⟨text, htext, rfl⟩ := Option.map_eq_some_iff.mp h
    exact Shows.named (by decide : IsAtom "ENVELOPE") (shows_envelope htext)
  | bodyStructure =>
    cases h
    exact Shows.named (by decide : IsAtom "BODYSTRUCTURE") (shows_bodyStructure uppercase true _)
  | body =>
    cases h
    exact Shows.named (by decide : IsAtom "BODY") (shows_bodyStructure uppercase false _)
  | rfc822 =>
    cases h
    exact shows_literalItem (shows_atom (by decide : IsAtom "RFC822")) _
  | rfc822Header =>
    cases h
    exact shows_literalItem (shows_atom (by decide : IsAtom "RFC822.HEADER")) _
  | rfc822Text =>
    cases h
    exact shows_literalItem (shows_atom (by decide : IsAtom "RFC822.TEXT")) _
  | modSeq =>
    cases h
    exact shows_modseq msg.modseq
  | bodySection peek part window =>
    cases h
    have hname : "BODY" ++ "[" = "BODY[" := by decide
    have hlabel := shows_sectioned (by decide : IsAtom "BODY") (shows_section hplain)
      (applyPartial (extractSection msg.raw part) window).2
    have hall := shows_literalItem hlabel (applyPartial (extractSection msg.raw part) window).1
    rw [hname] at hall
    simp only [List.cons_append, List.append_assoc] at hall
    exact hall
  | binary peek path window =>
    obtain rfl : utf8 ("BINARY[" ++ joinPath path ++ "]" ++
        originLabel (applyPartial (extractBinary msg.raw path) window).2 ++ " ~") ++
        (utf8 ("\x7b" ++ toString (applyPartial (extractBinary msg.raw path) window).1.length ++
          "\x7d\r\n") ++ (applyPartial (extractBinary msg.raw path) window).1) = b :=
      Option.some.inj h
    have hname : "BINARY" ++ "[" = "BINARY[" := by decide
    have hpath : PlainSection (.part path) := trivial
    have hlabel := shows_sectioned (by decide : IsAtom "BINARY") (shows_section hpath)
      (applyPartial (extractBinary msg.raw path) window).2
    have htilde : utf8 " ~" = [32] ++ utf8 "~" := by decide
    have hopen : utf8 "\x7b" = [123] := by decide
    have hdata := shows_literal (applyPartial (extractBinary msg.raw path) window).1
    have hbehind := (shows_atom (by decide : IsAtom "~")).append hdata (by
      rw [utf8_append, utf8_append, hopen]
      exact endsAtom_cons _ (by decide))
    have hall := hlabel.spaced hbehind
    rw [hname] at hall
    simp only [List.cons_append, List.append_assoc, List.nil_append] at hall
    rw [utf8_append _ " ~", htilde, List.append_assoc, List.append_assoc]
    exact hall
  | binarySize path =>
    cases h
    have hname : "BINARY.SIZE" ++ "[" = "BINARY.SIZE[" := by decide
    have hpath : PlainSection (.part path) := trivial
    have hlabel := shows_sectioned (by decide : IsAtom "BINARY.SIZE") (shows_section hpath) none
    have hall := hlabel.words (shows_number (extractBinary msg.raw path).length)
    have hclose : "] " = "]" ++ originLabel none ++ " " := by decide
    rw [hname] at hall
    rw [hclose]
    simp only [List.cons_append, List.append_assoc, String.append_assoc] at hall ⊢
    exact hall

theorem shows_renderFetchItem_getD (hflags : ∀ f ∈ msg.flags, IsAtom f.imap)
    (hplain : PlainItem item)
    (haddresses : item = .envelope → (envelope (ParsedMessage.parse msg.raw)).isSome = true) :
    Shows ((renderFetchItem uppercase msg item).getD []) (shownItem uppercase msg item) := by
  obtain ⟨b, hb⟩ : ∃ b, renderFetchItem uppercase msg item = some b := by
    cases item with
    | envelope =>
      obtain ⟨e, he⟩ := Option.isSome_iff_exists.mp (haddresses rfl)
      exact ⟨_, congrArg (Option.map fun e => utf8 ("ENVELOPE " ++ e)) he⟩
    | _ => exact ⟨_, rfl⟩
  rw [hb]
  exact shows_renderFetchItem uppercase hflags hplain hb

theorem shows_renderFetchItems (views : Views) {items : List FetchItem} (uidMode : Bool)
    (hflags : ∀ f ∈ msg.flags, IsAtom f.imap) (hplain : ∀ item ∈ items, PlainItem item)
    (haddresses : .envelope ∈ items → (envelope (ParsedMessage.parse msg.raw)).isSome = true) :
    Shows ([32].intercalate ((renderFetchItems (views.withItems uppercase) items msg uidMode).map
      Datum.wire)) (shownData uppercase items msg uidMode) := by
  have hitems (tail : List Datum) (xss : List (List (Nested Leaf)))
      (htail : List.Forall₂ Shows (tail.map Datum.wire) xss) :
      Shows ([32].intercalate ((renderFetchItems (views.withItems uppercase) items msg false ++
        tail).map Datum.wire)) (items.flatMap (shownItem uppercase msg) ++ xss.flatten) := by
    have hall : List.Forall₂ Shows
        ((renderFetchItems (views.withItems uppercase) items msg false).map Datum.wire)
        (items.map (shownItem uppercase msg)) := by
      change List.Forall₂ Shows ((items.map _).map Datum.wire) _
      rw [List.map_map, List.forall₂_map_left_iff, List.forall₂_map_right_iff, List.forall₂_same]
      intro item hitem
      have hshows := shows_renderFetchItem_getD uppercase hflags (hplain item hitem) fun h =>
        haddresses (h ▸ hitem)
      cases item with
      | flags => exact hshows
      | uid => exact hshows
      | modSeq => exact hshows
      | _ => exact hshows
    rw [List.map_append, List.flatMap_def, ← List.flatten_append]
    exact shows_row (List.rel_append hall htail)
  unfold shownData
  by_cases hlast : (uidMode && !items.contains .uid) = true
  · have hdata : renderFetchItems (views.withItems uppercase) items msg uidMode =
        renderFetchItems (views.withItems uppercase) items msg false ++ [.uid msg.uid] := by
      unfold renderFetchItems
      rw [if_pos hlast]
      rfl
    rw [hdata, if_pos hlast]
    exact hitems [.uid msg.uid] [_] (.cons (shows_uid msg.uid) .nil)
  · have hdata : renderFetchItems (views.withItems uppercase) items msg uidMode =
        renderFetchItems (views.withItems uppercase) items msg false := by
      unfold renderFetchItems
      rw [if_neg hlast]
      rfl
    have hnone := hitems [] [] .nil
    rw [List.append_nil] at hnone
    rw [hdata, if_neg hlast]
    exact hnone

theorem shows_fetch {seq : ℕ} {data : List Datum} {xs : List (Nested Leaf)}
    (h : Shows ([32].intercalate (data.map Datum.wire)) xs) :
    Shows (Untagged.wire (.fetch seq data)) (shownReply seq xs) := by
  have hstar : IsAtom "*" := by decide
  have hverb : IsAtom "FETCH" := by decide
  have hname : utf8 ("* " ++ toString seq ++ " FETCH (") =
      utf8 "*" ++ 32 :: (utf8 (toString seq) ++ 32 :: (utf8 "FETCH" ++ 32 :: [40])) := by
    have hfront : utf8 "* " = utf8 "*" ++ [32] := by decide
    have hback : utf8 " FETCH (" = 32 :: (utf8 "FETCH" ++ 32 :: [40]) := by decide
    rw [utf8_append, utf8_append, hfront, hback, List.append_assoc, List.append_assoc]
    rfl
  have hclose : utf8 ")" = [41] := by decide
  have hlist := h.list.append shows_crlf (endsAtom_cons _ (by decide))
  have hall := (shows_atom hstar).spaced ((shows_number seq).spaced ((shows_atom hverb).spaced hlist))
  change Shows (utf8 ("* " ++ toString seq ++ " FETCH (") ++
    [32].intercalate (data.map Datum.wire) ++ utf8 ")" ++ crlf) _
  rw [hname, hclose]
  simp only [List.append_assoc, List.cons_append, List.nil_append] at hall ⊢
  exact hall

end Items

/-- A FETCH reply to a message of any bytes is read as the items that were asked for, in their order,
and as nothing else. -/
theorem fetch_reply_reads_back (views : Views) (seq : ℕ) (msg : Message) (items : List FetchItem)
    (uidMode : Bool) (hflags : ∀ f ∈ msg.flags, IsAtom f.imap) (hplain : ∀ item ∈ items, PlainItem item)
    (haddresses : .envelope ∈ items → (envelope (ParsedMessage.parse msg.raw)).isSome = true)
    (hlimits : WithinLimits (shownReply seq (shownData uppercase items msg uidMode))) :
    readReply (Untagged.wire
        (.fetch seq (renderFetchItems (views.withItems uppercase) items msg uidMode))) =
      some (shownReply seq (shownData uppercase items msg uidMode)) :=
  (shows_fetch (shows_renderFetchItems uppercase views uidMode hflags hplain haddresses)).readReply
    hlimits

theorem withinLimits_of_all {xs : List (Nested Leaf)} (h : (tokensOf xs).all (fun
    | .literal l => l.length ≤ maxLiteralLen
    | _ => true) = true) : WithinLimits xs := by
  intro l hl
  have hfit := List.all_eq_true.mp h _ hl
  exact of_decide_eq_true hfit

/-- A message that looks like the end of its own reply and another one. -/
def forgingMessage : Message where
  uid := 5
  flags := [.seen, .keyword "$Junk"]
  internalDate := 0
  modseq := 3
  createdModseq := 3
  raw := utf8 "a: b\r\n\r\n)\r\n* 1 EXPUNGE\r\n"

theorem fetch_reply_reads_back_forging : readReply (Untagged.wire (.fetch 2 (renderFetchItems
      (Views.blank.withItems String.toUpper) [.flags, .bodySection true .text (some (0, 9))]
      forgingMessage true))) =
    some (shownReply 2 (shownData String.toUpper [.flags, .bodySection true .text (some (0, 9))]
      forgingMessage true)) :=
  fetch_reply_reads_back String.toUpper .blank 2 forgingMessage _ true (by decide)
    (by
      intro item hitem
      simp only [List.mem_cons, List.not_mem_nil, or_false] at hitem
      rcases hitem with rfl | rfl
      · trivial
      · trivial)
    (by decide) (withinLimits_of_all (by decide +kernel))

section Windows

/-- Windows side by side, from `start` on. -/
def windowsFrom : ℕ → List ℕ → List (ℕ × ℕ)
  | _, [] => []
  | start, count :: counts => (start, count) :: windowsFrom (start + count) counts

theorem applyPartial_eq (bytes : Bytes) (start count : ℕ) :
    (applyPartial bytes (some (start, count))).1 = (bytes.drop start).take count := by
  change (if bytes.length ≤ start then []
    else (bytes.take (min (start + count) bytes.length)).drop start) = _
  split_ifs with h
  · rw [List.drop_eq_nil_of_le h, List.take_nil]
  · rw [← List.take_eq_take_min, List.drop_take, Nat.add_sub_cancel_left]

/-- Windows side by side make up what they cover. -/
theorem windows_reassemble (bytes : Bytes) (counts : List ℕ) (start : ℕ) :
    (windowsFrom start counts).flatMap (fun w => (applyPartial bytes (some w)).1) =
      (bytes.drop start).take counts.sum := by
  induction counts generalizing start with
  | nil => exact List.take_zero.symm
  | cons count counts ih =>
    change (applyPartial bytes (some (start, count))).1 ++
      (windowsFrom (start + count) counts).flatMap _ = _
    rw [ih, applyPartial_eq, List.sum_cons, List.take_add, List.drop_drop]

end Windows

end Dmtap.Mail.Imap
