import Dmtap.Mail.Imap.Framing
import Dmtap.Mail.Imap.States

/-! Mailbox names as LIST prints them, sent back in a SELECT command. A name is printed between
quotes or, with other bytes in it, as a literal, and SELECT reads its mailbox from an atom or a
quoted string. -/
namespace Dmtap.Mail.Imap
open Lib

section Printed

/-- ASCII without carriage returns, line feeds and zeros. -/
def Quotable (name : String) : Prop :=
  ∀ c ∈ name.toList, c.toNat < 128 ∧ c ≠ '\r' ∧ c ≠ '\n' ∧ c ≠ Char.ofNat 0

def escaped (cs : List Char) : List Char :=
  cs.flatMap fun c => if c = '\\' || c = '"' then ['\\', c] else [c]

theorem needsLiteral_iff (name : String) :
    ((utf8 name).any fun b => b == 13 || b == 10 || b == 0 || 0x80 ≤ b) = true ↔
      ¬ Quotable name := by
  have hmem : ∀ c : Char, c.toNat < 128 → (asciiByte c ∈ utf8 name ↔ c ∈ name.toList) := by
    intro c hc
    rw [utf8_toList]
    exact keepsAscii_utf8.mem_flatMap_iff hc
  rw [List.any_eq_true]
  constructor
  · rintro ⟨b, hb, hspecial⟩ hquotable
    simp only [Bool.or_eq_true, beq_iff_eq, decide_eq_true_eq] at hspecial
    rcases hspecial with ((rfl | rfl) | rfl) | hlarge
    · exact (hquotable '\r' ((hmem '\r' (by decide)).mp hb)).2.1 rfl
    · exact (hquotable '\n' ((hmem '\n' (by decide)).mp hb)).2.2.1 rfl
    · exact (hquotable (Char.ofNat 0) ((hmem (Char.ofNat 0) (by decide)).mp hb)).2.2.2 rfl
    · have hascii : utf8 name = name.toList.map asciiByte := by
        rw [← utf8_ascii fun c hc => (hquotable c hc).1, String.ofList_toList]
      rw [hascii] at hb
      obtain ⟨c, hc, rfl⟩ := List.mem_map.mp hb
      have hlt := (hquotable c hc).1
      have hle := UInt8.le_iff_toNat_le.mp hlarge
      rw [toNat_asciiByte hlt] at hle
      exact absurd hle (Nat.not_le.mpr hlt)
  · intro hnot
    obtain ⟨c, hc, hbad⟩ := not_forall₂.mp hnot
    by_cases hascii : c.toNat < 128
    · refine ⟨asciiByte c, (hmem c hascii).mpr hc, ?_⟩
      have hspecial : c = '\r' ∨ c = '\n' ∨ c = Char.ofNat 0 := by
        by_contra hplain
        exact hbad ⟨hascii, by tauto⟩
      rcases hspecial with rfl | rfl | rfl
      · decide
      · decide
      · decide
    · obtain ⟨b, bs, hbytes⟩ := List.exists_cons_of_ne_nil (keepsAscii_utf8.ne_nil c)
      have hb : b ∈ String.utf8EncodeChar c := hbytes ▸ List.mem_cons_self
      refine ⟨b, ?_, ?_⟩
      · rw [utf8_toList]
        exact List.mem_flatMap.mpr ⟨c, hc, hb⟩
      · have hlarge := keepsAscii_utf8.other c (Nat.le_of_not_lt hascii) b hb
        have hle : (0x80 : UInt8) ≤ b := UInt8.le_iff_toNat_le.mpr hlarge
        simp [hle]

theorem imapString_quotable {name : String} (h : Quotable name) :
    imapString name = "\"" ++ String.ofList (escaped name.toList) ++ "\"" := by
  unfold imapString
  by_cases hempty : name = ""
  · subst hempty
    decide
  · rw [if_neg hempty, if_neg (mt (needsLiteral_iff name).mp (not_not.mpr h))]
    rfl

theorem imapString_literal {name : String} (h : ¬ Quotable name) : imapString name =
    "\x7b" ++ toString (utf8 name).length ++ "\x7d\r\n" ++ name := by
  have hempty : name ≠ "" := by
    rintro rfl
    exact h (by simp [Quotable])
  unfold imapString
  rw [if_neg hempty, if_pos ((needsLiteral_iff name).mpr h)]

end Printed

section Read

theorem asciiByte_ne {c d : Char} (hc : c.toNat < 128) (hd : d.toNat < 128) (h : c ≠ d) :
    asciiByte c ≠ asciiByte d := by
  intro heq
  have hcode := congrArg UInt8.toNat heq
  rw [toNat_asciiByte hc, toNat_asciiByte hd] at hcode
  exact h (Char.toNat_inj.mp hcode)

/-- By induction on the text, with what has been read so far as it is. -/
theorem readQuoted_escaped {cs : List Char} (h : ∀ c ∈ cs, c.toNat < 128) (acc : List Char)
    (rest : Bytes) : readQuoted acc ((escaped cs).map asciiByte ++ 34 :: rest) =
      .ok (String.ofList (acc.reverse ++ cs), rest) := by
  induction cs generalizing acc with
  | nil =>
    rw [List.append_nil]
    rfl
  | cons c cs ih =>
    have hc := h c List.mem_cons_self
    have hrest := ih (fun d hd => h d (List.mem_cons_of_mem c hd)) (c :: acc)
    have hacc : (c :: acc).reverse ++ cs = acc.reverse ++ c :: cs := by simp
    rw [hacc] at hrest
    have hescaped : escaped (c :: cs) =
        (if c = '\\' || c = '"' then ['\\', c] else [c]) ++ escaped cs := rfl
    rw [hescaped, List.map_append, List.append_assoc]
    by_cases hspecial : (decide (c = '\\') || decide (c = '"')) = true
    · rw [if_pos hspecial]
      have hbackslash : asciiByte '\\' = 92 := by decide
      simp only [List.map_cons, List.map_nil, List.cons_append, List.nil_append, hbackslash]
      rw [← hrest]
      change readQuoted (latin1 (asciiByte c) :: acc) _ = _
      rw [latin1_asciiByte hc]
    · rw [if_neg hspecial]
      simp only [Bool.or_eq_true, decide_eq_true_eq, not_or] at hspecial
      have hescape : asciiByte c ≠ asciiByte '\\' := asciiByte_ne hc (by decide) hspecial.1
      have hquote : asciiByte c ≠ asciiByte '"' := asciiByte_ne hc (by decide) hspecial.2
      simp only [List.map_cons, List.map_nil, List.cons_append, List.nil_append]
      rw [readQuoted_plain _ _ hquote hescape, latin1_asciiByte hc, hrest]

theorem utf8_imapString {name : String} (h : Quotable name) :
    utf8 (imapString name) = 34 :: ((escaped name.toList).map asciiByte ++ [34]) := by
  have hescaped : ∀ c ∈ escaped name.toList, c.toNat < 128 := by
    intro c hc
    obtain ⟨d, hd, hcd⟩ := List.mem_flatMap.mp hc
    have hlt := (h d hd).1
    split_ifs at hcd with hspecial
    · simp only [List.mem_cons, List.not_mem_nil, or_false] at hcd
      rcases hcd with rfl | rfl
      · decide
      · exact hlt
    · rw [List.mem_singleton.mp hcd]
      exact hlt
  have hquote : utf8 "\"" = [34] := by decide
  rw [imapString_quotable h, utf8_append, utf8_append, utf8_ascii hescaped, hquote]
  rfl

theorem tokenize_imapString {name : String} (h : Quotable name) (rest : Bytes) :
    tokenize (utf8 (imapString name) ++ rest) =
      tokenize rest >>= fun toks => .ok (.quoted name :: toks) := by
  have hread := readQuoted_escaped (fun c hc => (h c hc).1) [] rest
  rw [List.reverse_nil, List.nil_append, String.ofList_toList] at hread
  rw [utf8_imapString h, List.cons_append, List.append_assoc, List.singleton_append,
    tokenize_quote, hread]
  rfl

/-- A literal is no mailbox for SELECT. -/
theorem atomAt_imapString {name : String} (h : ¬ Quotable name) {toks : List Token}
    (htoks : tokenize (utf8 (imapString name)) = .ok toks) :
    atomAt toks 0 = syntaxFault "missing argument" := by
  have hbrace : utf8 "\x7b" = [123] := by decide
  rw [imapString_literal h, utf8_append, utf8_append, utf8_append, hbrace, List.append_assoc,
    List.append_assoc, List.singleton_append, tokenize_literal] at htoks
  obtain ⟨r, -, hbind⟩ := exists_of_bind_eq_ok htoks
  obtain ⟨more, -, heq⟩ := exists_of_bind_eq_ok hbind
  cases heq
  rfl

theorem tokenize_word {w rest : Bytes} (hne : w ≠ []) (hw : ∀ b ∈ w, endsAtom b = false)
    (hrest : ∀ b, rest.head? = some b → endsAtom b = true) :
    tokenize (w ++ rest) = tokenize rest >>= fun toks => .ok (.atom (fromUtf8Lossy w) :: toks) := by
  obtain ⟨b, a, rfl⟩ := List.exists_cons_of_ne_nil hne
  have hread := readAtom_append hw hrest
  rw [List.cons_append, tokenize_atom _ (hw b List.mem_cons_self), ← List.cons_append, hread]

end Read

section Selected

/-- A SELECT command with the bytes that LIST prints for a name. -/
def selectLine (tag : Bytes) (name : String) : Bytes :=
  tag ++ (utf8 " SELECT " ++ (utf8 (imapString name) ++ utf8 "\r\n"))

/-- A tag that is one atom. -/
def IsTag (tag : Bytes) : Prop := tag ≠ [] ∧ ∀ b ∈ tag, endsAtom b = false

namespace Session
variable {σ : Type}

/-- Logged in, and waiting for a command. -/
structure Ready (s : Session σ) : Prop where
  idle : s.idleTag = none
  pending : s.pending = none
  login : s.identity.isSome = true

variable [MailStore σ]

theorem cmdSelect_selects (s : Session σ) (tag : String) {name : String} {mb : Mailbox}
    (h : MailStore.mailbox s.store name = some mb) :
    (s.cmdSelect tag name false false none).1.selected = some name ∧
      (s.cmdSelect tag name false false none).1.state = .selected := by
  unfold cmdSelect
  rw [h]
  exact ⟨rfl, rfl⟩

theorem dispatch_select (views : Views) {s : Session σ} (hs : s.Ready) (tag : String) {name : String}
    {mb : Mailbox} (h : MailStore.mailbox s.store name = some mb) :
    (s.dispatch views ⟨tag, .select name none false⟩).1.selected = some name ∧
      (s.dispatch views ⟨tag, .select name none false⟩).1.state = .selected := by
  have hstore : MailStore.mailbox s.selfHeal.store name = some mb := by
    rw [s.quiet_selfHeal.store]
    exact h
  have hlogin : ¬ s.selfHeal.identity.isNone = true := by
    obtain ⟨ik, hik⟩ := Option.isSome_iff_exists.mp hs.login
    rw [selfHeal_identity, hik]
    exact Bool.false_ne_true
  have hdispatch : s.dispatch views ⟨tag, .select name none false⟩ =
      if s.selfHeal.identity.isNone then (s.selfHeal, [no tag "Not authenticated"])
      else s.selfHeal.cmdSelect tag name false false none := rfl
  rw [hdispatch, if_neg hlogin]
  exact s.selfHeal.cmdSelect_selects tag hstore

end Session

theorem tokenize_selectLine {tag : Bytes} (htag : IsTag tag) {name : String} (h : Quotable name) :
    tokenize (selectLine tag name) =
      .ok [.atom (fromUtf8Lossy tag), .atom "SELECT", .quoted name] := by
  have hverb : utf8 " SELECT " = 32 :: (utf8 "SELECT" ++ [32]) := by decide
  have hword : fromUtf8Lossy (utf8 "SELECT") = "SELECT" := by decide +kernel
  have hbytes : utf8 "SELECT" = [83, 69, 76, 69, 67, 84] := by decide
  have hplain : ∀ b ∈ utf8 "SELECT", endsAtom b = false := by
    rw [hbytes]
    simp [endsAtom]
  have hend : tokenize (utf8 "\r\n") = .ok [] := by decide
  unfold selectLine
  rw [hverb, tokenize_word htag.1 htag.2 (by simp [endsAtom]), List.cons_append,
    tokenize_blank _ (by decide), List.append_assoc,
    tokenize_word (by decide) hplain (by simp [endsAtom]), List.singleton_append,
    tokenize_blank _ (by decide), tokenize_imapString h, hend, hword]
  rfl

theorem parseCommand_selectLine {tag : Bytes} (htag : IsTag tag) {name : String}
    (h : Quotable name) :
    parseCommand (selectLine tag name) = .ok ⟨fromUtf8Lossy tag, .select name none false⟩ := by
  have hupper : "SELECT".toUpper = "SELECT" := by decide +kernel
  unfold parseCommand
  rw [tokenize_selectLine htag h]
  change parseBody "SELECT".toUpper [.quoted name] >>= _ = _
  rw [hupper]
  rfl

/-- What LIST prints for a name is read back as the name, and selects the mailbox in every store that
has it. -/
def Reopens (name : String) : Prop :=
  (∃ toks, tokenize (utf8 (imapString name)) = .ok toks ∧ atomAt toks 0 = .ok name) ∧
    ∀ (σ : Type) [MailStore σ] (views : Views) (s : Session σ) (tag : Bytes), s.Ready → IsTag tag →
      (MailStore.mailbox s.store name).isSome = true →
        ∃ s' out, s.process views (selectLine tag name) = some (s', out) ∧
          s'.selected = some name ∧ s'.state = .selected

theorem reopens_iff (name : String) : Reopens name ↔ Quotable name := by
  constructor
  · rintro ⟨⟨toks, htoks, hread⟩, -⟩
    by_contra h
    rw [atomAt_imapString h htoks] at hread
    cases hread
  · intro h
    constructor
    · have htoks := tokenize_imapString h []
      rw [List.append_nil] at htoks
      exact ⟨_, htoks, rfl⟩
    · intro σ _ views s tag hs htag hmailbox
      obtain ⟨mb, hmb⟩ := Option.isSome_iff_exists.mp hmailbox
      have hprocess : s.process views (selectLine tag name) =
          some (s.dispatch views ⟨fromUtf8Lossy tag, .select name none false⟩) := by
        unfold Session.process
        rw [hs.idle, hs.pending]
        dsimp only
        rw [parseCommand_selectLine htag h]
      exact ⟨_, _, hprocess, Session.dispatch_select views hs _ hmb⟩

theorem reopens_umlaut : ¬ Reopens "Entwürfe" := by
  have hnot : ¬ Quotable "Entwürfe" := by
    intro h
    exact absurd (h 'ü' (by decide)).1 (by decide)
  rintro ⟨⟨toks, htoks, hread⟩, -⟩
  rw [atomAt_imapString hnot htoks] at hread
  cases hread

end Selected

end Dmtap.Mail.Imap
