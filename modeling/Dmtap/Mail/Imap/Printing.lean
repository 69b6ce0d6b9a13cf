import Dmtap.Lib.Nested
import Dmtap.Mail.Imap.Envelope
import Dmtap.Mail.Imap.Listed

/-! Replies as a client takes them apart: tokens, and parentheses around lists of them. What is
printed next to each other is read next to each other, as long as an atom is followed by something
that ends it. -/
namespace Dmtap.Mail.Imap
open Lib

/-- A token other than a parenthesis. -/
inductive Leaf where
  | atom (s : String)
  | quoted (s : String)
  | literal (b : Bytes)
  | lbracket
  | rbracket
  deriving DecidableEq

def Token.mark : Token → Mark Leaf
  | atom s => .leaf (.atom s)
  | quoted s => .leaf (.quoted s)
  | literal b => .leaf (.literal b)
  | lparen => .opening
  | rparen => .closing
  | lbracket => .leaf .lbracket
  | rbracket => .leaf .rbracket

def tokenOf : Mark Leaf → Token
  | .opening => .lparen
  | .closing => .rparen
  | .leaf (.atom s) => .atom s
  | .leaf (.quoted s) => .quoted s
  | .leaf (.literal b) => .literal b
  | .leaf .lbracket => .lbracket
  | .leaf .rbracket => .rbracket

theorem mark_tokenOf (m : Mark Leaf) : (tokenOf m).mark = m := by
  cases m with
  | opening => rfl
  | closing => rfl
  | leaf l => cases l <;> rfl

/-- A reply as a client reads it. -/
def readReply (reply : Bytes) : Option (List (Nested Leaf)) :=
  match tokenize reply with
  | .ok toks => Nested.read (toks.map Token.mark)
  | .error _ => none

def tokensOf (xs : List (Nested Leaf)) : List Token := (Nested.marksAll xs).map tokenOf

/-- No literal is beyond the limit of the reader. -/
def WithinLimits (xs : List (Nested Leaf)) : Prop :=
  ∀ l, Token.literal l ∈ tokensOf xs → l.length ≤ maxLiteralLen

/-- What ends an atom comes next, or nothing. -/
def EndsAtom (b : Bytes) : Prop := ∀ c, b.head? = some c → endsAtom c = true

/-- Bytes that are read as these items, in front of what ends an atom. -/
def Shows (b : Bytes) (xs : List (Nested Leaf)) : Prop :=
  WithinLimits xs → ∀ rest, EndsAtom rest →
    tokenize (b ++ rest) = tokenize rest >>= fun more => .ok (tokensOf xs ++ more)

@[simp] theorem tokensOf_append (xs ys : List (Nested Leaf)) :
    tokensOf (xs ++ ys) = tokensOf xs ++ tokensOf ys := by
  unfold tokensOf
  rw [Nested.marksAll_append, List.map_append]

theorem tokensOf_list (xs : List (Nested Leaf)) :
    tokensOf [.list xs] = .lparen :: (tokensOf xs ++ [.rparen]) := by
  unfold tokensOf
  change ((Mark.opening :: (Nested.marksAll xs ++ [Mark.closing])) ++ []).map tokenOf = _
  rw [List.append_nil, List.map_cons, List.map_append]
  rfl

theorem bind_tokens (p : Parse (List Token)) (ts ts' : List Token) :
    ((p >>= fun more => .ok (ts' ++ more)) >>= fun more => .ok (ts ++ more)) =
      p >>= fun more => .ok ((ts ++ ts') ++ more) := by
  cases p with
  | error e => rfl
  | ok more =>
    change Except.ok (ts ++ (ts' ++ more)) = Except.ok (ts ++ ts' ++ more)
    rw [List.append_assoc]

section Limits
variable {xs ys : List (Nested Leaf)}

theorem WithinLimits.left (h : WithinLimits (xs ++ ys)) : WithinLimits xs := by
  intro l hl
  refine h l ?_
  rw [tokensOf_append]
  exact List.mem_append_left _ hl

theorem WithinLimits.right (h : WithinLimits (xs ++ ys)) : WithinLimits ys := by
  intro l hl
  refine h l ?_
  rw [tokensOf_append]
  exact List.mem_append_right _ hl

theorem WithinLimits.inside (h : WithinLimits [.list xs]) : WithinLimits xs := by
  intro l hl
  refine h l ?_
  rw [tokensOf_list]
  exact List.mem_cons_of_mem _ (List.mem_append_left _ hl)

end Limits

theorem endsAtom_cons {c : UInt8} (b : Bytes) (hc : endsAtom c = true) : EndsAtom (c :: b) := by
  intro d hd
  cases hd
  exact hc

theorem EndsAtom.append {a b : Bytes} (ha : EndsAtom a) (hb : EndsAtom b) : EndsAtom (a ++ b) := by
  cases a with
  | nil => exact hb
  | cons c a => exact endsAtom_cons _ (ha c rfl)

namespace Shows
variable {a b : Bytes} {xs ys : List (Nested Leaf)}

theorem nil : Shows [] [] := by
  intro _ rest _
  cases hrest : tokenize rest with
  | error e =>
    rw [List.nil_append, hrest]
    rfl
  | ok toks =>
    rw [List.nil_append, hrest]
    rfl

theorem append (ha : Shows a xs) (hb : Shows b ys) (hends : EndsAtom b) :
    Shows (a ++ b) (xs ++ ys) := by
  intro hlimits rest hrest
  rw [List.append_assoc, ha hlimits.left _ (hends.append hrest), hb hlimits.right _ hrest,
    bind_tokens, tokensOf_append]

theorem blank (h : Shows b xs) : Shows (32 :: b) xs := by
  intro hlimits rest hrest
  rw [List.cons_append, tokenize_blank _ (by decide)]
  exact h hlimits rest hrest

theorem spaced (ha : Shows a xs) (hb : Shows b ys) : Shows (a ++ 32 :: b) (xs ++ ys) :=
  ha.append hb.blank (endsAtom_cons _ (by decide))

theorem bracket {c : UInt8} {t : Token} {l : Leaf} (hc : bracket c = some t)
    (ht : tokensOf [.leaf l] = [t]) (h : Shows b xs) : Shows (c :: b) (.leaf l :: xs) := by
  intro hlimits rest hrest
  have hsplit : (Nested.leaf l :: xs) = [.leaf l] ++ xs := rfl
  rw [hsplit] at hlimits ⊢
  rw [List.cons_append, tokenize_bracket _ hc, h hlimits.right rest hrest, tokensOf_append, ht]
  exact bind_tokens _ [t] _

theorem list (h : Shows b xs) : Shows (40 :: (b ++ [41])) [.list xs] := by
  intro hlimits rest hrest
  have hclose : tokenize (41 :: rest) = tokenize rest >>= fun more => .ok ([.rparen] ++ more) :=
    tokenize_bracket _ rfl
  rw [List.cons_append, tokenize_bracket _ rfl, List.append_assoc, List.singleton_append,
    h hlimits.inside _ (endsAtom_cons _ (by decide)), hclose, bind_tokens, tokensOf_list]
  exact bind_tokens _ [.lparen] _

end Shows

section Leaves

theorem shows_word {w : Bytes} (hne : w ≠ []) (hw : ∀ b ∈ w, endsAtom b = false) :
    Shows w [.leaf (.atom (fromUtf8Lossy w))] := by
  intro _ rest hrest
  exact tokenize_word hne hw hrest

/-- A text that is an atom as it stands. -/
def IsAtom (s : String) : Prop :=
  s ≠ "" ∧ ∀ c ∈ s.toList, c.toNat < 128 ∧ endsAtom (asciiByte c) = false

instance (s : String) : Decidable (IsAtom s) :=
  inferInstanceAs (Decidable (s ≠ "" ∧ ∀ c ∈ s.toList, _))

/-- A text in which nothing ends an atom. -/
def IsBare (s : String) : Prop := s ≠ "" ∧ ∀ b ∈ utf8 s, endsAtom b = false

instance (s : String) : Decidable (IsBare s) :=
  inferInstanceAs (Decidable (s ≠ "" ∧ ∀ b ∈ utf8 s, _))

theorem IsAtom.isBare {s : String} (h : IsAtom s) : IsBare s := by
  refine ⟨h.1, fun b hb => ?_⟩
  rw [← String.ofList_toList (s := s), utf8_ascii fun c hc => (h.2 c hc).1] at hb
  obtain ⟨c, hc, rfl⟩ := List.mem_map.mp hb
  exact (h.2 c hc).2

theorem IsBare.shows {s : String} (h : IsBare s) : Shows (utf8 s) [.leaf (.atom s)] := by
  have hne : utf8 s ≠ [] := by
    intro hnil
    have htext := fromUtf8Lossy_utf8 s
    rw [hnil] at htext
    exact h.1 htext.symm
  have hword := shows_word hne h.2
  rwa [fromUtf8Lossy_utf8] at hword

theorem shows_atom {s : String} (h : IsAtom s) : Shows (utf8 s) [.leaf (.atom s)] :=
  h.isBare.shows

theorem ascii_of_isDigit {c : Char} (h : c.isDigit = true) :
    c.toNat < 128 ∧ endsAtom (asciiByte c) = false := by
  have hdigit := toNat_of_isDigit h
  have hcode : c.toNat < 128 := by omega
  refine ⟨hcode, ?_⟩
  have hbyte := toNat_asciiByte hcode
  unfold endsAtom
  simp only [Bool.or_eq_false_iff, beq_eq_false_iff_ne, ne_eq, ← UInt8.toNat_inj, hbyte]
  refine ⟨⟨⟨⟨⟨⟨⟨⟨⟨?_, ?_⟩, ?_⟩, ?_⟩, ?_⟩, ?_⟩, ?_⟩, ?_⟩, ?_⟩, ?_⟩ <;> simp <;> omega

theorem isAtom_toString (n : ℕ) : IsAtom (toString n) := by
  constructor
  · intro hempty
    have hnil := congrArg String.toList hempty
    rw [toList_toString] at hnil
    exact Nat.toDigits_ne_nil hnil
  · intro c hc
    rw [toList_toString] at hc
    exact ascii_of_isDigit (isDigit_of_mem_toDigits hc)

instance : DecidablePred Quotable := fun name =>
  inferInstanceAs (Decidable (∀ c ∈ name.toList, _))

/-- A string as it is read: between quotes if it can be, else as a literal. -/
def stringLeaf (s : String) : Leaf := if Quotable s then .quoted s else .literal (utf8 s)

def nstringLeaf : Option String → Leaf
  | none => .atom "NIL"
  | some s => stringLeaf s

theorem shows_literal (data : Bytes) :
    Shows (utf8 ("\x7b" ++ toString data.length ++ "\x7d\r\n") ++ data) [.leaf (.literal data)] := by
  intro hlimits rest _
  have hfit : data.length ≤ maxLiteral := hlimits data List.mem_cons_self
  have hopen : utf8 "\x7b" = [123] := by decide
  have hclose : utf8 "\x7d\r\n" = [125, 13, 10] := by decide
  have hread := readLiteral_introducer false rest hfit
  rw [if_neg Bool.false_ne_true, List.append_nil] at hread
  have hbytes : utf8 ("\x7b" ++ toString data.length ++ "\x7d\r\n") ++ data ++ rest =
      123 :: (utf8 (toString data.length) ++ 125 :: 13 :: 10 :: (data ++ rest)) := by
    rw [utf8_append, utf8_append, hopen, hclose]
    simp only [List.append_assoc, List.cons_append, List.nil_append]
  rw [hbytes, tokenize_literal, hread]
  rfl

theorem shows_string (s : String) : Shows (utf8 (imapString s)) [.leaf (stringLeaf s)] := by
  unfold stringLeaf
  by_cases hquotable : Quotable s
  · rw [if_pos hquotable]
    intro _ rest _
    exact tokenize_imapString hquotable rest
  · rw [if_neg hquotable, imapString_literal hquotable, utf8_append]
    exact shows_literal (utf8 s)

theorem shows_nstring (s : Option String) : Shows (utf8 (nstring s)) [.leaf (nstringLeaf s)] := by
  cases s with
  | none => exact shows_atom (by decide)
  | some s => exact shows_string s

end Leaves

section Rows

theorem intercalate_cons_cons (a b : Bytes) (l : List Bytes) :
    ([32] : Bytes).intercalate (a :: b :: l) = a ++ 32 :: ([32] : Bytes).intercalate (b :: l) := by
  simp [List.intercalate]

/-- What stands in a row with blanks between. -/
theorem shows_row {l : List Bytes} {xss : List (List (Nested Leaf))} (h : List.Forall₂ Shows l xss) :
    Shows ([32].intercalate l) xss.flatten := by
  induction h with
  | nil => exact Shows.nil
  | @cons b xs l xss hb hl ih =>
    cases hl with
    | nil =>
      rw [List.flatten_singleton]
      simpa [List.intercalate] using hb
    | cons hb' hl =>
      rw [intercalate_cons_cons, List.flatten_cons]
      exact hb.spaced ih

theorem utf8_joinWith (l : List String) :
    utf8 (joinWith " " l) = [32].intercalate (l.map utf8) := by
  have hblank : utf8 " " = [32] := by decide
  unfold joinWith
  induction l with
  | nil => rfl
  | cons s l ih =>
    cases l with
    | nil => simp [String.intercalate_singleton, List.intercalate]
    | cons t l =>
      have hrow := intercalate_cons_cons (utf8 s) (utf8 t) (l.map utf8)
      rw [String.intercalate_cons_cons, utf8_append, utf8_append, ih, hblank, List.append_assoc,
        List.singleton_append]
      exact hrow.symm

theorem shows_joinWith {l : List String} {xss : List (List (Nested Leaf))}
    (h : List.Forall₂ (fun s xs => Shows (utf8 s) xs) l xss) :
    Shows (utf8 (joinWith " " l)) xss.flatten := by
  rw [utf8_joinWith]
  exact shows_row (List.forall₂_map_left_iff.mpr h)

end Rows

/-- A reply that is printed as these items is read as these items. -/
theorem Shows.readReply {b : Bytes} {xs : List (Nested Leaf)} (h : Shows b xs)
    (hlimits : WithinLimits xs) : readReply b = some xs := by
  have hnone : EndsAtom [] := fun c hc => nomatch hc
  have htokens := h hlimits [] hnone
  have hmarks : (tokensOf xs).map Token.mark = Nested.marksAll xs := by
    unfold tokensOf
    rw [List.map_map]
    exact (List.map_congr_left fun m _ => mark_tokenOf m).trans (List.map_id _)
  rw [List.append_nil] at htokens
  change tokenize b = Except.ok (tokensOf xs ++ []) at htokens
  unfold Imap.readReply
  rw [htokens, List.append_nil]
  dsimp only
  rw [hmarks]
  exact Nested.read_marksAll xs

end Dmtap.Mail.Imap
