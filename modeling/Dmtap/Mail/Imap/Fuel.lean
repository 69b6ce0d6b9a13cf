import Mathlib.Data.List.TakeWhile
import Dmtap.Lib.Outcome
import Dmtap.Mail.Imap.Session

/-! The parser never uses up the fuel it hands out: every round of its loops consumes a byte or a
token. All of it but the search programs also stays within its tokens. -/
namespace Dmtap.Mail.Imap
open Lib

/-- A parser whose results satisfy `P` and that fails with an error to answer the client with. -/
abbrev Answers {α : Type} (P : α → Prop) (p : Parse α) : Prop :=
  Ends P (fun fault => ∃ e, fault = Fault.error e) p

/-- A parser that has fuel to the end and whose results satisfy `P`. -/
def Fueled {α : Type} (P : α → Prop) : Parse α → Prop
  | .ok a => P a
  | .error fault => fault ≠ .exhausted

section Rules

variable {α β : Type} {P : α → Prop} {Q : β → Prop} {p : Parse α}

theorem answers_fail (e : ParseError) : Answers P (fail e) := ⟨e, rfl⟩

theorem answers_orFail {e : ParseError} {o : Option α} (h : ∀ a, o = some a → P a) :
    Answers P (orFail e o) := by
  cases o with
  | none => exact answers_fail e
  | some a => exact h a rfl

theorem answers_orFail_true (e : ParseError) (o : Option α) :
    Answers (fun _ => True) (orFail e o) :=
  answers_orFail fun _ _ => trivial

theorem orFail_some_bind (e : ParseError) (a : α) (f : α → Parse β) :
    orFail e (some a) >>= f = f a := rfl

theorem Answers.fueled (hp : Answers P p) : Fueled P p := by
  cases p with
  | ok a => exact hp
  | error fault =>
    obtain ⟨e, rfl⟩ := hp
    exact fun h => Fault.noConfusion h

theorem Fueled.bind {f : α → Parse β} (hp : Fueled P p) (hf : ∀ a, P a → Fueled Q (f a)) :
    Fueled Q (p >>= f) := by
  cases p with
  | ok a => exact hf a hp
  | error fault => exact hp

theorem Fueled.ne_exhausted (hp : Fueled P p) : p ≠ .error .exhausted := by
  rintro rfl
  exact hp rfl

end Rules

section Tokenizer

theorem answers_readQuoted (s : List Char) (buf : Bytes) :
    Answers (fun r => r.2.length ≤ buf.length) (readQuoted s buf) := by
  fun_induction readQuoted s buf with
  | case1 s => exact answers_fail _
  | case2 s rest => exact Nat.le_succ rest.length
  | case3 s c rest ih => exact ih.imp_ok fun r hle => hle.trans (Nat.le_add_right rest.length 2)
  | case4 s c rest _ _ ih => exact ih.imp_ok fun r hle => hle.trans (Nat.le_succ rest.length)

theorem skipByte_length_le (b : UInt8) (buf : Bytes) : (skipByte b buf).length ≤ buf.length := by
  fun_cases skipByte b buf with
  | case1 => exact le_rfl
  | case2 rest => exact Nat.le_succ rest.length
  | case3 c rest => exact le_rfl

theorem answers_readLiteral (buf : Bytes) :
    Answers (fun r => r.2.length ≤ buf.length) (readLiteral buf) := by
  unfold readLiteral
  refine (answers_orFail_true _ _).bind fun n _ => ?_
  have hafter := skipByte_length_le 43 (buf.dropWhile isAsciiDigit)
  have hdigits : (buf.dropWhile isAsciiDigit).length ≤ buf.length :=
    (List.dropWhile_sublist isAsciiDigit).length_le
  split
  case h_1 rest heq =>
    rw [heq] at hafter
    have hcr := skipByte_length_le 13 rest
    have hlf := skipByte_length_le 10 (skipByte 13 rest)
    have hbrace : (125 :: rest).length = rest.length + 1 := rfl
    dsimp only
    split_ifs
    · exact answers_fail _
    · change ((skipByte 10 (skipByte 13 rest)).drop n).length ≤ buf.length
      rw [List.length_drop]
      omega
  case h_2 => exact answers_fail _

theorem readAtom_cons {b : UInt8} (rest : Bytes) (hb : endsAtom b = false) :
    readAtom (b :: rest) = (fromUtf8Lossy (b :: rest.takeWhile fun c => !endsAtom c),
      rest.dropWhile fun c => !endsAtom c) := by
  unfold readAtom
  rw [List.takeWhile_cons_of_pos (by rw [hb]; rfl), List.dropWhile_cons_of_pos (by rw [hb]; rfl)]

theorem readAtom_length_lt {b : UInt8} (rest : Bytes) (hb : endsAtom b = false) :
    (readAtom (b :: rest)).2.length < (b :: rest).length := by
  rw [readAtom_cons rest hb]
  exact Nat.lt_succ_of_le (List.dropWhile_sublist _).length_le

/-- An atom is read from bytes of which none ends it. -/
def Token.Spelled : Token → Prop
  | .atom s => ∃ w : Bytes, w ≠ [] ∧ (∀ b ∈ w, endsAtom b = false) ∧ s = fromUtf8Lossy w
  | _ => True

theorem spelled_readAtom {b : UInt8} (rest : Bytes) (hb : endsAtom b = false) :
    (Token.atom (readAtom (b :: rest)).1).Spelled := by
  rw [readAtom_cons rest hb]
  refine ⟨_, List.cons_ne_nil _ _, fun c hc => ?_, rfl⟩
  obtain rfl | hc := List.mem_cons.mp hc
  · exact hb
  · simpa using List.mem_takeWhile_imp hc

/-- A token in front of what the rest of the input gives. -/
theorem answers_cons {t : Token} {p : Parse (List Token)} (ht : t.Spelled)
    (hp : Answers (fun toks => ∀ t ∈ toks, t.Spelled) p) :
    Answers (fun toks => ∀ t ∈ toks, t.Spelled) (p >>= fun toks => .ok (t :: toks)) :=
  hp.bind fun _ htoks => List.forall_mem_cons.mpr ⟨ht, htoks⟩

theorem answers_tokenizeLoop (fuel : ℕ) (buf : Bytes) (h : buf.length ≤ fuel) :
    Answers (fun toks => ∀ t ∈ toks, t.Spelled) (tokenizeLoop fuel buf) := by
  induction fuel generalizing buf with
  | zero =>
    rw [List.eq_nil_of_length_eq_zero (Nat.le_zero.mp h)]
    exact List.forall_mem_nil _
  | succ fuel ih =>
    cases buf with
    | nil => exact List.forall_mem_nil _
    | cons b rest =>
      have hrest : rest.length ≤ fuel := Nat.le_of_succ_le_succ h
      have hcons := fun t ht => answers_cons (t := t) ht (ih rest hrest)
      unfold tokenizeLoop
      refine iteInduction (fun _ => ih rest hrest) fun hblank => ?_
      refine iteInduction (fun _ => hcons .lparen trivial) fun hopen => ?_
      refine iteInduction (fun _ => hcons .rparen trivial) fun hclose => ?_
      refine iteInduction (fun _ => hcons .lbracket trivial) fun hbracket => ?_
      refine iteInduction (fun _ => hcons .rbracket trivial) fun hclosing => ?_
      refine iteInduction (fun _ => ?_) fun hquote => iteInduction (fun _ => ?_) fun hbrace => ?_
      · refine (answers_readQuoted [] rest).bind fun r hle => ?_
        exact answers_cons trivial (ih r.2 (le_trans hle hrest))
      · refine (answers_readLiteral rest).bind fun r hle => ?_
        exact answers_cons trivial (ih r.2 (le_trans hle hrest))
      · have hatom : endsAtom b = false := by
          simp_all [endsAtom]
        have hlt := readAtom_length_lt rest hatom
        exact answers_cons (spelled_readAtom rest hatom)
          (ih _ (Nat.le_of_lt_succ (lt_of_lt_of_le hlt h)))

theorem answers_tokenize (buf : Bytes) :
    Answers (fun toks => ∀ t ∈ toks, t.Spelled) (tokenize buf) :=
  answers_tokenizeLoop buf.length buf le_rfl

end Tokenizer

section TokenHelpers

theorem length_of_map_cons {o : Option (List Token × List Token)} {t : Token}
    {toks inner rest : List Token} (h : (o.map fun r => (t :: r.1, r.2)) = some (inner, rest))
    (ho : ∀ inner, o = some (inner, rest) → inner.length + rest.length < toks.length) :
    inner.length + rest.length < (t :: toks).length := by
  obtain ⟨⟨inner', rest'⟩, hr, heq⟩ := Option.map_eq_some_iff.mp h
  obtain ⟨rfl, rfl⟩ := Prod.mk.inj heq
  have hlt : inner'.length + rest'.length < toks.length := ho inner' hr
  simp only [List.length_cons]
  omega

theorem closeAt_length {opening closing : Token} {depth : ℕ} {toks inner rest : List Token}
    (h : closeAt opening closing depth toks = some (inner, rest)) :
    inner.length + rest.length < toks.length := by
  fun_induction closeAt opening closing depth toks generalizing inner with
  | case1 => cases h
  | case2 depth toks ih => exact length_of_map_cons h fun _ => ih
  | case3 depth toks hne hle =>
    obtain ⟨rfl, rfl⟩ := Prod.mk.inj (Option.some.inj h)
    simp
  | case4 depth toks hne hle ih => exact length_of_map_cons h fun _ => ih
  | case5 depth t toks hopen hclose ih => exact length_of_map_cons h fun _ => ih

theorem answers_closeAt (e : ParseError) (opening closing : Token) (toks : List Token) :
    Answers (fun r => r.1.length + r.2.length < toks.length)
      (orFail e (closeAt opening closing 1 toks)) :=
  answers_orFail fun _ h => closeAt_length h

theorem answers_readParenTokens (toks : List Token) :
    Answers (fun r => r.1.length + r.2.length < toks.length) (readParenTokens toks) := by
  fun_cases readParenTokens toks with
  | case1 toks =>
    exact answers_orFail fun _ h => (closeAt_length h).trans (Nat.lt_succ_self _)
  | case2 => exact answers_fail _

theorem answers_readParenAtoms (toks : List Token) :
    Answers (fun _ => True) (readParenAtoms toks) :=
  (answers_readParenTokens toks).bind fun _ _ => trivial

theorem answers_atomAt (args : List Token) (i : ℕ) : Answers (fun _ => True) (atomAt args i) :=
  answers_orFail_true _ _

end TokenHelpers

section SearchPrograms

theorem answers_firstArg (missing : String) (toks : List Token) :
    Answers (fun r => r.2.length < toks.length) (firstArg missing toks) := by
  cases toks with
  | nil => exact answers_fail _
  | cons t rest => exact (answers_orFail_true _ _).bind fun _ _ => Nat.lt_succ_self _

/-- A key whose argument is the first token behind its name. -/
theorem fueled_argument {missing : String} {e : ParseError} {α : Type} {n : ℕ} {toks : List Token}
    {read : String → Option α} {key : α → SearchKey} (h : toks.length < n) :
    Fueled (fun r => r.2.length < n) (do
      let (arg, rest) ← firstArg missing toks
      let a ← orFail e (read arg)
      .ok (key a, rest)) := by
  refine (answers_firstArg missing toks).fueled.bind ?_
  rintro ⟨arg, rest⟩ hlt
  exact (answers_orFail_true _ _).fueled.bind fun _ _ => hlt.trans h

theorem fueled_parseOne_succ {fuel : ℕ} {toks : List Token}
    (hkeys : ∀ inner : List Token, inner.length + 2 ≤ toks.length →
      Fueled (fun _ => True) (parseSearchKeys fuel inner))
    (hone : ∀ rest : List Token, rest.length < toks.length →
      Fueled (fun r => r.2.length < rest.length) (parseOne fuel rest)) :
    Fueled (fun r => r.2.length < toks.length) (parseOne (fuel + 1) toks) := by
  unfold parseOne
  split
  case h_1 heq => cases heq
  case h_2 => exact fun h => Fault.noConfusion h
  case h_3 toks heq =>
    cases heq
    refine (answers_closeAt _ .lparen .rparen toks).fueled.bind ?_
    rintro ⟨inner, rest⟩ hlt
    dsimp only at hlt
    simp only [List.length_cons] at hkeys ⊢
    refine (hkeys inner (by omega)).bind fun keys _ => ?_
    have hrest : rest.length < toks.length + 1 := by omega
    split
    · exact hrest
    · exact hrest
    · exact hrest
  case h_4 head rest hne heq =>
    cases heq
    have hrest : rest.length < (head :: rest).length := Nat.lt_succ_self _
    refine (answers_orFail_true _ _).fueled.bind fun kw _ => ?_
    dsimp only
    split
    · exact hrest
    · split
      · exact (answers_firstArg _ rest).fueled.bind fun _ hlt => Nat.lt_trans hlt hrest
      · split
        · refine (answers_firstArg _ rest).fueled.bind ?_
          rintro ⟨field, rest'⟩ hlt
          refine (answers_firstArg _ rest').fueled.bind ?_
          rintro ⟨val, rest''⟩ hlt'
          exact Nat.lt_trans hlt' (Nat.lt_trans hlt hrest)
        · exact fueled_argument hrest
        · exact fueled_argument hrest
        · exact fueled_argument hrest
        · exact fueled_argument hrest
        · exact (hone rest hrest).bind fun _ hlt => Nat.lt_trans hlt hrest
        · refine (hone rest hrest).bind ?_
          rintro ⟨a, rest'⟩ hlt
          have hrest' : rest'.length < (head :: rest).length := Nat.lt_trans hlt hrest
          exact (hone rest' hrest').bind fun _ hlt' => Nat.lt_trans hlt' hrest'
        · exact (answers_orFail_true _ _).fueled.bind fun _ _ => hrest

theorem fueled_search (fuel : ℕ) :
    (∀ toks : List Token, 2 * toks.length + 2 ≤ fuel →
        Fueled (fun _ => True) (parseSearchKeys fuel toks)) ∧
      ∀ toks : List Token, 2 * toks.length + 1 ≤ fuel →
        Fueled (fun r => r.2.length < toks.length) (parseOne fuel toks) := by
  induction fuel with
  | zero => constructor <;> intro toks h <;> omega
  | succ fuel ih =>
    obtain ⟨ihkeys, ihone⟩ := ih
    constructor
    · intro toks h
      cases toks with
      | nil => exact trivial
      | cons t toks =>
        unfold parseSearchKeys
        refine (ihone (t :: toks) (Nat.le_of_succ_le_succ h)).bind ?_
        rintro ⟨key, rest⟩ hlt
        refine (ihkeys rest ?_).bind fun _ _ => trivial
        dsimp only at hlt
        omega
    · intro toks h
      refine fueled_parseOne_succ (fun inner hlen => ihkeys inner ?_) fun rest hlen => ihone rest ?_
      · omega
      · omega

theorem fueled_parseSearchKey (toks : List Token) :
    Fueled (fun _ => True) (parseSearchKey toks) := by
  unfold parseSearchKey
  refine ((fueled_search _).1 toks le_rfl).bind fun keys _ => ?_
  split
  · exact trivial
  · exact trivial
  · exact trivial

end SearchPrograms

section Arguments

theorem answers_parseSelectLoop (fuel : ℕ) (inner : List Token) (qresync : Option QResyncParams)
    (condstore : Bool) (h : inner.length ≤ fuel) :
    Answers (fun _ => True) (parseSelectLoop fuel inner qresync condstore) := by
  induction fuel generalizing inner qresync condstore with
  | zero =>
    rw [List.eq_nil_of_length_eq_zero (Nat.le_zero.mp h)]
    exact trivial
  | succ fuel ih =>
    cases inner with
    | nil => exact trivial
    | cons t inner =>
      have hinner : inner.length ≤ fuel := Nat.le_of_succ_le_succ h
      unfold parseSelectLoop
      split
      · exact ih inner qresync true hinner
      · refine (answers_readParenTokens inner).bind ?_
        rintro ⟨q, rest⟩ hlt
        refine (answers_orFail_true _ _).bind fun uidValidity _ => ?_
        refine (answers_orFail_true _ _).bind fun modseq _ => ?_
        dsimp only at hlt
        exact ih rest _ condstore (by omega)
      · exact ih inner qresync condstore hinner

theorem answers_parseSelectParams (args : List Token) :
    Answers (fun _ => True) (parseSelectParams args) := by
  fun_cases parseSelectParams args with
  | case1 toks =>
    exact (answers_readParenTokens _).bind fun r _ =>
      answers_parseSelectLoop r.1.length r.1 none false le_rfl
  | case2 => exact trivial

theorem answers_parseReturnOpts (args : List Token) :
    Answers (fun _ => True) (parseReturnOpts args) := by
  fun_cases parseReturnOpts args with
  | case1 a rest h => exact (answers_readParenAtoms rest).bind fun _ _ => trivial
  | case2 => exact trivial
  | case3 => exact trivial

theorem answers_parseList (args : List Token) : Answers (fun _ => True) (parseList args) := by
  unfold parseList
  extract_lets rest
  have hrest : ∀ r, Answers (fun _ => True) (rest r) := by
    rintro ⟨selectOpts, args⟩
    refine (answers_atomAt args 0).bind fun reference _ => ?_
    refine (answers_atomAt args 1).bind fun pattern _ => ?_
    exact (answers_parseReturnOpts _).bind fun _ _ => trivial
  split
  · exact (answers_readParenAtoms _).bind fun r _ => hrest r
  · exact hrest ([], args)

theorem answers_parseStatus (args : List Token) : Answers (fun _ => True) (parseStatus args) :=
  (answers_atomAt args 0).bind fun _ _ =>
    (answers_readParenAtoms _).bind fun _ _ => trivial

theorem answers_parseCatParts (fuel : ℕ) (inner : List Token) (h : inner.length ≤ fuel) :
    Answers (fun _ => True) (parseCatParts fuel inner) := by
  induction fuel generalizing inner with
  | zero =>
    rw [List.eq_nil_of_length_eq_zero (Nat.le_zero.mp h)]
    exact trivial
  | succ fuel ih =>
    cases inner with
    | nil => exact trivial
    | cons t inner =>
      have hdrop : (inner.drop 1).length ≤ fuel := by
        rw [List.length_drop]
        exact (Nat.sub_le _ _).trans (Nat.le_of_succ_le_succ h)
      unfold parseCatParts
      split
      · refine (answers_orFail_true _ _).bind fun bytes _ => ?_
        exact (ih (inner.drop 1) hdrop).bind fun _ _ => trivial
      · refine (answers_orFail_true _ _).bind fun url _ => ?_
        exact (ih (inner.drop 1) hdrop).bind fun _ _ => trivial
      · exact answers_fail _

theorem answers_parseAppend (args : List Token) : Answers (fun _ => True) (parseAppend args) := by
  unfold parseAppend
  refine (answers_atomAt args 0).bind fun mailbox _ => ?_
  extract_lets args rest
  have hrest : ∀ r, Answers (fun _ => True) (rest r) := by
    rintro ⟨flags, args⟩
    dsimp only [rest]
    split
    · split_ifs
      · refine (answers_readParenTokens _).bind fun r _ => ?_
        exact (answers_parseCatParts r.1.length r.1 le_rfl).bind fun _ _ => trivial
      · exact trivial
    · exact (answers_orFail_true _ _).bind fun _ _ => trivial
    · exact answers_fail _
  clear_value args
  split
  · exact (answers_readParenAtoms _).bind fun r _ => hrest (r.1.map Flag.parse, r.2)
  · exact hrest ([], args)

theorem answers_parseCreate (args : List Token) : Answers (fun _ => True) (parseCreate args) := by
  unfold parseCreate
  refine (answers_atomAt args 0).bind fun name _ => ?_
  split
  · exact (answers_readParenTokens _).bind fun _ _ => trivial
  · exact trivial

theorem answers_sortCriteria (reverse : Bool) (atoms : List String) :
    Answers (fun _ => True) (sortCriteria reverse atoms) := by
  induction atoms generalizing reverse with
  | nil => exact trivial
  | cons a atoms ih =>
    unfold sortCriteria
    split_ifs
    · exact ih true
    · refine (answers_orFail_true _ _).bind fun key _ => ?_
      exact (ih false).bind fun _ _ => trivial

theorem answers_parseId (args : List Token) : Answers (fun _ => True) (parseId args) := by
  fun_cases parseId args with
  | case1 => exact (answers_readParenTokens _).bind fun _ _ => trivial
  | case2 => exact trivial

end Arguments

section Fetch

theorem answers_sectionFieldList (toks : List Token) :
    Answers (fun _ => True) (sectionFieldList toks) := by
  fun_cases sectionFieldList toks with
  | case1 => exact (answers_readParenTokens _).bind fun _ _ => trivial
  | case2 => exact trivial

theorem answers_parseSection (toks : List Token) : Answers (fun _ => True) (parseSection toks) := by
  unfold parseSection
  split
  · exact trivial
  · dsimp only
    split
    · exact trivial
    · exact trivial
    · exact (answers_sectionFieldList _).bind fun _ _ => trivial
    · exact (answers_sectionFieldList _).bind fun _ _ => trivial
    · split_ifs
      · exact trivial
      · exact trivial
      · exact answers_fail _

theorem takePartial_length_le (toks : List Token) : (takePartial toks).2.length ≤ toks.length := by
  fun_cases takePartial toks with
  | case1 a toks p h => exact Nat.le_succ toks.length
  | case2 a toks h => exact le_rfl
  | case3 toks h => exact le_rfl

/-- What a bracketed section and the window behind it leave is shorter. -/
theorem answers_readSection {β : Type} {n : ℕ} {toks : List Token} {Q : β → Prop}
    {f : List Token × List Token → Section → Parse β} (h : toks.length ≤ n)
    (hf : ∀ r part, r.2.length < n → (takePartial r.2).2.length < n → Answers Q (f r part)) :
    Answers Q (do
      let r ← readBracketTokens toks
      let part ← parseSection r.1
      f r part) := by
  refine (answers_closeAt _ .lbracket .rbracket toks).bind fun r hlt => ?_
  refine (answers_parseSection r.1).bind fun part _ => ?_
  have hrest : r.2.length < n := by omega
  exact hf r part hrest (lt_of_le_of_lt (takePartial_length_le r.2) hrest)

theorem answers_parseOneFetchAtt (toks : List Token) :
    Answers (fun r => r.2.length < toks.length) (parseOneFetchAtt toks) := by
  unfold parseOneFetchAtt
  refine (answers_orFail (P := fun _ => 0 < toks.length) ?_).bind fun head hpos => ?_
  · intro head h
    obtain ⟨t, ht, -⟩ := Option.bind_eq_some_iff.mp h
    exact List.length_pos_of_mem (List.mem_of_getElem? ht)
  · have hdrop : (toks.drop 1).length < toks.length := by
      rw [List.length_drop]
      omega
    dsimp only
    split
    · exact hdrop
    · split
      case isTrue =>
        split
        case h_1 rest heq =>
          rw [heq] at hdrop
          refine answers_readSection (Nat.le_of_succ_le hdrop.le) fun r part hrest hwindow => ?_
          have hitem : ∀ (a b : FetchItem), Answers (fun r => r.2.length < toks.length)
              (if head.toUpper = "BINARY.SIZE" then .ok (a, r.2)
              else .ok (b, (takePartial r.2).2)) := by
            intro a b
            split
            · exact hrest
            · exact hwindow
          split
          · exact hitem _ _
          · exact hitem _ _
          · exact answers_fail _
        case h_2 => exact answers_fail _
      case isFalse =>
        split
        case isTrue =>
          split
          case h_1 rest heq =>
            rw [heq] at hdrop
            exact answers_readSection (Nat.le_of_succ_le hdrop.le) fun _ _ _ hwindow => hwindow
          case h_2 => exact hdrop
        case isFalse => exact answers_fail _

theorem answers_parseFetchAttList (fuel : ℕ) (inner : List Token) (h : inner.length ≤ fuel) :
    Answers (fun _ => True) (parseFetchAttList fuel inner) := by
  induction fuel generalizing inner with
  | zero =>
    rw [List.eq_nil_of_length_eq_zero (Nat.le_zero.mp h)]
    exact trivial
  | succ fuel ih =>
    cases inner with
    | nil => exact trivial
    | cons t inner =>
      refine (answers_parseOneFetchAtt (t :: inner)).bind ?_
      rintro ⟨item, rest⟩ hlt
      refine (ih rest ?_).bind fun _ _ => trivial
      exact Nat.le_of_lt_succ (lt_of_lt_of_le hlt h)

theorem answers_parseFetchItems (args : List Token) :
    Answers (fun _ => True) (parseFetchItems args) := by
  unfold parseFetchItems
  split
  · refine (answers_readParenTokens _).bind fun r _ => ?_
    exact (answers_parseFetchAttList r.1.length r.1 le_rfl).bind fun _ _ => trivial
  · refine (answers_atomAt args 0).bind fun atom _ => ?_
    split
    · exact trivial
    · exact (answers_parseOneFetchAtt args).bind fun _ _ => trivial

theorem answers_parseSet (args : List Token) : Answers (fun _ => True) (parseSet args) :=
  (answers_atomAt args 0).bind fun _ _ => answers_orFail_true _ _

theorem answers_parseFetch (args : List Token) (uid : Bool) :
    Answers (fun _ => True) (parseFetch args uid) := by
  refine (answers_parseSet args).bind fun set _ => ?_
  refine (answers_parseFetchItems _).bind ?_
  rintro ⟨items, rest⟩ -
  dsimp only
  split
  · exact (answers_readParenAtoms _).bind fun _ _ => trivial
  · exact trivial

end Fetch

section Store

theorem answers_parseStore (args : List Token) (uid : Bool) :
    Answers (fun _ => True) (parseStore args uid) := by
  unfold parseStore
  refine (answers_parseSet args).bind fun set _ => ?_
  extract_lets rest
  have hrest : ∀ r, Answers (fun _ => True) (rest r) := by
    rintro ⟨unchangedsince, args⟩
    refine (answers_atomAt args 0).bind fun verb _ => ?_
    refine (answers_orFail_true _ _).bind ?_
    rintro ⟨op, silent⟩ -
    dsimp only
    split
    · exact (answers_readParenAtoms _).bind fun _ _ => trivial
    · exact trivial
  split
  · exact (answers_readParenAtoms _).bind fun r _ => hrest (storeModifiers none r.1, r.2)
  · exact hrest (none, _)

theorem answers_parseCopyMove (args : List Token) (uid isMove : Bool) :
    Answers (fun _ => True) (parseCopyMove args uid isMove) :=
  (answers_parseSet args).bind fun _ _ => (answers_atomAt args 1).bind fun _ _ => trivial

end Store

section Commands

/-- The search program behind the criteria and the charset of `SORT`. -/
def sortProgram (args : List Token) : Option (List Token) := do
  let (atoms, rest) ← (readParenAtoms args).toOption
  let criteria ← (sortCriteria false atoms).toOption
  if criteria.isEmpty then none else some (rest.drop 1)

/-- The search program behind the algorithm and the charset of `THREAD`. -/
def threadProgram (args : List Token) : Option (List Token) :=
  match (args[0]?.bind Token.asStr).map String.toUpper with
  | some "ORDEREDSUBJECT" => some (args.drop 2)
  | some "REFERENCES" => some (args.drop 2)
  | _ => none

def afterReturn : List Token → Option (List Token)
  | .atom a :: rest =>
    if eqIgnoreAsciiCase a "RETURN" then (readParenAtoms rest).toOption.map Prod.snd
    else some (.atom a :: rest)
  | args => some args

def afterCharset : List Token → List Token
  | .atom a :: rest => if eqIgnoreAsciiCase a "CHARSET" then rest.drop 1 else .atom a :: rest
  | args => args

/-- The search program behind the options and the charset of `SEARCH`. -/
def searchProgram (args : List Token) : Option (List Token) := (afterReturn args).map afterCharset

def subProgram : String → List Token → Option (List Token)
  | "SEARCH", args => searchProgram args
  | "SORT", args => sortProgram args
  | "THREAD", args => threadProgram args
  | _, _ => none

/-- The tokens that a command hands to `parse_search_key`, if it comes that far. -/
def bodyProgram : String → List Token → Option (List Token)
  | "UID", args => (args[0]?.bind Token.asStr).bind fun sub => subProgram sub.toUpper (args.drop 1)
  | name, args => subProgram name args

/-- How a command is parsed: with an answer of its own, or by way of its search program. -/
inductive Runs : Option (List Token) → Parse Command → Prop where
  | plain {p : Parse Command} (h : Answers (fun _ => True) p) : Runs none p
  | search (program : List Token) (command : SearchKey → Command) :
    Runs (some program) (parseSearchKey program >>= fun key => .ok (command key))

theorem runs_parseSort (args : List Token) (uid : Bool) :
    Runs (sortProgram args) (parseSort args uid) := by
  unfold sortProgram parseSort
  cases hatoms : readParenAtoms args with
  | error fault => exact .plain ((answers_readParenAtoms args).of_error hatoms)
  | ok r =>
    change Runs ((sortCriteria false r.1).toOption >>= _) (sortCriteria false r.1 >>= _)
    cases hcriteria : sortCriteria false r.1 with
    | error fault => exact .plain ((answers_sortCriteria false r.1).of_error hcriteria)
    | ok criteria =>
      cases criteria with
      | nil => exact .plain (answers_fail _)
      | cons c criteria => exact .search _ _

theorem runs_parseThread (args : List Token) (uid : Bool) :
    Runs (threadProgram args) (parseThread args uid) := by
  unfold parseThread atomAt
  fun_cases threadProgram args with
  | case1 h =>
    obtain ⟨algo, halgo, hupper⟩ := Option.map_eq_some_iff.mp h
    rw [halgo, orFail_some_bind, hupper]
    exact .search _ _
  | case2 h =>
    obtain ⟨algo, halgo, hupper⟩ := Option.map_eq_some_iff.mp h
    rw [halgo, orFail_some_bind, hupper]
    exact .search _ _
  | case3 hordered hreferences =>
    refine .plain ?_
    cases halgo : args[0]?.bind Token.asStr with
    | none => exact answers_fail _
    | some algo =>
      rw [halgo] at hordered hreferences
      rw [orFail_some_bind]
      dsimp only
      split
      · next hupper => exact absurd (congrArg some hupper) hordered
      · next hupper => exact absurd (congrArg some hupper) hreferences
      · exact answers_fail _

theorem runs_parseSearch (args : List Token) (uid : Bool) :
    Runs (searchProgram args) (parseSearch args uid) := by
  unfold searchProgram parseSearch
  extract_lets rest
  have hrest : ∀ ret args, Runs (some (afterCharset args)) (rest (ret, args)) := by
    intro ret args
    dsimp only [rest]
    fun_cases afterCharset args with
    | case1 a toks h =>
      dsimp only
      rw [if_pos h]
      exact .search _ _
    | case2 a toks h =>
      dsimp only
      rw [if_neg h]
      exact .search _ _
    | case3 args hatom =>
      split
      · exact absurd rfl (hatom _ _)
      · exact .search _ _
  fun_cases afterReturn args with
  | case1 a toks h =>
    dsimp only
    rw [if_pos h]
    cases hatoms : readParenAtoms toks with
    | error fault => exact .plain ((answers_readParenAtoms toks).of_error hatoms)
    | ok r => exact hrest _ _
  | case2 a toks h =>
    dsimp only
    rw [if_neg h]
    exact hrest _ _
  | case3 args hatom =>
    split
    · exact absurd rfl (hatom _ _)
    · exact hrest _ _

theorem runs_parseUid (args : List Token) : Runs (bodyProgram "UID" args) (parseUid args) := by
  change Runs ((args[0]?.bind Token.asStr).bind fun sub => subProgram sub.toUpper (args.drop 1)) _
  unfold parseUid atomAt
  cases args[0]?.bind Token.asStr with
  | none => exact .plain (answers_fail _)
  | some sub =>
    change Runs (subProgram sub.toUpper (args.drop 1)) _
    rw [orFail_some_bind]
    fun_cases subProgram sub.toUpper (args.drop 1) with
    | case1 => exact runs_parseSearch _ true
    | case2 => exact runs_parseSort _ true
    | case3 => exact runs_parseThread _ true
    | case4 name args hsearch hsort hthread =>
      refine .plain ?_
      split
      · exact answers_parseFetch _ true
      · exact answers_parseStore _ true
      · exact absurd rfl hsearch
      · exact absurd rfl hsort
      · exact absurd rfl hthread
      · exact answers_parseCopyMove _ true false
      · exact answers_parseCopyMove _ true true
      · exact (answers_parseSet _).bind fun _ _ => trivial
      · exact answers_fail _

theorem bodyProgram_eq_none {name : String} (args : List Token) (hsearch : name ≠ "SEARCH")
    (hsort : name ≠ "SORT") (hthread : name ≠ "THREAD") (huid : name ≠ "UID") :
    bodyProgram name args = none := by
  fun_cases bodyProgram name args with
  | case1 => exact absurd rfl huid
  | case2 name args =>
    fun_cases subProgram name args with
    | case1 => exact absurd rfl hsearch
    | case2 => exact absurd rfl hsort
    | case3 => exact absurd rfl hthread
    | case4 => rfl

theorem runs_parseBody (name : String) (args : List Token) :
    Runs (bodyProgram name args) (parseBody name args) := by
  have harg : ∀ {β : Type} {i : ℕ} {f : String → Parse β},
      (∀ a, Answers (fun _ => True) (f a)) → Answers (fun _ => True) (atomAt args i >>= f) :=
    fun hf => (answers_atomAt args _).bind fun a _ => hf a
  unfold parseBody
  split
  · exact .plain trivial
  · exact .plain trivial
  · exact .plain trivial
  · exact .plain trivial
  · exact .plain trivial
  · exact .plain trivial
  · exact .plain trivial
  · exact .plain trivial
  · exact .plain trivial
  · exact .plain trivial
  · exact .plain trivial
  · exact .plain (harg fun _ => harg fun _ => trivial)
  · exact .plain (harg fun _ => trivial)
  · exact .plain (harg fun _ => (answers_parseSelectParams _).bind fun _ _ => trivial)
  · exact .plain (harg fun _ => (answers_parseSelectParams _).bind fun _ _ => trivial)
  · exact .plain (answers_parseCreate args)
  · exact .plain (harg fun _ => trivial)
  · exact .plain (harg fun _ => harg fun _ => trivial)
  · exact .plain (harg fun _ => trivial)
  · exact .plain (harg fun _ => trivial)
  · exact .plain (answers_parseList args)
  · exact .plain (harg fun _ => harg fun _ => trivial)
  · exact .plain (answers_parseStatus args)
  · exact .plain (answers_parseAppend args)
  · exact .plain (answers_parseId args)
  · exact runs_parseSearch args false
  · exact runs_parseSort args false
  · exact runs_parseThread args false
  · exact .plain (answers_parseFetch args false)
  · exact .plain (answers_parseStore args false)
  · exact .plain (answers_parseCopyMove args false false)
  · exact .plain (answers_parseCopyMove args false true)
  · exact runs_parseUid args
  · next hsearch hsort hthread _ _ _ _ huid =>
    rw [bodyProgram_eq_none args hsearch hsort hthread huid]
    exact .plain (answers_fail _)

theorem Runs.fueled {program : Option (List Token)} {p : Parse Command} (h : Runs program p) :
    Fueled (fun _ => True) p := by
  cases h with
  | plain h => exact h.fueled
  | search program command => exact (fueled_parseSearchKey program).bind fun _ _ => trivial

theorem fueled_parseTokens (tokens : List Token) :
    Fueled (fun _ => True) (parseTokens tokens) :=
  (answers_orFail_true _ _).fueled.bind fun _ _ =>
    (answers_orFail_true _ _).fueled.bind fun name _ =>
      (runs_parseBody name.toUpper (tokens.drop 2)).fueled.bind fun _ _ => trivial

theorem parseCommand_ne_exhausted (buf : Bytes) : parseCommand buf ≠ .error .exhausted :=
  ((answers_tokenize buf).fueled.bind fun tokens _ => fueled_parseTokens tokens).ne_exhausted

end Commands

/-- The one input left unanswered is a command line that makes the parser index past its tokens. -/
theorem Session.process_eq_none_iff {σ : Type} [MailStore σ] {views : Views} {s : Session σ}
    {buf : Bytes} :
    s.process views buf = none ↔
      s.idleTag = none ∧ s.pending = none ∧ parseCommand buf = .error .outOfRange := by
  unfold process
  cases hidle : s.idleTag with
  | some tag =>
    dsimp only
    split_ifs
    · simp
    · simp
  | none =>
    cases hpending : s.pending with
    | some p => simp
    | none =>
      dsimp only
      cases hparse : parseCommand buf with
      | ok pc => simp
      | error fault =>
        cases fault with
        | error e => simp
        | outOfRange => simp
        | exhausted => exact absurd hparse (parseCommand_ne_exhausted buf)

end Dmtap.Mail.Imap
