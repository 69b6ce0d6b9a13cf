import Dmtap.Mail.Imap.Fuel

/-! Search programs as a grammar: what a complete key is, and which programs end where a `NOT` or
an `OR` still has a key to come. There, and nowhere else, does the parser index past its tokens. -/
namespace Dmtap.Mail.Imap
open Lib

inductive Form where
  | key
  | keys

/-- A key that takes no key as its argument: the tokens behind its name, and those it leaves. -/
inductive PlainKey : String → List Token → List Token → Prop where
  | simple {name : String} {rest : List Token} (hname : (simpleKey name).isSome) :
    PlainKey name rest rest
  | string {name : String} {arg : Token} {rest : List Token} (hname : (stringKey name).isSome)
    (harg : arg.asStr.isSome) : PlainKey name (arg :: rest) rest
  | header {field val : Token} {rest : List Token} (hfield : field.asStr.isSome)
    (hval : val.asStr.isSome) : PlainKey "HEADER" (field :: val :: rest) rest
  | number {name : String} {arg : Token} {rest : List Token}
    (hname : name = "LARGER" ∨ name = "SMALLER" ∨ name = "MODSEQ")
    (harg : (arg.asStr.bind parseU64).isSome) : PlainKey name (arg :: rest) rest
  | uid {arg : Token} {rest : List Token} (harg : (arg.asStr.bind SequenceSet.parse).isSome) :
    PlainKey "UID" (arg :: rest) rest
  | set {name : String} {rest : List Token} (hsimple : simpleKey name = none)
    (hstring : stringKey name = none)
    (hname : name ∉ ["HEADER", "LARGER", "SMALLER", "MODSEQ", "UID", "NOT", "OR"])
    (hset : (SequenceSet.parse name).isSome) : PlainKey name rest rest

def Named (head : Token) (name : String) : Prop := head.asStr.map String.toUpper = some name

/-- `Reads .key toks rest` finds a complete key in front of `rest`, and `Reads .keys toks []` a
whole program of them. -/
inductive Reads : Form → List Token → List Token → Prop where
  | plain {head : Token} {name : String} {toks rest : List Token} (hhead : Named head name)
    (hkey : PlainKey name toks rest) : Reads .key (head :: toks) rest
  | not {head : Token} {toks rest : List Token} (hhead : Named head "NOT")
    (hkey : Reads .key toks rest) : Reads .key (head :: toks) rest
  | or {head : Token} {toks mid rest : List Token} (hhead : Named head "OR")
    (hleft : Reads .key toks mid) (hright : Reads .key mid rest) : Reads .key (head :: toks) rest
  | group {toks inner rest : List Token}
    (hclose : closeAt .lparen .rparen 1 toks = some (inner, rest)) (hinner : Reads .keys inner []) :
    Reads .key (.lparen :: toks) rest
  | nil : Reads .keys [] []
  | cons {toks rest : List Token} (hkey : Reads .key toks rest) (hkeys : Reads .keys rest []) :
    Reads .keys toks []

/-- A key is missing at the end of `toks`, or of a closed group in it, behind complete keys only. -/
inductive Dangles : Form → List Token → Prop where
  | missing : Dangles .key []
  | not {head : Token} {toks : List Token} (hhead : Named head "NOT") (hkey : Dangles .key toks) :
    Dangles .key (head :: toks)
  | orLeft {head : Token} {toks : List Token} (hhead : Named head "OR")
    (hleft : Dangles .key toks) : Dangles .key (head :: toks)
  | orRight {head : Token} {toks mid : List Token} (hhead : Named head "OR")
    (hleft : Reads .key toks mid) (hright : Dangles .key mid) : Dangles .key (head :: toks)
  | group {toks inner rest : List Token}
    (hclose : closeAt .lparen .rparen 1 toks = some (inner, rest)) (hinner : Dangles .keys inner) :
    Dangles .key (.lparen :: toks)
  | here {toks : List Token} (hne : toks ≠ []) (hkey : Dangles .key toks) : Dangles .keys toks
  | later {toks rest : List Token} (hkey : Reads .key toks rest) (hkeys : Dangles .keys rest) :
    Dangles .keys toks

section Named

/-- What `parse_one` does behind a token with the upper-cased name `kw`. -/
def parseNamed (fuel : ℕ) (kw : String) (rest : List Token) : Parse (SearchKey × List Token) := do
  if let some key := simpleKey kw then return (key, rest)
  if let some key := stringKey kw then
    let (arg, rest) ← firstArg "missing arg" rest
    return (key arg, rest)
  match kw with
  | "HEADER" => do
    let (field, rest) ← firstArg "HEADER field" rest
    let (val, rest) ← firstArg "HEADER value" rest
    .ok (.header field val, rest)
  | "LARGER" => do
    let (arg, rest) ← firstArg "LARGER n" rest
    let n ← orFail (.syntaxError "LARGER number") (parseU64 arg)
    .ok (.larger n, rest)
  | "SMALLER" => do
    let (arg, rest) ← firstArg "SMALLER n" rest
    let n ← orFail (.syntaxError "SMALLER number") (parseU64 arg)
    .ok (.smaller n, rest)
  | "MODSEQ" => do
    let (arg, rest) ← firstArg "MODSEQ n" rest
    let n ← orFail (.syntaxError "MODSEQ number") (parseU64 arg)
    .ok (.modSeq n, rest)
  | "UID" => do
    let (arg, rest) ← firstArg "UID set" rest
    let set ← orFail (.syntaxError "UID set") (SequenceSet.parse arg)
    .ok (.uid set, rest)
  | "NOT" => do
    let (inner, rest) ← parseOne fuel rest
    .ok (.not inner, rest)
  | "OR" => do
    let (a, rest) ← parseOne fuel rest
    let (b, rest) ← parseOne fuel rest
    .ok (.or a b, rest)
  | _ => do
    let set ← orFail (.syntaxError "unknown search key") (SequenceSet.parse kw)
    .ok (.seq set, rest)

theorem parseOne_named {head : Token} {name : String} (fuel : ℕ) (toks : List Token)
    (hhead : Named head name) : parseOne (fuel + 1) (head :: toks) = parseNamed fuel name toks := by
  obtain ⟨s, hs, rfl⟩ := Option.map_eq_some_iff.mp hhead
  cases head with
  | atom t =>
    cases hs
    rfl
  | quoted t =>
    cases hs
    rfl
  | _ => cases hs

theorem parseNamed_not (fuel : ℕ) (toks : List Token) :
    parseNamed fuel "NOT" toks = parseOne fuel toks >>= fun r => .ok (.not r.1, r.2) := rfl

theorem parseNamed_or (fuel : ℕ) (toks : List Token) :
    parseNamed fuel "OR" toks =
      parseOne fuel toks >>= fun l => parseOne fuel l.2 >>= fun r => .ok (.or l.1 r.1, r.2) := rfl

theorem simpleKey_of_stringKey {name : String} (h : (stringKey name).isSome) :
    simpleKey name = none := by
  unfold stringKey at h
  split at h
  all_goals first | rfl | cases h

theorem firstArg_cons {arg : Token} {s : String} (missing : String) (rest : List Token)
    (h : arg.asStr = some s) : firstArg missing (arg :: rest) = .ok (s, rest) := by
  change orFail _ arg.asStr >>= _ = _
  rw [h]
  rfl

theorem argument_parsed {missing : String} {e : ParseError} {α : Type} {arg : Token}
    {rest : List Token} {read : String → Option α} {key : α → SearchKey}
    (harg : (arg.asStr.bind read).isSome) :
    ∃ k, (do
      let (arg, rest) ← firstArg missing (arg :: rest)
      let a ← orFail e (read arg)
      .ok (key a, rest)) = (.ok (k, rest) : Parse (SearchKey × List Token)) := by
  obtain ⟨a, ha⟩ := Option.isSome_iff_exists.mp harg
  obtain ⟨s, hs, hread⟩ := Option.bind_eq_some_iff.mp ha
  refine ⟨key a, ?_⟩
  rw [firstArg_cons _ _ hs]
  change orFail e (read s) >>= _ = _
  rw [hread]
  rfl

theorem PlainKey.parsed {name : String} {toks rest : List Token} (hkey : PlainKey name toks rest)
    (fuel : ℕ) : ∃ key, parseNamed fuel name toks = .ok (key, rest) := by
  cases hkey with
  | simple hname =>
    obtain ⟨key, hkey⟩ := Option.isSome_iff_exists.mp hname
    unfold parseNamed
    rw [hkey]
    exact ⟨key, rfl⟩
  | @string _ arg _ hname harg =>
    obtain ⟨key, hkey⟩ := Option.isSome_iff_exists.mp hname
    obtain ⟨s, hs⟩ := Option.isSome_iff_exists.mp harg
    unfold parseNamed
    rw [simpleKey_of_stringKey hname, hkey, firstArg_cons _ _ hs]
    exact ⟨key s, rfl⟩
  | @header field val _ hfield hval =>
    obtain ⟨f, hf⟩ := Option.isSome_iff_exists.mp hfield
    obtain ⟨v, hv⟩ := Option.isSome_iff_exists.mp hval
    refine ⟨.header f v, ?_⟩
    change firstArg _ (field :: val :: rest) >>= _ = _
    rw [firstArg_cons _ _ hf]
    change firstArg _ (val :: rest) >>= _ = _
    rw [firstArg_cons _ _ hv]
    rfl
  | number hname harg =>
    obtain rfl | rfl | rfl := hname
    · exact argument_parsed harg
    · exact argument_parsed harg
    · exact argument_parsed harg
  | uid harg => exact argument_parsed harg
  | set hsimple hstring hname hset =>
    obtain ⟨set, hset⟩ := Option.isSome_iff_exists.mp hset
    refine ⟨.seq set, ?_⟩
    unfold parseNamed
    rw [hsimple, hstring]
    dsimp only
    split
    · exact absurd (by decide) hname
    · exact absurd (by decide) hname
    · exact absurd (by decide) hname
    · exact absurd (by decide) hname
    · exact absurd (by decide) hname
    · exact absurd (by decide) hname
    · exact absurd (by decide) hname
    · rw [hset]
      rfl

end Named

section Sound

/-- A fault other than an index past the tokens, unless these dangle. -/
def Blames (form : Form) (toks : List Token) (fault : Fault) : Prop :=
  fault = .outOfRange → Dangles form toks

theorem Answers.blames {α : Type} {P : α → Prop} {p : Parse α} {form : Form} {toks : List Token}
    (hp : Answers P p) : Ends P (Blames form toks) p := by
  refine hp.imp_error ?_
  rintro fault ⟨e, rfl⟩ h
  exact Fault.noConfusion h

theorem Blames.of_dangles {form form' : Form} {toks toks' : List Token} {fault : Fault}
    (h : Blames form toks fault) (hdangles : Dangles form toks → Dangles form' toks') :
    Blames form' toks' fault :=
  fun hout => hdangles (h hout)

theorem answers_firstArg_cons (missing : String) (toks : List Token) :
    Answers (fun r => ∃ t, t.asStr = some r.1 ∧ toks = t :: r.2) (firstArg missing toks) := by
  cases toks with
  | nil => exact answers_fail _
  | cons t rest => exact (answers_orFail fun _ h => h).bind fun _ h => ⟨t, h, rfl⟩

theorem answers_argument {missing : String} {e : ParseError} {α : Type} {toks : List Token}
    {read : String → Option α} {key : α → SearchKey} :
    Answers (fun r => ∃ t, (t.asStr.bind read).isSome ∧ toks = t :: r.2) (do
      let (arg, rest) ← firstArg missing toks
      let a ← orFail e (read arg)
      .ok (key a, rest)) := by
  refine (answers_firstArg_cons missing toks).bind ?_
  rintro ⟨arg, rest⟩ ⟨t, ht, rfl⟩
  refine (answers_orFail fun _ h => h).bind fun a ha => ?_
  refine ⟨t, ?_, rfl⟩
  rw [ht]
  exact Option.isSome_of_eq_some ha

theorem parseNamed_reads {fuel : ℕ} {head : Token} {name : String} {toks : List Token}
    (hhead : Named head name)
    (hone : ∀ rest, Ends (fun r => Reads .key rest r.2) (Blames .key rest) (parseOne fuel rest)) :
    Ends (fun r => Reads .key (head :: toks) r.2) (Blames .key (head :: toks))
      (parseNamed fuel name toks) := by
  have hplain : ∀ {p : Parse (SearchKey × List Token)}, Answers (fun r => PlainKey name toks r.2) p →
      Ends (fun r => Reads .key (head :: toks) r.2) (Blames .key (head :: toks)) p :=
    fun hp => Answers.blames (hp.imp_ok fun r h => Reads.plain hhead h)
  have hnumber : ∀ {e : ParseError} {missing : String} {key : ℕ → SearchKey},
      name = "LARGER" ∨ name = "SMALLER" ∨ name = "MODSEQ" →
      Ends (fun r => Reads .key (head :: toks) r.2) (Blames .key (head :: toks)) (do
        let (arg, rest) ← firstArg missing toks
        let n ← orFail e (parseU64 arg)
        .ok (key n, rest)) := by
    intro e missing key hname
    refine hplain (answers_argument.imp_ok ?_)
    rintro r ⟨t, ht, htoks⟩
    rw [htoks]
    exact .number hname ht
  unfold parseNamed
  split
  case h_1 key hkey => exact .plain hhead (.simple (Option.isSome_of_eq_some hkey))
  case h_2 hsimple =>
    dsimp only
    split
    case h_1 key hkey =>
      refine hplain ((answers_firstArg_cons _ toks).bind ?_)
      rintro ⟨arg, rest⟩ ⟨t, ht, rfl⟩
      exact .string (Option.isSome_of_eq_some hkey) (Option.isSome_of_eq_some ht)
    case h_2 hstring =>
      split
      · refine hplain ((answers_firstArg_cons _ toks).bind ?_)
        rintro ⟨field, rest⟩ ⟨t, ht, rfl⟩
        refine (answers_firstArg_cons _ rest).bind ?_
        rintro ⟨val, rest⟩ ⟨t', ht', rfl⟩
        exact .header (Option.isSome_of_eq_some ht) (Option.isSome_of_eq_some ht')
      · exact hnumber (.inl rfl)
      · exact hnumber (.inr (.inl rfl))
      · exact hnumber (.inr (.inr rfl))
      · refine hplain (answers_argument.imp_ok ?_)
        rintro r ⟨t, ht, htoks⟩
        rw [htoks]
        exact .uid ht
      · refine ((hone toks).imp_error fun fault h => h.of_dangles (.not hhead)).bind ?_
        exact fun r h => .not hhead h
      · refine ((hone toks).imp_error fun fault h => h.of_dangles (.orLeft hhead)).bind ?_
        rintro ⟨l, mid⟩ hleft
        refine ((hone mid).imp_error fun fault h =>
          h.of_dangles (.orRight hhead hleft)).bind ?_
        exact fun r hright => .or hhead hleft hright
      · next hheader hlarger hsmaller hmodseq huid hnot hor =>
        refine hplain ((answers_orFail fun _ h => h).bind fun set hset => ?_)
        refine .set (Option.eq_none_iff_forall_ne_some.mpr hsimple)
          (Option.eq_none_iff_forall_ne_some.mpr hstring) ?_ (Option.isSome_of_eq_some hset)
        simp only [List.mem_cons, List.not_mem_nil, or_false, not_or]
        exact ⟨hheader, hlarger, hsmaller, hmodseq, huid, hnot, hor⟩

/-- What the parser gets through is made of complete keys, and where it indexes past its tokens
they dangle. -/
theorem search_reads (fuel : ℕ) :
    (∀ toks, Ends (fun _ => Reads .keys toks []) (Blames .keys toks) (parseSearchKeys fuel toks)) ∧
      ∀ toks, Ends (fun r => Reads .key toks r.2) (Blames .key toks) (parseOne fuel toks) := by
  induction fuel with
  | zero =>
    constructor
    · intro toks
      cases toks with
      | nil => exact .nil
      | cons t toks => exact fun h => Fault.noConfusion h
    · exact fun toks h => Fault.noConfusion h
  | succ fuel ih =>
    obtain ⟨ihkeys, ihone⟩ := ih
    constructor
    · intro toks
      cases toks with
      | nil => exact .nil
      | cons t toks =>
        unfold parseSearchKeys
        refine ((ihone (t :: toks)).imp_error fun fault h =>
          h.of_dangles (.here (List.cons_ne_nil t toks))).bind ?_
        rintro ⟨key, rest⟩ hkey
        refine ((ihkeys rest).imp_error fun fault h => h.of_dangles (.later hkey)).bind ?_
        exact fun keys hkeys => .cons hkey hkeys
    · intro toks
      cases toks with
      | nil => exact fun _ => .missing
      | cons head toks =>
        by_cases hparen : head = .lparen
        · subst hparen
          unfold parseOne
          refine (answers_orFail fun _ h => h).blames.bind ?_
          rintro ⟨inner, rest⟩ hclose
          refine ((ihkeys inner).imp_error fun fault h =>
            h.of_dangles (.group hclose)).bind fun keys hinner => ?_
          split
          · exact .group hclose hinner
          · exact .group hclose hinner
          · exact .group hclose hinner
        · cases hname : head.asStr.map String.toUpper with
          | some name =>
            rw [parseOne_named fuel toks hname]
            exact parseNamed_reads hname ihone
          | none =>
            cases head with
            | atom s => cases hname
            | quoted s => cases hname
            | lparen => exact absurd rfl hparen
            | _ => exact fun h => Fault.noConfusion h

end Sound

section Complete

/-- Whatever the fuel, the parser leaves tokens that satisfy `P` or faults with `Q`. -/
def Settles (P : List Token → Prop) (Q : Fault → Prop) : Form → List Token → Prop
  | .key, toks => ∀ fuel, Ends (fun r => P r.2) Q (parseOne fuel toks)
  | .keys, toks => ∀ fuel, Ends (fun _ => P []) Q (parseSearchKeys fuel toks)

theorem Settles.of_named {P : List Token → Prop} {Q : Fault → Prop} {head : Token} {name : String}
    {toks : List Token} (hhead : Named head name) (hfuel : Q .exhausted)
    (h : ∀ fuel, Ends (fun r => P r.2) Q (parseNamed fuel name toks)) :
    Settles P Q .key (head :: toks) := by
  intro fuel
  cases fuel with
  | zero => exact hfuel
  | succ fuel =>
    rw [parseOne_named fuel toks hhead]
    exact h fuel

theorem Settles.of_group {P : List Token → Prop} {Q : Fault → Prop} {toks inner rest : List Token}
    (hclose : closeAt .lparen .rparen 1 toks = some (inner, rest)) (hfuel : Q .exhausted)
    (h : ∀ fuel, Ends (fun _ => P rest) Q (parseSearchKeys fuel inner)) :
    Settles P Q .key (.lparen :: toks) := by
  intro fuel
  cases fuel with
  | zero => exact hfuel
  | succ fuel =>
    unfold parseOne
    rw [hclose, orFail_some_bind]
    refine (h fuel).bind fun keys hrest => ?_
    split
    · exact hrest
    · exact hrest
    · exact hrest

theorem Settles.of_keys {P : List Token → Prop} {Q : Fault → Prop} {toks : List Token}
    (hne : toks ≠ []) (hfuel : Q .exhausted)
    (h : ∀ fuel, Ends (fun r => Ends (fun _ => P []) Q (parseSearchKeys fuel r.2)) Q
      (parseOne fuel toks)) : Settles P Q .keys toks := by
  intro fuel
  cases toks with
  | nil => exact absurd rfl hne
  | cons t toks =>
    cases fuel with
    | zero => exact hfuel
    | succ fuel =>
      unfold parseSearchKeys
      exact (h fuel).bind fun r hr => hr.bind fun _ h => h

theorem Reads.ne_nil {toks rest : List Token} (h : Reads .key toks rest) : toks ≠ [] := by
  cases h with
  | plain => exact List.cons_ne_nil _ _
  | not => exact List.cons_ne_nil _ _
  | or => exact List.cons_ne_nil _ _
  | group => exact List.cons_ne_nil _ _

/-- Complete keys are parsed, if the fuel lasts. -/
theorem Reads.settles {form : Form} {toks rest : List Token} (h : Reads form toks rest) :
    Settles (· = rest) (· = .exhausted) form toks := by
  induction h with
  | plain hhead hkey =>
    refine .of_named hhead rfl fun fuel => ?_
    obtain ⟨key, hparsed⟩ := hkey.parsed fuel
    rw [hparsed]
    exact .ok rfl
  | not hhead _ ih =>
    refine .of_named hhead rfl fun fuel => ?_
    rw [parseNamed_not]
    exact (ih fuel).bind fun r hr => hr
  | or hhead _ _ ihleft ihright =>
    refine .of_named hhead rfl fun fuel => ?_
    rw [parseNamed_or]
    refine (ihleft fuel).bind fun l hl => ?_
    rw [hl]
    exact (ihright fuel).bind fun r hr => hr
  | group hclose _ ih => exact .of_group hclose rfl fun fuel => (ih fuel).imp_ok fun _ _ => rfl
  | nil =>
    intro fuel
    cases fuel with
    | zero => rfl
    | succ fuel => rfl
  | cons hkey _ ihkey ihkeys =>
    refine .of_keys hkey.ne_nil rfl fun fuel => (ihkey fuel).imp_ok fun r hr => ?_
    rw [hr]
    exact ihkeys fuel

/-- Where a key is missing, the parser indexes past the tokens, if the fuel lasts. -/
theorem Dangles.settles {form : Form} {toks : List Token} (h : Dangles form toks) :
    Settles (fun _ => False) (fun fault => fault = .exhausted ∨ fault = .outOfRange) form toks := by
  have hreads : ∀ {toks rest : List Token}, Reads .key toks rest → ∀ fuel,
      Ends (fun r => r.2 = rest) (fun fault => fault = .exhausted ∨ fault = .outOfRange)
        (parseOne fuel toks) :=
    fun hkey fuel => (hkey.settles fuel).imp_error fun _ h => .inl h
  induction h with
  | missing =>
    intro fuel
    cases fuel with
    | zero => exact .inl rfl
    | succ fuel => exact .inr rfl
  | not hhead _ ih =>
    refine .of_named hhead (.inl rfl) fun fuel => ?_
    rw [parseNamed_not]
    exact (ih fuel).bind fun _ h => h.elim
  | orLeft hhead _ ih =>
    refine .of_named hhead (.inl rfl) fun fuel => ?_
    rw [parseNamed_or]
    exact (ih fuel).bind fun _ h => h.elim
  | orRight hhead hleft _ ih =>
    refine .of_named hhead (.inl rfl) fun fuel => ?_
    rw [parseNamed_or]
    refine (hreads hleft fuel).bind fun l hl => ?_
    rw [hl]
    exact (ih fuel).bind fun _ h => h.elim
  | group hclose _ ih => exact .of_group hclose (.inl rfl) ih
  | here hne _ ih => exact .of_keys hne (.inl rfl) fun fuel => (ih fuel).imp_ok fun _ h => h.elim
  | later hkey _ ih =>
    refine .of_keys hkey.ne_nil (.inl rfl) fun fuel => (hreads hkey fuel).imp_ok fun r hr => ?_
    rw [hr]
    exact ih fuel

end Complete

/-- `parse_search_key` in its two steps. -/
theorem parseSearchKey_eq_bind (toks : List Token) : ∃ f : List SearchKey → SearchKey,
    parseSearchKey toks = parseSearchKeys (2 * toks.length + 2) toks >>= fun keys => .ok (f keys) := by
  cases toks with
  | nil => exact ⟨fun _ => .all, rfl⟩
  | cons t toks =>
    refine ⟨fun keys => if keys.length = 1 then keys.headD .all else .and keys, ?_⟩
    unfold parseSearchKey
    congr 1
    funext keys
    cases keys with
    | nil => rfl
    | cons key keys =>
      cases keys with
      | nil => rfl
      | cons _ _ => rfl

theorem parseSearchKey_outOfRange_iff {toks : List Token} :
    parseSearchKey toks = .error .outOfRange ↔ Dangles .keys toks := by
  obtain ⟨f, hf⟩ := parseSearchKey_eq_bind toks
  constructor
  · intro h
    have hends : Ends (fun _ => True) (Blames .keys toks) (parseSearchKey toks) := by
      rw [hf]
      exact ((search_reads _).1 toks).bind fun _ _ => trivial
    exact hends.of_error h rfl
  · intro h
    have hends : Ends (fun _ => False) (fun fault => fault = .exhausted ∨ fault = .outOfRange)
        (parseSearchKey toks) := by
      rw [hf]
      exact (h.settles _).bind fun _ h => h.elim
    cases hkey : parseSearchKey toks with
    | ok key => exact (hends.of_ok hkey).elim
    | error fault =>
      obtain rfl | rfl := hends.of_error hkey
      · exact absurd hkey (fueled_parseSearchKey toks).ne_exhausted
      · rfl

/-- A command line whose search program ends with a key still to come. -/
def DanglingLine (tokens : List Token) : Prop :=
  ∃ tag name program, tokens[0]?.bind Token.asStr = some tag ∧
    tokens[1]?.bind Token.asStr = some name ∧
    bodyProgram name.toUpper (tokens.drop 2) = some program ∧ Dangles .keys program

theorem Runs.outOfRange_iff {program : Option (List Token)} {p : Parse Command}
    (h : Runs program p) :
    p = .error .outOfRange ↔ ∃ toks, program = some toks ∧ Dangles .keys toks := by
  cases h with
  | plain h =>
    constructor
    · intro hp
      obtain ⟨e, he⟩ := h.of_error hp
      cases he
    · rintro ⟨toks, heq, -⟩
      cases heq
  | search toks command =>
    rw [bind_ok_eq_error_iff, parseSearchKey_outOfRange_iff]
    constructor
    · exact fun h => ⟨toks, rfl, h⟩
    · rintro ⟨toks', heq, h⟩
      cases heq
      exact h

theorem parseTokens_outOfRange_iff {tokens : List Token} :
    parseTokens tokens = .error .outOfRange ↔ DanglingLine tokens := by
  have hfail : ∀ {P : Prop}, (fail .empty : Parse ParsedCommand) = .error .outOfRange → P :=
    fun h => nomatch h
  unfold parseTokens
  cases htag : tokens[0]?.bind Token.asStr with
  | none =>
    constructor
    · exact fun h => hfail h
    · rintro ⟨tag, name, program, htag', -⟩
      cases htag.symm.trans htag'
  | some tag =>
    rw [orFail_some_bind]
    cases hname : tokens[1]?.bind Token.asStr with
    | none =>
      constructor
      · exact fun h => hfail h
      · rintro ⟨tag', name, program, -, hname', -⟩
        cases hname.symm.trans hname'
    | some name =>
      rw [orFail_some_bind, bind_ok_eq_error_iff,
        (runs_parseBody name.toUpper (tokens.drop 2)).outOfRange_iff]
      constructor
      · rintro ⟨program, hprogram, hdangles⟩
        exact ⟨tag, name, program, htag, hname, hprogram, hdangles⟩
      · rintro ⟨tag', name', program, -, hname', hprogram, hdangles⟩
        cases hname.symm.trans hname'
        exact ⟨program, hprogram, hdangles⟩

/-- The parser answers every buffer but those whose search program leaves a key to come. -/
theorem parseCommand_answers_iff (buf : Bytes) :
    ((∃ pc, parseCommand buf = .ok pc) ∨ ∃ e, parseCommand buf = .error (.error e)) ↔
      ¬∃ tokens, tokenize buf = .ok tokens ∧ DanglingLine tokens := by
  have hout : parseCommand buf = .error .outOfRange ↔
      ∃ tokens, tokenize buf = .ok tokens ∧ DanglingLine tokens := by
    unfold parseCommand
    cases htokens : tokenize buf with
    | error fault =>
      obtain ⟨e, rfl⟩ := (answers_tokenize buf).of_error htokens
      constructor
      · exact fun h => nomatch h
      · rintro ⟨tokens, htokens', -⟩
        cases htokens'
    | ok tokens =>
      constructor
      · exact fun h => ⟨tokens, rfl, parseTokens_outOfRange_iff.mp h⟩
      · rintro ⟨tokens', htokens', h⟩
        cases htokens'
        exact parseTokens_outOfRange_iff.mpr h
  rw [← hout]
  constructor
  · rintro (⟨pc, h⟩ | ⟨e, h⟩) h'
    · cases h.symm.trans h'
    · cases h.symm.trans h'
  · intro h
    cases hparse : parseCommand buf with
    | ok pc => exact .inl ⟨pc, rfl⟩
    | error fault =>
      cases fault with
      | error e => exact .inr ⟨e, rfl⟩
      | outOfRange => exact absurd hparse h
      | exhausted => exact absurd hparse (parseCommand_ne_exhausted buf)

theorem parseCommand_answers_not :
    ¬((∃ pc, parseCommand (utf8 "a SEARCH NOT") = .ok pc) ∨
      ∃ e, parseCommand (utf8 "a SEARCH NOT") = .error (.error e)) := by
  have hparse : (parseCommand (utf8 "a SEARCH NOT") >>= fun _ => .ok ()) = .error .outOfRange := by
    decide +kernel
  rw [bind_ok_eq_error_iff.mp hparse]
  rintro (⟨pc, h⟩ | ⟨e, h⟩)
  · cases h
  · cases h

end Dmtap.Mail.Imap
