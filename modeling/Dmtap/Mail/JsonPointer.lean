import Dmtap.Mail.Jmap

/-! Result references against the pointers of RFC 6901, extended by `*` on arrays. Both are walks
along the pointer's tokens that differ in what a token names. -/
namespace Dmtap.Mail.Jmap
open Lib

section Walks

/-- Where a token leads: to one value, or to each item of an array. -/
inductive Next where
  | one (value : Json)
  | each (items : List Json)

/-- What an item adds to the result of `*`. Arrays are flattened and failures left out. -/
def spread : Option Json → List Json
  | some (.arr inner) => inner
  | some v => [v]
  | none => []

def follow (f : Json → Option Json) : Option Next → Option Json
  | none => none
  | some (.one value) => f value
  | some (.each items) => some (.arr (items.flatMap fun item => spread (f item)))

/-- The walk along some tokens. -/
def walk (step : String → Json → Option Next) : List String → Json → Option Json
  | [], value => some value
  | token :: tokens, value => follow (walk step tokens) (step token value)

theorem follow_congr {f g : Json → Option Json} {next : Option Next}
    (hone : ∀ value, next = some (.one value) → f value = g value)
    (heach : ∀ items, next = some (.each items) → ∀ item ∈ items, f item = g item) :
    follow f next = follow g next := by
  cases next with
  | none => rfl
  | some next =>
    cases next with
    | one value => exact hone value rfl
    | each items =>
      have hitems : items.flatMap (fun item => spread (f item)) =
          items.flatMap fun item => spread (g item) :=
        List.flatMap_congr fun item hitem => by rw [heach items rfl item hitem]
      rw [follow, hitems, follow]

end Walks

section Rfc

/-- A token with `~1` and `~0` replaced; any other `~` is an error. -/
def unescapeChars : List Char → Option (List Char)
  | [] => some []
  | [c] => if c = '~' then none else some [c]
  | c :: d :: cs =>
    if c = '~' then
      if d = '0' then (unescapeChars cs).map ('~' :: ·)
      else if d = '1' then (unescapeChars cs).map ('/' :: ·)
      else none
    else (unescapeChars (d :: cs)).map (c :: ·)

def unescape (token : String) : Option String := (unescapeChars token.toList).map String.ofList

/-- An array index, without a sign or leading zeros. -/
def arrayIndex (token : String) : Option ℕ :=
  if token ≠ "" ∧ token.toList.all Char.isDigit ∧ (token.toList.head? = some '0' → token = "0") then
    some (token.toList.foldl (fun n c => n * 10 + (c.toNat - 48)) 0)
  else none

/-- A token names a member of an object or an index of an array; `*` stands for all indices. -/
def rfcStep (token : String) : Json → Option Next
  | .arr items =>
    if token = "*" then some (.each items)
    else ((arrayIndex token).bind fun i => items[i]?).map .one
  | .obj members => (members.lookup token).map .one
  | _ => none

def IsPointer (path : String) : Prop := path = "" ∨ path.toList.head? = some '/'

instance (path : String) : Decidable (IsPointer path) :=
  inferInstanceAs (Decidable (path = "" ∨ path.toList.head? = some '/'))

/-- The tokens of a pointer as they are written. -/
def pointerTokens (path : String) : List String :=
  if path = "" then [] else split '/' (String.ofList path.toList.tail)

/-- What a pointer evaluates to. -/
def rfc6901 (value : Json) (path : String) : Option Json :=
  if IsPointer path then ((pointerTokens path).mapM unescape).bind fun tokens =>
    walk rfcStep tokens value
  else none

example : (rfc6901 (.obj [("a/b", .arr [.null, .str "x"])]) "/a~1b/1").bind Json.asStr = some "x" := by
  decide +kernel

end Rfc

section Code

/-- A token as it stands, where `*` is for arrays only and an index is any number that parses. -/
def codeStep (token : String) (value : Json) : Option Next :=
  if token = "*" then value.asArray.map .each
  else
    (match value with
    | .obj m => m.lookup token
    | .arr a => (parseU64 token).bind fun i => a[i]?
    | _ => none).map .one

section Steps
variable {token : String} {members : Members} {items : List Json}

theorem rfcStep_obj : rfcStep token (.obj members) = (members.lookup token).map .one := rfl

theorem rfcStep_arr (h : token ≠ "*") :
    rfcStep token (.arr items) = ((arrayIndex token).bind fun i => items[i]?).map .one :=
  if_neg h

theorem codeStep_obj (h : token ≠ "*") :
    codeStep token (.obj members) = (members.lookup token).map .one :=
  if_neg h

theorem codeStep_arr (h : token ≠ "*") :
    codeStep token (.arr items) = ((parseU64 token).bind fun i => items[i]?).map .one :=
  if_neg h

end Steps

/-- The tokens walked along. A slash goes with the empty token in front of it, where one may be
stripped, and an empty token at the end goes with the slash in front of it. -/
def trodden : Bool → List String → List String
  | _, [] => []
  | strip, token :: tokens =>
    if token = "" ∧ (strip = true ∨ tokens = []) then trodden false tokens
    else token :: trodden true tokens

/-- What is done once a slash at the front is stripped. -/
def evalStripped (fuel : ℕ) (value : Json) (path : String) : Option Json :=
  if path = "" then some value
  else
    let (token, rest) := (splitOnce '/' path).getD (path, "")
    if token = "*" then
      value.asArray.map fun items =>
        .arr (items.flatMap fun item =>
          match evalPointer fuel item rest with
          | some (.arr inner) => inner
          | some v => [v]
          | none => [])
    else
      let next :=
        match value with
        | .obj m => m.lookup token
        | .arr a => (parseU64 token).bind fun i => a[i]?
        | _ => none
      next.bind fun next => if rest = "" then some next else evalPointer fuel next rest

theorem evalPointer_succ (fuel : ℕ) (value : Json) (path : String) :
    evalPointer (fuel + 1) value path =
      evalStripped fuel value ((stripPrefix "/" path).getD path) := rfl

theorem evalPointer_empty {fuel : ℕ} (hfuel : 0 < fuel) (value : Json) :
    evalPointer fuel value "" = some value := by
  obtain ⟨fuel, rfl⟩ := Nat.exists_eq_succ_of_ne_zero hfuel.ne'
  rfl

theorem evalStripped_eq {fuel : ℕ} (hfuel : 0 < fuel) {path token rest : String} (hpath : path ≠ "")
    (hsplit : (splitOnce '/' path).getD (path, "") = (token, rest)) (value : Json) :
    evalStripped fuel value path =
      follow (fun next => evalPointer fuel next rest) (codeStep token value) := by
  unfold evalStripped codeStep
  rw [if_neg hpath, hsplit]
  dsimp only
  by_cases hstar : token = "*"
  · rw [if_pos hstar, if_pos hstar]
    cases value.asArray with
    | none => rfl
    | some items => rfl
  · have hrest : (fun next : Json => if rest = "" then some next else evalPointer fuel next rest) =
        fun next => evalPointer fuel next rest := by
      funext next
      by_cases hempty : rest = ""
      · rw [if_pos hempty, hempty, evalPointer_empty hfuel]
      · rw [if_neg hempty]
    rw [if_neg hstar, if_neg hstar, hrest]
    generalize (match value with
      | .obj m => m.lookup token
      | .arr a => (parseU64 token).bind fun i => a[i]?
      | _ => none) = next
    cases next with
    | none => rfl
    | some next => rfl

theorem ofList_ne_empty {cs : List Char} (h : cs ≠ []) : String.ofList cs ≠ "" := by
  intro heq
  exact h (String.ofList_injective heq)

theorem trodden_cons {strip : Bool} {token : String} {tokens : List String}
    (h : ¬(token = "" ∧ (strip = true ∨ tokens = []))) :
    trodden strip (token :: tokens) = token :: trodden true tokens := by
  rw [trodden, if_neg h]

theorem trodden_dropped {strip : Bool} {token : String} {tokens : List String}
    (h : token = "" ∧ (strip = true ∨ tokens = [])) :
    trodden strip (token :: tokens) = trodden false tokens := by
  rw [trodden, if_pos h]

/-- The first token of a path without a slash at its front is walked along. -/
theorem trodden_split {cs : List Char} (hcs : cs.head? ≠ some '/') (strip : Bool) :
    trodden strip (split '/' (String.ofList cs)) = trodden false (split '/' (String.ofList cs)) := by
  by_cases hmem : '/' ∈ cs
  · obtain ⟨a, b, rfl, ha⟩ := List.eq_append_cons_of_mem hmem
    have hne : a ≠ [] := by
      rintro rfl
      exact hcs rfl
    have htoken (strip : Bool) : ¬(String.ofList a = "" ∧
        (strip = true ∨ split '/' (String.ofList b) = [])) := fun h => ofList_ne_empty hne h.1
    rw [split_cons ha, trodden_cons (htoken strip), trodden_cons (htoken false)]
  · rw [split_last hmem]
    by_cases hnil : cs = []
    · have htoken (strip : Bool) : String.ofList cs = "" ∧ (strip = true ∨ ([] : List String) = []) :=
        ⟨by rw [hnil], Or.inr rfl⟩
      rw [trodden_dropped (htoken strip), trodden_dropped (htoken false)]
    · have htoken (strip : Bool) : ¬(String.ofList cs = "" ∧ (strip = true ∨ ([] : List String) = [])) :=
        fun h => ofList_ne_empty hnil h.1
      rw [trodden_cons (htoken strip), trodden_cons (htoken false)]

theorem split_ne_nil (p : Char) (s : String) : split p s ≠ [] := by
  simp [split]

theorem stripPrefix_slash (cs : List Char) :
    (stripPrefix "/" (String.ofList ('/' :: cs))).getD (String.ofList ('/' :: cs)) = String.ofList cs := by
  have hprefix : "/".toList <+: (String.ofList ('/' :: cs)).toList := by
    rw [String.toList_ofList (l := '/' :: cs)]
    exact ⟨cs, rfl⟩
  rw [stripPrefix, if_pos hprefix, Option.getD_some, String.toList_ofList (l := '/' :: cs)]
  rfl

theorem stripPrefix_none {cs : List Char} (hcs : cs.head? ≠ some '/') :
    (stripPrefix "/" (String.ofList cs)).getD (String.ofList cs) = String.ofList cs := by
  have hprefix : ¬"/".toList <+: (String.ofList cs).toList := by
    rintro ⟨rest, hrest⟩
    rw [String.toList_ofList (l := cs)] at hrest
    rw [← hrest] at hcs
    exact hcs rfl
  rw [stripPrefix, if_neg hprefix, Option.getD_none]

/-- The walk of a stripped path, given those of the shorter ones it leads to. -/
theorem evalStripped_walk {fuel : ℕ} (hfuel : 0 < fuel) (cs : List Char)
    (ih : ∀ rest : List Char, rest.length < cs.length → ∀ value,
      evalPointer fuel value (String.ofList rest) =
        walk codeStep (trodden true (split '/' (String.ofList rest))) value) (value : Json) :
    evalStripped fuel value (String.ofList cs) =
      walk codeStep (trodden false (split '/' (String.ofList cs))) value := by
  by_cases hmem : '/' ∈ cs
  · obtain ⟨a, b, rfl, ha⟩ := List.eq_append_cons_of_mem hmem
    have hrest : (fun next => evalPointer fuel next (String.ofList b)) =
        walk codeStep (trodden true (split '/' (String.ofList b))) :=
      funext fun next => ih b (by simp; omega) next
    have htoken : ¬(String.ofList a = "" ∧
        (false = true ∨ split '/' (String.ofList b) = [])) := fun h =>
      h.2.elim Bool.false_ne_true (split_ne_nil _ _)
    have hsplit : (splitOnce '/' (String.ofList (a ++ '/' :: b))).getD
        (String.ofList (a ++ '/' :: b), "") = (String.ofList a, String.ofList b) := by
      rw [splitOnce_append ha, Option.getD_some]
    rw [evalStripped_eq hfuel (ofList_ne_empty (by simp)) hsplit, split_cons ha,
      trodden_cons htoken, hrest, walk]
  · rw [split_last hmem]
    by_cases hnil : cs = []
    · subst hnil
      rw [trodden_dropped ⟨rfl, Or.inr rfl⟩]
      rfl
    · have hsplit : (splitOnce '/' (String.ofList cs)).getD (String.ofList cs, "") =
          (String.ofList cs, "") := by
        rw [splitOnce, String.toList_ofList, splitOnceList_eq, if_neg hmem]
        rfl
      have hrest : (fun next => evalPointer fuel next "") = walk codeStep (trodden true []) :=
        funext fun next => evalPointer_empty hfuel next
      rw [evalStripped_eq hfuel (ofList_ne_empty hnil) hsplit, hrest,
        trodden_cons fun h => ofList_ne_empty hnil h.1, walk]

theorem evalPointer_walk {fuel : ℕ} {cs : List Char} (hfuel : cs.length < fuel) (value : Json) :
    evalPointer fuel value (String.ofList cs) =
      walk codeStep (trodden true (split '/' (String.ofList cs))) value := by
  induction fuel generalizing cs value with
  | zero => exact absurd hfuel (Nat.not_lt_zero _)
  | succ fuel ih =>
    rw [evalPointer_succ]
    by_cases hslash : cs.head? = some '/'
    · obtain ⟨cs, rfl⟩ : ∃ rest, cs = '/' :: rest := ⟨cs.tail, List.eq_cons_of_mem_head? hslash⟩
      rw [List.length_cons] at hfuel
      rw [stripPrefix_slash, evalStripped_walk (by omega) cs fun rest hrest => ih (by omega),
        show '/' :: cs = [] ++ '/' :: cs from rfl, split_cons List.not_mem_nil,
        trodden_dropped ⟨rfl, Or.inl rfl⟩]
    · rw [stripPrefix_none hslash, trodden_split hslash]
      by_cases hnil : cs = []
      · subst hnil
        rfl
      · have hpos := List.length_pos_iff.mpr hnil
        exact evalStripped_walk (by omega) cs (fun rest hrest => ih (by omega)) value

/-- What the evaluator computes. -/
theorem evalPointer_eq_walk {path : String} (hpath : IsPointer path) (value : Json) :
    evalPointer (path.length + 1) value path =
      walk codeStep (trodden false (pointerTokens path)) value := by
  rcases hpath with rfl | hslash
  · rfl
  · obtain ⟨cs, hcs⟩ : ∃ cs, path.toList = '/' :: cs :=
      ⟨path.toList.tail, List.eq_cons_of_mem_head? hslash⟩
    have hpath : path = String.ofList ('/' :: cs) := by rw [← hcs, String.ofList_toList]
    have hlength : path.length = cs.length + 1 := by rw [hpath, String.length_ofList, List.length_cons]
    have hne : path ≠ "" := by
      rw [hpath]
      exact ofList_ne_empty (List.cons_ne_nil _ _)
    rw [pointerTokens, if_neg hne, hcs, List.tail_cons, evalPointer_succ, hlength, hpath,
      stripPrefix_slash]
    exact evalStripped_walk (by omega) cs (fun rest hrest => evalPointer_walk (by omega)) value

end Code

section Agreement

/-- Every index of its arrays is a `usize`. -/
inductive Fits : Json → Prop where
  | null : Fits .null
  | bool (b : Bool) : Fits (.bool b)
  | num (literal : String) : Fits (.num literal)
  | str (s : String) : Fits (.str s)
  | arr {items : List Json} (hlength : items.length ≤ 2 ^ 64) (hitems : ∀ item ∈ items, Fits item) :
    Fits (.arr items)
  | obj {members : Members} (hmembers : ∀ member ∈ members, Fits member.2) : Fits (.obj members)

/-- A number with a sign or leading zeros. -/
def Misread (token : String) : Prop := (parseU64 token).isSome = true ∧ arrayIndex token = none

/-- The token names for the evaluator what it stands for. -/
def Readable (token : String) : Json → Prop
  | .obj members => '~' ∉ token.toList ∧ (token = "*" → members.lookup token = none)
  | .arr _ => ¬Misread token
  | _ => True

/-- No token that the walk comes to is an empty one that is left out or one that is not readable. -/
def Clear : Bool → List String → Json → Prop
  | _, [], _ => True
  | strip, token :: tokens, value =>
    ¬(token = "" ∧ (strip = true ∨ tokens = [])) ∧ Readable token value ∧
      match codeStep token value with
      | none => True
      | some (.one next) => Clear true tokens next
      | some (.each items) => ∀ item ∈ items, Clear true tokens item

theorem unescapeChars_of_not_mem {cs : List Char} (h : '~' ∉ cs) : unescapeChars cs = some cs := by
  fun_induction unescapeChars cs with
  | case1 => rfl
  | case2 => simp at h
  | case3 => rfl
  | case4 | case5 | case6 => simp at h
  | case7 c d cs hc ih => rw [ih fun hmem => h (List.mem_cons_of_mem c hmem), Option.map_some]

/-- An escape leaves one character of two, which is a `~` or a slash. -/
theorem unescapeChars_some {cs ds : List Char} (h : unescapeChars cs = some ds) :
    ds.length + cs.count '~' = cs.length ∧ ('~' ∈ cs → '~' ∈ ds ∨ '/' ∈ ds) := by
  fun_induction unescapeChars cs generalizing ds with
  | case1 => simp_all
  | case2 => cases h
  | case3 c hc =>
    obtain rfl := Option.some.inj h
    simp [hc, Ne.symm hc]
  | case4 cs ih =>
    obtain ⟨ds, hds, rfl⟩ := Option.map_eq_some_iff.mp h
    have hlength := (ih hds).1
    refine ⟨?_, fun _ => Or.inl List.mem_cons_self⟩
    simp
    omega
  | case5 cs _ ih =>
    obtain ⟨ds, hds, rfl⟩ := Option.map_eq_some_iff.mp h
    have hlength := (ih hds).1
    refine ⟨?_, fun _ => Or.inr List.mem_cons_self⟩
    simp
    omega
  | case6 => cases h
  | case7 c d cs hc ih =>
    obtain ⟨ds, hds, rfl⟩ := Option.map_eq_some_iff.mp h
    obtain ⟨hlength, hmem⟩ := ih hds
    refine ⟨?_, fun htilde => ?_⟩
    · rw [List.length_cons, List.count_cons_of_ne hc, List.length_cons]
      omega
    · have hrest : '~' ∈ d :: cs := (List.mem_cons.mp htilde).resolve_left (Ne.symm hc)
      exact (hmem hrest).imp (List.mem_cons_of_mem c) (List.mem_cons_of_mem c)

theorem unescape_of_not_mem {token : String} (h : '~' ∉ token.toList) :
    unescape token = some token := by
  rw [unescape, unescapeChars_of_not_mem h, Option.map_some, String.ofList_toList]

theorem unescape_of_mem {token name : String} (h : '~' ∈ token.toList)
    (hname : unescape token = some name) :
    name ≠ token ∧ ('~' ∈ name.toList ∨ '/' ∈ name.toList) := by
  obtain ⟨ds, hds, rfl⟩ := Option.map_eq_some_iff.mp hname
  obtain ⟨hlength, hmem⟩ := unescapeChars_some hds
  rw [String.toList_ofList]
  refine ⟨?_, hmem h⟩
  rintro rfl
  have hcount := List.count_pos_iff.mpr h
  rw [String.toList_ofList] at hlength hcount
  omega

theorem arrayIndex_of_mem {token : String} {c : Char} (h : c ∈ token.toList)
    (hc : c.isDigit = false) : arrayIndex token = none := by
  refine if_neg fun hindex => ?_
  have hdigit := List.all_eq_true.mp hindex.2.1 c h
  rw [hc] at hdigit
  exact Bool.false_ne_true hdigit

theorem parseU64_tilde {token : String} (h : '~' ∈ token.toList) : parseU64 token = none := by
  have hall (cs : List Char) (hcs : '~' ∈ cs) : (cs.isEmpty || !cs.all Char.isDigit) = true := by
    have hdigits : cs.all Char.isDigit = false :=
      List.all_eq_false.mpr ⟨'~', hcs, by decide⟩
    rw [hdigits, Bool.not_false, Bool.or_true]
  unfold parseU64 parseUnsigned
  split
  · next cs heq =>
    rw [heq] at h
    rw [if_pos (hall cs (by simpa using h))]
  · next heq =>
    rw [if_pos (hall _ h)]

theorem parseU64_lt {token : String} {n : ℕ} (h : parseU64 token = some n) : n < 2 ^ 64 := by
  have hbound (p : Bool) (m : ℕ)
      (hm : (if p = true then none else if m < 2 ^ 64 then some m else none) = some n) :
      n < 2 ^ 64 := by
    rw [Option.ite_none_left_eq_some, Option.ite_none_right_eq_some, Option.some.injEq] at hm
    rw [← hm.2.2]
    exact hm.2.1
  unfold parseU64 parseUnsigned at h
  split at h
  · exact hbound _ _ h
  · exact hbound _ _ h

theorem arrayIndex_parseU64 {token : String} {n : ℕ} (h : arrayIndex token = some n) :
    parseU64 token = if n < 2 ^ 64 then some n else none := by
  unfold arrayIndex at h
  split at h
  · next hindex =>
    obtain ⟨hne, hdigits, -⟩ := hindex
    obtain rfl := Option.some.inj h
    have hnil : token.toList.isEmpty = false := by simpa using hne
    unfold parseU64 parseUnsigned
    split
    · next cs heq =>
      rw [heq] at hdigits
      exact absurd hdigits (by simp)
    · dsimp only
      rw [hnil, hdigits, Bool.not_true, Bool.or_false, if_neg Bool.false_ne_true]
  · cases h

theorem bind_index_eq {token : String} {items : List Json} (h : ¬Misread token)
    (hlength : items.length ≤ 2 ^ 64) :
    ((parseU64 token).bind fun i => items[i]?) = (arrayIndex token).bind fun i => items[i]? := by
  cases hindex : arrayIndex token with
  | none =>
    have hparse : parseU64 token = none := by
      by_contra hne
      exact h ⟨Option.isSome_iff_ne_none.mpr hne, hindex⟩
    rw [hparse]
  | some n =>
    rw [arrayIndex_parseU64 hindex]
    by_cases hn : n < 2 ^ 64
    · rw [if_pos hn]
    · have hlength : items.length ≤ n := by omega
      rw [if_neg hn, Option.bind_none, Option.bind_some, List.getElem?_eq_none hlength]

/-- A readable token leads to what it stands for. -/
theorem codeStep_eq {token name : String} {value : Json} (h : Readable token value)
    (hfits : Fits value) (hname : unescape token = some name) :
    codeStep token value = rfcStep name value := by
  cases hfits with
  | null | bool | num | str =>
    unfold codeStep rfcStep
    split <;> rfl
  | @obj members _ =>
    obtain ⟨htilde, hstar⟩ := h
    obtain rfl := Option.some.inj ((unescape_of_not_mem htilde).symm.trans hname)
    by_cases htoken : token = "*"
    · rw [rfcStep_obj, hstar htoken, htoken]
      rfl
    · rw [codeStep_obj htoken, rfcStep_obj]
  | @arr items hlength _ =>
    by_cases htilde : '~' ∈ token.toList
    · obtain ⟨-, hmem⟩ := unescape_of_mem htilde hname
      have htoken : token ≠ "*" := by
        rintro rfl
        exact absurd htilde (by decide)
      have hstar : name ≠ "*" := by
        rintro rfl
        exact absurd hmem (by decide)
      have hindex : arrayIndex name = none := by
        rcases hmem with hmem | hmem <;> exact arrayIndex_of_mem hmem (by decide)
      rw [codeStep_arr htoken, rfcStep_arr hstar, parseU64_tilde htilde, hindex]
    · obtain rfl := Option.some.inj ((unescape_of_not_mem htilde).symm.trans hname)
      by_cases htoken : token = "*"
      · subst htoken
        rfl
      · rw [codeStep_arr htoken, rfcStep_arr htoken, bind_index_eq h hlength]

/-- What a token leads to is part of the value. -/
theorem fits_of_codeStep_one {token : String} {value next : Json} (hfits : Fits value)
    (h : codeStep token value = some (.one next)) : Fits next := by
  unfold codeStep at h
  split at h
  · obtain ⟨items, -, heach⟩ := Option.map_eq_some_iff.mp h
    cases heach
  · obtain ⟨v, hv, hone⟩ := Option.map_eq_some_iff.mp h
    obtain rfl := Next.one.inj hone
    cases hfits with
    | null | bool | num | str => cases hv
    | obj hmembers =>
      obtain ⟨l₁, l₂, rfl, -⟩ := List.lookup_eq_some_iff.mp hv
      exact hmembers (token, v) (List.mem_append_right l₁ List.mem_cons_self)
    | arr _ hitems =>
      obtain ⟨i, -, hi⟩ := Option.bind_eq_some_iff.mp hv
      exact hitems v (List.mem_of_getElem? hi)

theorem fits_of_codeStep_each {token : String} {value : Json} {items : List Json}
    (hfits : Fits value) (h : codeStep token value = some (.each items)) :
    ∀ item ∈ items, Fits item := by
  unfold codeStep at h
  split at h
  · obtain ⟨l, hl, heach⟩ := Option.map_eq_some_iff.mp h
    obtain rfl := Next.each.inj heach
    cases hfits with
    | null | bool | num | str | obj => cases hl
    | arr _ hitems =>
      obtain rfl := Option.some.inj hl
      exact hitems
  · obtain ⟨v, -, hone⟩ := Option.map_eq_some_iff.mp h
    cases hone

theorem walk_clear {strip : Bool} {tokens names : List String} {value : Json}
    (h : Clear strip tokens value) (hfits : Fits value)
    (hnames : tokens.mapM unescape = some names) :
    walk codeStep (trodden strip tokens) value = walk rfcStep names value := by
  induction tokens generalizing strip names value with
  | nil =>
    obtain rfl := Option.some.inj hnames
    rfl
  | cons token tokens ih =>
    obtain ⟨hkept, hreadable, hrest⟩ := h
    rw [List.mapM_cons] at hnames
    obtain ⟨name, hname, hnames⟩ := Option.bind_eq_some_iff.mp hnames
    obtain ⟨names, hrestNames, hcons⟩ := Option.bind_eq_some_iff.mp hnames
    obtain rfl := Option.some.inj hcons
    rw [trodden_cons hkept, walk, walk, ← codeStep_eq hreadable hfits hname]
    refine follow_congr (fun next hnext => ?_) (fun items hitems item hitem => ?_)
    · rw [hnext] at hrest
      exact ih hrest (fits_of_codeStep_one hfits hnext) hrestNames
    · rw [hitems] at hrest
      exact ih (hrest item hitem) (fits_of_codeStep_each hfits hitems item hitem) hrestNames

end Agreement

section Pointers

/-- No token is one that some value is read wrongly for. -/
def Plain : Bool → List String → Prop
  | _, [] => True
  | strip, token :: tokens =>
    ¬(token = "" ∧ (strip = true ∨ tokens = [])) ∧ token ≠ "*" ∧ '~' ∉ token.toList ∧
      ¬Misread token ∧ Plain true tokens

theorem mapM_unescape_cons {token : String} {tokens names : List String}
    (h : (token :: tokens).mapM unescape = some names) :
    ∃ name rest, names = name :: rest ∧ unescape token = some name ∧
      tokens.mapM unescape = some rest := by
  rw [List.mapM_cons] at h
  obtain ⟨name, hname, h⟩ := Option.bind_eq_some_iff.mp h
  obtain ⟨rest, hrest, hcons⟩ := Option.bind_eq_some_iff.mp h
  exact ⟨name, rest, (Option.some.inj hcons).symm, hname, hrest⟩

theorem mapM_unescape_of_plain {strip : Bool} {tokens : List String} (h : Plain strip tokens) :
    tokens.mapM unescape = some tokens := by
  induction tokens generalizing strip with
  | nil => rfl
  | cons token tokens ih =>
    obtain ⟨-, -, htilde, -, hrest⟩ := h
    rw [List.mapM_cons, unescape_of_not_mem htilde, ih hrest]
    rfl

theorem clear_of_plain {strip : Bool} {tokens : List String} (h : Plain strip tokens)
    (value : Json) : Clear strip tokens value := by
  induction tokens generalizing strip value with
  | nil => trivial
  | cons token tokens ih =>
    obtain ⟨hkept, hstar, htilde, hindex, hrest⟩ := h
    refine ⟨hkept, ?_, ?_⟩
    · cases value with
      | obj members => exact ⟨htilde, fun h => absurd h hstar⟩
      | arr items => exact hindex
      | null | bool | num | str => trivial
    · split
      · trivial
      · exact ih hrest _
      · exact fun item _ => ih hrest item

/-- A value that has what some tokens name. -/
def nested : List String → Json
  | [] => .null
  | token :: tokens => .obj [(token, nested tokens)]

/-- A value that the evaluator walks along some tokens in. -/
def grown : List String → Json
  | [] => .null
  | token :: tokens => if token = "*" then .arr [] else .obj [(token, grown tokens)]

theorem fits_member {token : String} {value : Json} (h : Fits value) : Fits (.obj [(token, value)]) :=
  .obj fun member hmember => by rw [List.mem_singleton.mp hmember]; exact h

theorem fits_nested (tokens : List String) : Fits (nested tokens) := by
  induction tokens with
  | nil => exact .null
  | cons token tokens ih => exact fits_member ih

theorem fits_grown (tokens : List String) : Fits (grown tokens) := by
  induction tokens with
  | nil => exact .null
  | cons token tokens ih =>
    unfold grown
    split
    · exact .arr (Nat.zero_le _) fun item hitem => absurd hitem List.not_mem_nil
    · exact fits_member ih

theorem rfcStep_member (token : String) (value : Json) :
    rfcStep token (.obj [(token, value)]) = some (.one value) := by
  rw [rfcStep_obj, List.lookup_cons_self, Option.map_some]

theorem rfcStep_other {token name : String} (h : name ≠ token) (value : Json) :
    rfcStep name (.obj [(token, value)]) = none := by
  have hne : (name == token) = false := beq_eq_false_iff_ne.mpr h
  rw [rfcStep_obj, List.lookup_cons, hne]
  rfl

theorem codeStep_member {token : String} (h : token ≠ "*") (value : Json) :
    codeStep token (.obj [(token, value)]) = some (.one value) := by
  rw [codeStep_obj h, List.lookup_cons_self, Option.map_some]

theorem walk_nested (tokens : List String) :
    walk rfcStep tokens (nested tokens) = some .null := by
  induction tokens with
  | nil => rfl
  | cons token tokens ih => rw [walk, nested, rfcStep_member, follow, ih]

theorem walk_grown (tokens : List String) :
    (walk codeStep tokens (grown tokens)).isSome = true := by
  induction tokens with
  | nil => rfl
  | cons token tokens ih =>
    rw [walk, grown]
    by_cases hstar : token = "*"
    · rw [if_pos hstar, hstar]
      rfl
    · rw [if_neg hstar, codeStep_member hstar]
      exact ih

theorem rfcStep_empty_grown {tokens : List String} (h : tokens.head? ≠ some "") :
    rfcStep "" (grown tokens) = none := by
  cases tokens with
  | nil => rfl
  | cons token tokens =>
    have hne : "" ≠ token := fun heq => h (by rw [← heq, List.head?_cons])
    rw [grown]
    split
    · rfl
    · exact rfcStep_other hne _

theorem walk_empty_grown {tokens : List String} (h : tokens.head? ≠ some "") (n : ℕ)
    (more : List String) :
    walk rfcStep (List.replicate (n + 1) "" ++ more) (grown tokens) = none := by
  rw [List.replicate_succ, List.cons_append, walk, rfcStep_empty_grown h, follow]

/-- The walk that leaves an empty token out ends higher up than the tokens lead. -/
theorem walk_rfcStep_grown {strip : Bool} {tokens names : List String}
    (hnames : tokens.mapM unescape = some names) (n : ℕ) :
    walk rfcStep (List.replicate (n + 1) "" ++ names) (grown (trodden strip tokens)) = none := by
  induction tokens generalizing strip names n with
  | nil => exact walk_empty_grown (by simp [trodden]) n names
  | cons token tokens ih =>
    obtain ⟨name, names, rfl, hname, hrest⟩ := mapM_unescape_cons hnames
    by_cases hempty : token = ""
    · subst hempty
      obtain rfl := Option.some.inj hname
      have hshift : List.replicate (n + 1) "" ++ "" :: names =
          List.replicate (n + 1 + 1) "" ++ names := by
        rw [List.replicate_succ' (n := n + 1), List.append_assoc, List.singleton_append]
      by_cases hdropped : strip = true ∨ tokens = []
      · rw [trodden_dropped ⟨rfl, hdropped⟩, hshift]
        exact ih hrest (n + 1)
      · rw [trodden_cons fun h => hdropped h.2, hshift, List.replicate_succ, List.cons_append, walk,
          grown, if_neg (by decide), rfcStep_member]
        exact ih hrest n
    · rw [trodden_cons fun h => hempty h.1]
      exact walk_empty_grown (by simpa using hempty) n _

section Wrong
variable {token name : String} (tokens names : List String)

theorem ne_of_isSome_of_none {r s : Option Json} (hr : r.isSome = true) (hs : s = none) : r ≠ s := by
  rintro rfl
  rw [hs] at hr
  cases hr

theorem exists_walk_ne_of_escape (htilde : '~' ∈ token.toList) (hname : unescape token = some name) :
    ∃ value, Fits value ∧
      walk codeStep (token :: tokens) value ≠ walk rfcStep (name :: names) value := by
  have hother := (unescape_of_mem htilde hname).1
  have hstar : token ≠ "*" := by
    rintro rfl
    exact absurd htilde (by decide)
  refine ⟨grown (token :: tokens), fits_grown _, ne_of_isSome_of_none (walk_grown _) ?_⟩
  rw [walk, grown, if_neg hstar, rfcStep_other hother, follow]

theorem exists_walk_ne_of_misread (hstar : token ≠ "*") (h : Misread token) :
    ∃ value, Fits value ∧
      walk codeStep (token :: tokens) value ≠ walk rfcStep (token :: names) value := by
  obtain ⟨hparse, hnone⟩ := h
  obtain ⟨i, hi⟩ := Option.isSome_iff_exists.mp hparse
  have hlength : (List.replicate (i + 1) (grown tokens)).length ≤ 2 ^ 64 := by
    rw [List.length_replicate]
    exact parseU64_lt hi
  have hitem : (List.replicate (i + 1) (grown tokens))[i]? = some (grown tokens) := by
    rw [List.getElem?_replicate, if_pos (Nat.lt_succ_self i)]
  refine ⟨.arr (List.replicate (i + 1) (grown tokens)), .arr hlength ?_,
    ne_of_isSome_of_none ?_ ?_⟩
  · intro item hmem
    rw [List.eq_of_mem_replicate hmem]
    exact fits_grown _
  · rw [walk, codeStep_arr hstar, hi, Option.bind_some, hitem]
    exact walk_grown _
  · rw [walk, rfcStep_arr hstar, hnone]
    rfl

end Wrong

/-- Tokens that are not plain are read wrongly for some value. -/
theorem exists_walk_ne {strip : Bool} {tokens names : List String}
    (hnames : tokens.mapM unescape = some names) (h : ¬Plain strip tokens) :
    ∃ value, Fits value ∧
      walk codeStep (trodden strip tokens) value ≠ walk rfcStep names value := by
  induction tokens generalizing strip names with
  | nil => exact absurd trivial h
  | cons token tokens ih =>
    obtain ⟨name, rest, rfl, hname, hrest⟩ := mapM_unescape_cons hnames
    by_cases hdropped : token = "" ∧ (strip = true ∨ tokens = [])
    · -- The evaluator is done where the token asks for the empty key.
      obtain rfl := hdropped.1
      obtain rfl := Option.some.inj hname
      refine ⟨grown (trodden false tokens), fits_grown _,
        ne_of_isSome_of_none ?_ (walk_rfcStep_grown hrest 0)⟩
      rw [trodden_dropped hdropped]
      exact walk_grown _
    rw [trodden_cons hdropped]
    by_cases htilde : '~' ∈ token.toList
    · exact exists_walk_ne_of_escape _ _ htilde hname
    obtain rfl := Option.some.inj ((unescape_of_not_mem htilde).symm.trans hname)
    by_cases hstar : token = "*"
    · refine ⟨nested (token :: rest), fits_nested _, ?_⟩
      have hcode : codeStep token (nested (token :: rest)) = none := by
        rw [hstar]
        rfl
      rw [walk_nested, walk, hcode, follow]
      exact (Option.some_ne_none Json.null).symm
    by_cases hindex : Misread token
    · exact exists_walk_ne_of_misread _ _ hstar hindex
    · have hplain : ¬Plain true tokens := fun hp => h ⟨hdropped, hstar, htilde, hindex, hp⟩
      obtain ⟨value, hfits, hvalue⟩ := ih hrest hplain
      refine ⟨.obj [(token, value)], fits_member hfits, ?_⟩
      rw [walk, walk, codeStep_member hstar, rfcStep_member]
      exact hvalue

/-- For a well-formed pointer, the references are those of RFC 6901 with `*` as long as every token
the walk comes to is one that the evaluator reads. They are so for every value exactly when the
pointer is plain. -/
theorem evalPointer_eq_rfc6901 (path : String) (hpath : IsPointer path) :
    (∀ value, Fits value → ((pointerTokens path).mapM unescape).isSome = true →
      Clear false (pointerTokens path) value →
        evalPointer (path.length + 1) value path = rfc6901 value path) ∧
    ((∀ value, Fits value → evalPointer (path.length + 1) value path = rfc6901 value path) ↔
      Plain false (pointerTokens path)) := by
  have hclear : ∀ value, Fits value → ((pointerTokens path).mapM unescape).isSome = true →
      Clear false (pointerTokens path) value →
        evalPointer (path.length + 1) value path = rfc6901 value path := by
    intro value hfits hsome h
    obtain ⟨names, hnames⟩ := Option.isSome_iff_exists.mp hsome
    rw [evalPointer_eq_walk hpath, rfc6901, if_pos hpath, hnames, Option.bind_some]
    exact walk_clear h hfits hnames
  refine ⟨hclear, fun h => ?_, fun h value hfits => ?_⟩
  · by_contra hplain
    cases hnames : (pointerTokens path).mapM unescape with
    | none =>
      have heq := h _ (fits_grown (trodden false (pointerTokens path)))
      have hgrown := walk_grown (trodden false (pointerTokens path))
      rw [evalPointer_eq_walk hpath, rfc6901, if_pos hpath, hnames, Option.bind_none] at heq
      rw [heq] at hgrown
      cases hgrown
    | some names =>
      obtain ⟨value, hfits, hne⟩ := exists_walk_ne hnames hplain
      have heq := h value hfits
      rw [evalPointer_eq_walk hpath, rfc6901, if_pos hpath, hnames, Option.bind_some] at heq
      exact hne heq
  · refine hclear value hfits ?_ (clear_of_plain h value)
    rw [mapM_unescape_of_plain h]
    rfl

theorem evalPointer_eq_rfc6901_ids :
    evalPointer 11 (.obj [("list", .arr [.obj [("id", .str "x")]])]) "/list/*/id" =
      rfc6901 (.obj [("list", .arr [.obj [("id", .str "x")]])]) "/list/*/id" := by
  have htokens : pointerTokens "/list/*/id" = ["list", "*", "id"] := by decide +kernel
  have hindex : ¬Misread "*" := fun h => absurd h.1 (by decide +kernel)
  have hitem : Fits (.obj [("id", .str "x")]) := fits_member (.str "x")
  have hfits : Fits (.obj [("list", .arr [.obj [("id", .str "x")]])]) :=
    fits_member (.arr (by decide) fun item h => by rw [List.mem_singleton.mp h]; exact hitem)
  refine (evalPointer_eq_rfc6901 "/list/*/id" (by decide +kernel)).1 _ hfits (by decide +kernel) ?_
  rw [htokens]
  refine ⟨by decide, ⟨by decide, by decide⟩, by decide, hindex, fun item h => ?_⟩
  rw [List.mem_singleton.mp h]
  exact ⟨by decide, ⟨by decide, by decide⟩, trivial⟩

/-- A key with a slash is not found. -/
theorem evalPointer_slash :
    ¬∀ (value : Json) (path : String), IsPointer path →
      evalPointer (path.length + 1) value path = rfc6901 value path := by
  intro h
  have hslash := congrArg Option.isSome (h (.obj [("a/b", .str "x")]) "/a~1b" (by decide +kernel))
  exact absurd hslash (by decide +kernel)

end Pointers
end Dmtap.Mail.Jmap
