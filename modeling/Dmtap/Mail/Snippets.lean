import Dmtap.Lib.Marks
import Dmtap.Mail.Jmap

/-! Search snippets: the terms of a search marked in a text. Each term is looked for in the text with
the marks of the terms before it. -/
namespace Dmtap.Mail.Jmap
open Lib Marks

section Search
variable (lowerChar : Char → List Char)

/-- The small letters of a text, each with the position of the character it comes from. -/
def taggedFrom (n : ℕ) (s : List Char) : List (ℕ × Char) :=
  (s.zipIdx n).flatMap fun p => (lowerChar p.1).map fun lc => (p.2, lc)

/-- The first match of a needle in small letters: the position it starts at and the one behind it.
Positions count characters. -/
def findCi (haystack needle : List Char) : Option (ℕ × ℕ) :=
  if needle = [] then none
  else do
    let tagged := taggedFrom lowerChar 0 haystack
    let n := needle.length
    let start ← (List.range (tagged.length + 1 - n)).find? fun start =>
      ((tagged.drop start).take n).map Prod.snd == needle
    let first ← tagged[start]?
    let last ← tagged[start + n - 1]?
    some (first.1, last.1 + 1)

variable (lowerStr : String → String)

def matchOf (result : List Char) (term : String) : Option (ℕ × ℕ) :=
  if term = "" then none else findCi lowerChar result (lowerStr term).toList

/-- One term highlighted. -/
def mark (result : List Char) (term : String) : List Char :=
  match matchOf lowerChar lowerStr result term with
  | some (pos, stop) => marked result pos stop
  | none => result

/-- The text with the terms highlighted, or null if it is empty. -/
def highlight (text : String) (terms : List String) : Json :=
  if text = "" then .null
  else .str (String.ofList (terms.foldl (mark lowerChar lowerStr) text.toList))

variable {lowerChar}

theorem taggedFrom_append (n : ℕ) (s t : List Char) : taggedFrom lowerChar n (s ++ t) =
    taggedFrom lowerChar n s ++ taggedFrom lowerChar (n + s.length) t := by
  rw [taggedFrom, List.zipIdx_append, List.flatMap_append]
  rfl

theorem bounds_of_mem_taggedFrom {n : ℕ} {s : List Char} {e : ℕ × Char}
    (h : e ∈ taggedFrom lowerChar n s) : n ≤ e.1 ∧ e.1 < n + s.length := by
  obtain ⟨p, hp, he⟩ := List.mem_flatMap.mp h
  obtain ⟨lc, -, rfl⟩ := List.mem_map.mp he
  have hi := List.mem_zipIdx hp
  exact ⟨hi.1, by omega⟩

theorem pairwise_taggedFrom (n : ℕ) (s : List Char) :
    (taggedFrom lowerChar n s).Pairwise fun e e' => e.1 ≤ e'.1 := by
  induction s generalizing n with
  | nil => exact List.Pairwise.nil
  | cons c s ih =>
    have hcons : taggedFrom lowerChar n (c :: s) =
        (lowerChar c).map (fun lc => (n, lc)) ++ taggedFrom lowerChar (n + 1) s := rfl
    rw [hcons, List.pairwise_append]
    refine ⟨?_, ih (n + 1), fun e he e' he' => ?_⟩
    · rw [List.pairwise_map]
      exact List.pairwise_of_forall fun _ _ => le_rfl
    · obtain ⟨lc, -, rfl⟩ := List.mem_map.mp he
      have hb := (bounds_of_mem_taggedFrom he').1
      exact Nat.le_of_succ_le hb

/-- A match is a stretch of the small letters that spells the needle. -/
theorem findCi_eq_some {s needle : List Char} {pos stop : ℕ}
    (h : findCi lowerChar s needle = some (pos, stop)) :
    needle ≠ [] ∧ ∃ start first last,
      (((taggedFrom lowerChar 0 s).drop start).take needle.length).map Prod.snd = needle ∧
      (taggedFrom lowerChar 0 s)[start]? = some first ∧ first.1 = pos ∧
      (taggedFrom lowerChar 0 s)[start + needle.length - 1]? = some last ∧ last.1 + 1 = stop := by
  unfold findCi at h
  split at h
  · cases h
  · next hne =>
    simp only [Option.bind_eq_bind, Option.bind_eq_some_iff, Option.some.injEq, Prod.mk.injEq] at h
    obtain ⟨start, hstart, first, hfirst, last, hlast, hpos, hstop⟩ := h
    have hmatch := List.find?_some hstart
    exact ⟨hne, start, first, last, beq_iff_eq.mp hmatch, hfirst, hpos, hlast, hstop⟩

theorem findCi_le {s needle : List Char} {pos stop : ℕ}
    (h : findCi lowerChar s needle = some (pos, stop)) : pos ≤ stop := by
  obtain ⟨hne, start, first, last, -, hfirst, rfl, hlast, rfl⟩ := findCi_eq_some h
  have hpos := List.length_pos_iff.mpr hne
  obtain ⟨hi, hfirst⟩ := List.getElem?_eq_some_iff.mp hfirst
  obtain ⟨hj, hlast⟩ := List.getElem?_eq_some_iff.mp hlast
  have hle : (taggedFrom lowerChar 0 s)[start].1 ≤
      (taggedFrom lowerChar 0 s)[start + needle.length - 1].1 := by
    rcases Nat.eq_or_lt_of_le (show start ≤ start + needle.length - 1 by omega) with heq | hlt
    · simp only [← heq, le_refl]
    · exact List.pairwise_iff_getElem.mp (pairwise_taggedFrom 0 s) _ _ hi hj hlt
  rw [hfirst, hlast] at hle
  exact Nat.le_succ_of_le hle

/-- Each character that is its own small letter is found behind the letters in front of it. -/
theorem taggedFrom_split {c : Char} (hc : lowerChar c = [c]) {s : List Char} {i : ℕ}
    (hi : s[i]? = some c) : ∃ front back, taggedFrom lowerChar 0 s = front ++ (i, c) :: back ∧
      (∀ e ∈ front, e.1 < i) ∧ ∀ e ∈ back, i < e.1 := by
  obtain ⟨hlt, hget⟩ := List.getElem?_eq_some_iff.mp hi
  have hs : s = s.take i ++ ([c] ++ s.drop (i + 1)) := by
    rw [← hget, List.singleton_append, List.getElem_cons_drop, List.take_append_drop]
  have hlength : (s.take i).length = i := by rw [List.length_take, Nat.min_eq_left hlt.le]
  refine ⟨taggedFrom lowerChar 0 (s.take i), taggedFrom lowerChar (i + 1) (s.drop (i + 1)),
    ?_, fun e he => ?_, fun e he => ?_⟩
  · have hsingle : taggedFrom lowerChar i [c] = [(i, c)] := by simp [taggedFrom, hc]
    conv_lhs => rw [hs]
    rw [taggedFrom_append, taggedFrom_append, Nat.zero_add, hlength, hsingle,
      List.length_singleton, List.singleton_append]
  · have hb := (bounds_of_mem_taggedFrom he).2
    rwa [hlength, Nat.zero_add] at hb
  · exact (bounds_of_mem_taggedFrom he).1

/-- A match of a needle without `<` contains none. -/
theorem lt_not_mem_findCi {s needle : List Char} {pos stop : ℕ} (hlt : lowerChar '<' = ['<'])
    (hneedle : '<' ∉ needle) (h : findCi lowerChar s needle = some (pos, stop)) :
    '<' ∉ (s.take stop).drop pos := by
  obtain ⟨hne, start, first, last, hmatch, hfirst, rfl, hlast, rfl⟩ := findCi_eq_some h
  have hpos := List.length_pos_iff.mpr hne
  intro hmem
  obtain ⟨k, hk⟩ := List.getElem?_of_mem hmem
  have hbound : first.1 + k < last.1 + 1 := by
    have hlength := (List.getElem?_eq_some_iff.mp hk).1
    simp only [List.length_drop, List.length_take] at hlength
    omega
  rw [List.getElem?_drop, List.getElem?_take_of_lt hbound] at hk
  obtain ⟨front, back, hsplit, hfront, hback⟩ := taggedFrom_split hlt hk
  rw [hsplit] at hmatch hfirst hlast
  -- The letter stands at `front.length`, which is neither in front of the match nor behind it.
  have hstart : start ≤ front.length := by
    by_contra hgt
    rw [List.getElem?_append_right (by omega), List.getElem?_cons, if_neg (by omega)] at hfirst
    have hlater := hback first (List.mem_of_getElem? hfirst)
    omega
  have hstop : front.length ≤ start + needle.length - 1 := by
    by_contra hgt
    rw [List.getElem?_append_left (by omega)] at hlast
    have hearlier := hfront last (List.mem_of_getElem? hlast)
    omega
  have hletter : needle[front.length - start]? = some '<' := by
    rw [← hmatch, List.getElem?_map, List.getElem?_take_of_lt (by omega), List.getElem?_drop,
      Nat.add_sub_cancel' hstart, List.getElem?_append_right le_rfl, Nat.sub_self]
    rfl
  exact hneedle (List.mem_of_getElem? hletter)

end Search

section Marking
variable (lowerChar : Char → List Char) (lowerStr : String → String)

/-- Every mark that the terms set meets a condition on the text so far and on its two ends. -/
def Steps (C : List Char → ℕ → ℕ → Prop) : List Char → List String → Prop
  | _, [] => True
  | s, term :: terms =>
    (∀ pos stop, matchOf lowerChar lowerStr s term = some (pos, stop) → C s pos stop) ∧
      Steps C (mark lowerChar lowerStr s term) terms

/-- The mark cuts no tag. -/
def KeepsTags (s : List Char) (pos stop : ℕ) : Prop := Boundary s pos ∧ Boundary s stop

def IsTerm (terms : List String) (span : List Char) : Prop :=
  ∃ t ∈ terms, lowerStr (String.ofList span) = lowerStr t

/-- The mark is set around a stretch of text without tags that is one of the terms. -/
def MarksTerm (terms : List String) (s : List Char) (pos stop : ℕ) : Prop :=
  KeepsTags s pos stop ∧ '<' ∉ (s.take stop).drop pos ∧
    IsTerm lowerStr terms ((s.take stop).drop pos)

/-- Without its marks the snippet is the text, and what is marked are terms. -/
def OnlyMarks (text : String) (terms : List String) : Prop :=
  ∃ s, highlight lowerChar lowerStr text terms = .str s ∧ stripTags s.toList = text.toList ∧
    ∀ span ∈ spans s.toList, IsTerm lowerStr terms span

variable {lowerChar lowerStr} {s : List Char} {terms : List String}

theorem Steps.mono {C D : List Char → ℕ → ℕ → Prop}
    (h : ∀ s pos stop, C s pos stop → D s pos stop) (hs : Steps lowerChar lowerStr C s terms) :
    Steps lowerChar lowerStr D s terms := by
  induction terms generalizing s with
  | nil => trivial
  | cons term terms ih => exact ⟨fun pos stop hm => h s pos stop (hs.1 pos stop hm), ih hs.2⟩

theorem matchOf_le {term : String} {pos stop : ℕ}
    (h : matchOf lowerChar lowerStr s term = some (pos, stop)) : pos ≤ stop := by
  unfold matchOf at h
  split at h
  · cases h
  · exact findCi_le h

theorem mark_of_some {term : String} {pos stop : ℕ}
    (h : matchOf lowerChar lowerStr s term = some (pos, stop)) :
    mark lowerChar lowerStr s term = marked s pos stop := by
  rw [mark, h]

theorem mark_of_none {term : String} (h : matchOf lowerChar lowerStr s term = none) :
    mark lowerChar lowerStr s term = s := by
  rw [mark, h]

theorem steps_cons_none {C : List Char → ℕ → ℕ → Prop} {term : String}
    (h : matchOf lowerChar lowerStr s term = none) :
    Steps lowerChar lowerStr C s (term :: terms) ↔ Steps lowerChar lowerStr C s terms := by
  rw [Steps, mark_of_none h, h]
  simp

theorem steps_cons_some {C : List Char → ℕ → ℕ → Prop} {term : String} {pos stop : ℕ}
    (h : matchOf lowerChar lowerStr s term = some (pos, stop)) :
    Steps lowerChar lowerStr C s (term :: terms) ↔
      C s pos stop ∧ Steps lowerChar lowerStr C (marked s pos stop) terms := by
  rw [Steps, mark_of_some h, h]
  refine and_congr_left fun _ => ⟨fun hc => hc pos stop rfl, ?_⟩
  rintro hc _ _ ⟨⟩
  exact hc

/-- The result is clean exactly when the text is and no term cuts a tag. -/
theorem clean_foldl_iff : Clean (scan (terms.foldl (mark lowerChar lowerStr) s)) ↔
    Clean (scan s) ∧ Steps lowerChar lowerStr KeepsTags s terms := by
  induction terms generalizing s with
  | nil => exact (and_iff_left trivial).symm
  | cons term terms ih =>
    rw [List.foldl_cons, ih]
    cases hmatch : matchOf lowerChar lowerStr s term with
    | none => rw [mark_of_none hmatch, steps_cons_none hmatch]
    | some m =>
      rw [mark_of_some hmatch, steps_cons_some hmatch, clean_marked_iff (matchOf_le hmatch),
        and_assoc]
      rfl

/-- Terms that cut no tag leave the text as it is. -/
theorem stripTags_foldl (hclean : Clean (scan s)) (h : Steps lowerChar lowerStr KeepsTags s terms) :
    stripTags (terms.foldl (mark lowerChar lowerStr) s) = stripTags s := by
  induction terms generalizing s with
  | nil => rfl
  | cons term terms ih =>
    rw [List.foldl_cons]
    cases hmatch : matchOf lowerChar lowerStr s term with
    | none =>
      rw [steps_cons_none hmatch] at h
      rw [mark_of_none hmatch]
      exact ih hclean h
    | some m =>
      obtain ⟨⟨hpos, hstop⟩, hrest⟩ := (steps_cons_some hmatch).mp h
      have hle := matchOf_le hmatch
      rw [mark_of_some hmatch, ih ((clean_marked_iff hle).mpr ⟨hclean, hpos, hstop⟩) hrest]
      exact stripTags_marked hle hclean hpos hstop

/-- The mark cuts no tag and has none inside. -/
def MarksText (s : List Char) (pos stop : ℕ) : Prop :=
  KeepsTags s pos stop ∧ '<' ∉ (s.take stop).drop pos

/-- Where only text is marked, the spans are what the steps marked. -/
theorem forall_spans_foldl_iff (hclean : Clean (scan s)) {all : List String}
    (h : Steps lowerChar lowerStr MarksText s terms) :
    (∀ span ∈ spans (terms.foldl (mark lowerChar lowerStr) s), IsTerm lowerStr all span) ↔
      (∀ span ∈ spans s, IsTerm lowerStr all span) ∧
        Steps lowerChar lowerStr (MarksTerm lowerStr all) s terms := by
  induction terms generalizing s with
  | nil => exact (and_iff_left trivial).symm
  | cons term terms ih =>
    rw [List.foldl_cons]
    cases hmatch : matchOf lowerChar lowerStr s term with
    | none =>
      rw [steps_cons_none hmatch] at h ⊢
      rw [mark_of_none hmatch]
      exact ih hclean h
    | some m =>
      obtain ⟨⟨⟨hpos, hstop⟩, htext⟩, hrest⟩ := (steps_cons_some hmatch).mp h
      have hle := matchOf_le hmatch
      have hspans (span : List Char) := mem_spans_marked hle hclean hpos hstop htext span
      rw [mark_of_some hmatch, steps_cons_some hmatch,
        ih ((clean_marked_iff hle).mpr ⟨hclean, hpos, hstop⟩) hrest]
      simp only [hspans, forall_eq_or_imp]
      rw [MarksTerm]
      constructor
      · rintro ⟨⟨hterm, hold⟩, hsteps⟩
        exact ⟨hold, ⟨⟨hpos, hstop⟩, htext, hterm⟩, hsteps⟩
      · rintro ⟨hold, ⟨-, -, hterm⟩, hsteps⟩
        exact ⟨⟨hterm, hold⟩, hsteps⟩

/-- Needles without `<` mark text only, if they cut no tag. -/
theorem marksText_of_keepsTags (hlt : lowerChar '<' = ['<'])
    (hterms : ∀ t ∈ terms, '<' ∉ (lowerStr t).toList)
    (h : Steps lowerChar lowerStr KeepsTags s terms) :
    Steps lowerChar lowerStr MarksText s terms := by
  induction terms generalizing s with
  | nil => trivial
  | cons term terms ih =>
    obtain ⟨hterm, hrest⟩ := List.forall_mem_cons.mp hterms
    refine ⟨fun pos stop hmatch => ⟨h.1 pos stop hmatch, ?_⟩, ih hrest h.2⟩
    unfold matchOf at hmatch
    split at hmatch
    · cases hmatch
    · exact lt_not_mem_findCi hlt hterm hmatch

theorem scan_plain (h : '<' ∉ s) : scan s = s.map .char := by
  have hscan : scan s = (render (scan s)).map .char := eq_chars (by rw [render_scan]; exact h)
  rwa [render_scan] at hscan

theorem stripTags_plain (h : '<' ∉ s) : stripTags s = s := by
  rw [stripTags, scan_plain h, List.filterMap_map]
  exact List.filterMap_some

theorem clean_plain (h : '<' ∉ s) : Clean (scan s) := by
  rw [clean_scan_iff, stripTags_plain h]
  exact h

theorem spans_plain (h : '<' ∉ s) : spans s = [] := by
  have hspans := spansFrom_chars [] s []
  rw [List.append_nil] at hspans
  rw [spans, scan_plain h, hspans]
  rfl

/-- A snippet is the text exactly when no term cuts a tag. It has only terms marked when every mark
is set around one of them in text without tags, and only then if no term has a `<`. -/
theorem highlight_onlyMarks (lowerChar : Char → List Char) (lowerStr : String → String)
    {text : String} (htext : '<' ∉ text.toList) (hne : text ≠ "") (terms : List String) :
    ((∃ s, highlight lowerChar lowerStr text terms = .str s ∧ stripTags s.toList = text.toList) ↔
      Steps lowerChar lowerStr KeepsTags text.toList terms) ∧
    (Steps lowerChar lowerStr (MarksTerm lowerStr terms) text.toList terms →
      OnlyMarks lowerChar lowerStr text terms) ∧
    (lowerChar '<' = ['<'] → (∀ t ∈ terms, '<' ∉ (lowerStr t).toList) →
      (OnlyMarks lowerChar lowerStr text terms ↔
        Steps lowerChar lowerStr (MarksTerm lowerStr terms) text.toList terms)) := by
  have hclean := clean_plain htext
  have hstrip := stripTags_plain htext
  have hresult (P : List Char → Prop) :
      (∃ s, highlight lowerChar lowerStr text terms = .str s ∧ P s.toList) ↔
        P (terms.foldl (mark lowerChar lowerStr) text.toList) := by
    rw [highlight, if_neg hne]
    simp
  have htextual : stripTags (terms.foldl (mark lowerChar lowerStr) text.toList) = text.toList ↔
      Steps lowerChar lowerStr KeepsTags text.toList terms := by
    constructor
    · intro h
      refine (clean_foldl_iff.mp ?_).2
      rw [clean_scan_iff, h]
      exact htext
    · exact fun h => (stripTags_foldl hclean h).trans hstrip
  have hspans (h : Steps lowerChar lowerStr MarksText text.toList terms) :
      (∀ span ∈ spans (terms.foldl (mark lowerChar lowerStr) text.toList),
        IsTerm lowerStr terms span) ↔
        Steps lowerChar lowerStr (MarksTerm lowerStr terms) text.toList terms := by
    rw [forall_spans_foldl_iff hclean h, spans_plain htext]
    exact and_iff_right fun span hspan => absurd hspan List.not_mem_nil
  have honly : OnlyMarks lowerChar lowerStr text terms ↔
      stripTags (terms.foldl (mark lowerChar lowerStr) text.toList) = text.toList ∧
        ∀ span ∈ spans (terms.foldl (mark lowerChar lowerStr) text.toList),
          IsTerm lowerStr terms span :=
    hresult fun s => stripTags s = text.toList ∧ ∀ span ∈ spans s, IsTerm lowerStr terms span
  have henough (h : Steps lowerChar lowerStr (MarksTerm lowerStr terms) text.toList terms) :
      OnlyMarks lowerChar lowerStr text terms := by
    have hkeeps := h.mono fun _ _ _ hm => hm.1
    have hmarks : Steps lowerChar lowerStr MarksText text.toList terms :=
      h.mono fun _ _ _ hm => ⟨hm.1, hm.2.1⟩
    exact honly.mpr ⟨htextual.mpr hkeeps, (hspans hmarks).mpr h⟩
  refine ⟨(hresult fun s => stripTags s = text.toList).trans htextual, henough, ?_⟩
  intro hlt hterms
  refine ⟨fun h => ?_, henough⟩
  obtain ⟨hstripped, hmarked⟩ := honly.mp h
  exact (hspans (marksText_of_keepsTags hlt hterms (htextual.mp hstripped))).mp hmarked

theorem highlight_onlyMarks_hello :
    OnlyMarks (fun c => [c.toLower]) String.toLower "Hello" ["ell"] := by
  have hfirst : matchOf (fun c => [c.toLower]) String.toLower "Hello".toList "ell" = some (1, 4) := by
    decide +kernel
  refine (highlight_onlyMarks (fun c => [c.toLower]) String.toLower (by decide) (by decide)
    ["ell"]).2.1 ⟨?_, trivial⟩
  intro pos stop hmatch
  rw [hfirst] at hmatch
  obtain ⟨rfl, rfl⟩ := Prod.mk.inj (Option.some.inj hmatch)
  exact ⟨⟨⟨[.char 'H'], "ello".toList.map .char, by decide +kernel, by decide⟩,
    ⟨"Hell".toList.map .char, [.char 'o'], by decide +kernel, by decide⟩⟩, by decide,
    "ell", by decide, rfl⟩

/-- The second term is found in the first tag, and the snippet is `<m<mark>a</mark>rk>ab</mark>`. -/
theorem highlight_onlyMarks_tag :
    ¬OnlyMarks (fun c => [c.toLower]) String.toLower "ab" ["ab", "a"] := by
  rintro ⟨s, hs, htext, -⟩
  have hsnippet : highlight (fun c => [c.toLower]) String.toLower "ab" ["ab", "a"] =
      .str "<m<mark>a</mark>rk>ab</mark>" :=
    congrArg Json.str (by decide +kernel)
  rw [hsnippet] at hs
  obtain rfl := Json.str.inj hs
  exact absurd htext (by decide +kernel)

end Marking
end Dmtap.Mail.Jmap
