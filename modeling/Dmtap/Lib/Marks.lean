import Mathlib.Data.List.Basic
import Mathlib.Data.List.Infix

/-! Texts with `<mark>` and `</mark>` in them. Tags are found by one scan from left to right; a new
pair of tags leaves the rest as it is when it cuts no tag, and breaks the text for good when it cuts
one. -/
namespace Dmtap.Lib.Marks

inductive Token where
  | opening
  | closing
  | char (c : Char)
  deriving DecidableEq

def openTag : List Char := ['<', 'm', 'a', 'r', 'k', '>']

def closeTag : List Char := ['<', '/', 'm', 'a', 'r', 'k', '>']

def text : Token → List Char
  | .opening => openTag
  | .closing => closeTag
  | .char c => [c]

def render (tokens : List Token) : List Char := tokens.flatMap text

/-- The tokens of a text behind the characters that still belong to a tag. -/
def scanFrom : ℕ → List Char → List Token
  | _, [] => []
  | skip + 1, _ :: cs => scanFrom skip cs
  | 0, c :: cs =>
    if openTag <+: c :: cs then .opening :: scanFrom 5 cs
    else if closeTag <+: c :: cs then .closing :: scanFrom 6 cs
    else .char c :: scanFrom 0 cs

def scan (s : List Char) : List Token := scanFrom 0 s

def char? : Token → Option Char
  | .char c => some c
  | _ => none

/-- The text without its tags. -/
def stripTags (s : List Char) : List Char := (scan s).filterMap char?

/-- What is marked behind some open marks, each with its text so far and without the tags inside. -/
def spansFrom : List (List Char) → List Token → List (List Char)
  | _, [] => []
  | stack, .opening :: tokens => spansFrom ([] :: stack) tokens
  | [], .closing :: tokens => spansFrom [] tokens
  | span :: stack, .closing :: tokens => span :: spansFrom stack tokens
  | stack, .char c :: tokens => spansFrom (stack.map (· ++ [c])) tokens

/-- The marked spans of a text. -/
def spans (s : List Char) : List (List Char) := spansFrom [] (scan s)

example : spans "<mark>a<mark>b</mark></mark>c".toList = [['b'], ['a', 'b']] := by decide +kernel

section Scanning

@[simp] theorem render_nil : render [] = [] := rfl

@[simp] theorem render_cons (t : Token) (ts : List Token) : render (t :: ts) = text t ++ render ts :=
  rfl

@[simp] theorem render_append (ts us : List Token) : render (ts ++ us) = render ts ++ render us :=
  List.flatMap_append

theorem scanFrom_openTag (s : List Char) : scanFrom 0 (openTag ++ s) = .opening :: scanFrom 0 s := by
  have htag : openTag <+: openTag ++ s := List.prefix_append openTag s
  change (if openTag <+: openTag ++ s then _ else _) = _
  rw [if_pos htag]
  rfl

theorem scanFrom_closeTag (s : List Char) : scanFrom 0 (closeTag ++ s) = .closing :: scanFrom 0 s := by
  have hopen : ¬openTag <+: closeTag ++ s := by
    rintro ⟨rest, h⟩
    have hslash : some 'm' = some '/' := congrArg (·[1]?) h
    exact absurd hslash (by decide)
  have htag : closeTag <+: closeTag ++ s := List.prefix_append closeTag s
  change (if openTag <+: closeTag ++ s then _ else _) = _
  rw [if_neg hopen]
  change (if closeTag <+: closeTag ++ s then _ else _) = _
  rw [if_pos htag]
  rfl

theorem scanFrom_char {c : Char} (s : List Char) (hopen : ¬openTag <+: c :: s)
    (hclose : ¬closeTag <+: c :: s) : scanFrom 0 (c :: s) = .char c :: scanFrom 0 s := by
  rw [scanFrom, if_neg hopen, if_neg hclose]

/-- A text is nothing, a tag in front of a text, or a character that starts no tag. -/
theorem text_cases {P : List Char → Prop} (hnil : P []) (hopen : ∀ s, P s → P (openTag ++ s))
    (hclose : ∀ s, P s → P (closeTag ++ s))
    (hchar : ∀ c s, ¬openTag <+: c :: s → ¬closeTag <+: c :: s → P s → P (c :: s)) (s : List Char) :
    P s := by
  induction hlength : s.length using Nat.strong_induction_on generalizing s with
  | _ n ih =>
    have hshorter {t : List Char} (ht : t.length < s.length) : P t := ih _ (hlength ▸ ht) t rfl
    by_cases hopenTag : openTag <+: s
    · obtain ⟨rest, rfl⟩ := hopenTag
      have hlt : rest.length < (openTag ++ rest).length := by
        rw [List.length_append]
        exact Nat.lt_add_of_pos_left (by decide)
      exact hopen rest (hshorter hlt)
    by_cases hcloseTag : closeTag <+: s
    · obtain ⟨rest, rfl⟩ := hcloseTag
      have hlt : rest.length < (closeTag ++ rest).length := by
        rw [List.length_append]
        exact Nat.lt_add_of_pos_left (by decide)
      exact hclose rest (hshorter hlt)
    cases s with
    | nil => exact hnil
    | cons c s => exact hchar c s hopenTag hcloseTag (hshorter (Nat.lt_succ_self _))

theorem render_scan (s : List Char) : render (scan s) = s := by
  induction s using text_cases with
  | hnil => rfl
  | hopen s ih =>
    rw [scan, scanFrom_openTag, render_cons]
    exact congrArg (openTag ++ ·) ih
  | hclose s ih =>
    rw [scan, scanFrom_closeTag, render_cons]
    exact congrArg (closeTag ++ ·) ih
  | hchar c s hopen hclose ih =>
    rw [scan, scanFrom_char s hopen hclose, render_cons]
    exact congrArg (c :: ·) ih

/-- No character of its own starts a tag. -/
def Clean (tokens : List Token) : Prop := .char '<' ∉ tokens

theorem scan_render {ts : List Token} (h : Clean ts) : scan (render ts) = ts := by
  induction ts with
  | nil => rfl
  | cons t ts ih =>
    obtain ⟨ht, hts⟩ := not_or.mp (mt List.mem_cons.mpr h)
    have hrest : scanFrom 0 (render ts) = ts := ih hts
    cases t with
    | opening => rw [scan, render_cons, text, scanFrom_openTag, hrest]
    | closing => rw [scan, render_cons, text, scanFrom_closeTag, hrest]
    | char c =>
      have hc : c ≠ '<' := by
        rintro rfl
        exact ht rfl
      have hno (tag : List Char) (htag : tag.head? = some '<') : ¬tag <+: c :: render ts := by
        intro hprefix
        obtain ⟨rest, hcut⟩ := hprefix
        obtain ⟨x, tag, rfl⟩ : ∃ x more, tag = x :: more := List.exists_cons_of_ne_nil (by
          rintro rfl
          cases htag)
        rw [List.head?_cons, Option.some.injEq] at htag
        rw [List.cons_append] at hcut
        exact hc ((List.cons.inj hcut).1.symm.trans htag)
      rw [scan, render_cons, text, List.singleton_append,
        scanFrom_char _ (hno openTag rfl) (hno closeTag rfl), hrest]

theorem lt_not_mem_tail (t : Token) : '<' ∉ (text t).tail := by
  cases t with
  | opening => decide
  | closing => decide
  | char c => exact List.not_mem_nil

theorem text_ne_nil (t : Token) : text t ≠ [] := by
  cases t with
  | opening => decide
  | closing => decide
  | char c => exact List.cons_ne_nil c []

/-- In a clean text every `<` starts a tag. -/
theorem split_render {ts : List Token} (h : Clean ts) {x w : List Char}
    (hrender : render ts = x ++ '<' :: w) :
    ∃ a t b, ts = a ++ t :: b ∧ render a = x ∧ text t ++ render b = '<' :: w := by
  induction ts generalizing x with
  | nil => exact absurd hrender (by simp)
  | cons t ts ih =>
    obtain ⟨ht, hts⟩ := not_or.mp (mt List.mem_cons.mpr h)
    rw [render_cons] at hrender
    by_cases hx : x = []
    · subst hx
      exact ⟨[], t, ts, rfl, rfl, hrender⟩
    · have hfront : ∃ y, x = text t ++ y := by
        rcases List.append_eq_append_iff.mp hrender with ⟨y, hy, -⟩ | ⟨y, htext, hrest⟩
        · exact ⟨y, hy⟩
        · cases y with
          | nil => exact ⟨[], by rw [htext]; simp⟩
          | cons c y =>
            obtain rfl : '<' = c := (List.cons.inj hrest).1
            refine absurd ?_ (lt_not_mem_tail t)
            rw [htext, List.tail_append_of_ne_nil hx]
            exact List.mem_append_right _ List.mem_cons_self
      obtain ⟨y, rfl⟩ := hfront
      rw [List.append_assoc] at hrender
      obtain ⟨a, u, b, rfl, ha, hb⟩ := ih hts (List.append_cancel_left hrender)
      exact ⟨t :: a, u, b, rfl, by rw [render_cons, ha], hb⟩

theorem clean_scan_iff (s : List Char) : Clean (scan s) ↔ '<' ∉ stripTags s := by
  unfold Clean stripTags
  rw [not_iff_not, List.mem_filterMap]
  constructor
  · exact fun h => ⟨_, h, rfl⟩
  · rintro ⟨t, ht, hchar⟩
    cases t with
    | opening | closing => cases hchar
    | char c =>
      obtain rfl := Option.some.inj hchar
      exact ht

end Scanning

section Marking

/-- A text with a pair of tags around what stands between two positions. -/
def marked (s : List Char) (pos stop : ℕ) : List Char :=
  s.take pos ++ openTag ++ (s.take stop).drop pos ++ closeTag ++ s.drop stop

/-- No tag is cut at a position. -/
def Boundary (s : List Char) (pos : ℕ) : Prop := ∃ a b, scan s = a ++ b ∧ render a = s.take pos

theorem eq_nil_of_render {ts : List Token} (h : render ts = []) : ts = [] := by
  cases ts with
  | nil => rfl
  | cons t ts => exact absurd (List.append_eq_nil_iff.mp h).1 (text_ne_nil t)

/-- The tokens in front of two boundaries, between them and behind them. -/
theorem boundary_split {s : List Char} {pos stop : ℕ} (hle : pos ≤ stop) (hpos : Boundary s pos)
    (hstop : Boundary s stop) :
    ∃ a p b, scan s = a ++ (p ++ b) ∧ render a = s.take pos ∧
      render p = (s.take stop).drop pos ∧ render b = s.drop stop := by
  obtain ⟨a, b, hab, ha⟩ := hpos
  obtain ⟨a', b', hab', ha'⟩ := hstop
  have htake : (s.take stop).take pos = s.take pos := by rw [List.take_take, Nat.min_eq_left hle]
  have hprefix : a <+: a' := by
    rcases List.prefix_or_prefix_of_prefix ⟨b, hab.symm⟩ ⟨b', hab'.symm⟩ with h | ⟨q, rfl⟩
    · exact h
    · rw [render_append, ha', ← htake] at ha
      have hlength := congrArg List.length ha
      have hq : render q = [] := by
        simp only [List.length_append, List.length_take] at hlength
        exact List.eq_nil_of_length_eq_zero (by omega)
      rw [eq_nil_of_render hq, List.append_nil]
  obtain ⟨p, rfl⟩ := hprefix
  refine ⟨a, p, b', by rw [hab', List.append_assoc], ha, ?_, ?_⟩
  · rw [render_append, ha, ← htake] at ha'
    refine List.append_cancel_left (ha'.trans ?_)
    rw [List.take_append_drop]
  · have hs := render_scan s
    rw [hab', render_append, ha'] at hs
    refine List.append_cancel_left (hs.trans ?_)
    rw [List.take_append_drop]

/-- The tokens of a marked text that cuts no tag. -/
theorem scan_marked {s : List Char} {pos stop : ℕ} {a p b : List Token} (h : Clean (scan s))
    (hsplit : scan s = a ++ (p ++ b)) (ha : render a = s.take pos)
    (hp : render p = (s.take stop).drop pos) (hb : render b = s.drop stop) :
    scan (marked s pos stop) = a ++ .opening :: (p ++ .closing :: b) := by
  have hrender : marked s pos stop = render (a ++ .opening :: (p ++ .closing :: b)) := by
    simp [marked, ha, hp, hb, text]
  have hclean : Clean (a ++ .opening :: (p ++ .closing :: b)) := by
    rw [hsplit] at h
    simpa [Clean] using h
  rw [hrender, scan_render hclean]

theorem eq_opening {t : Token} {rest w : List Char} (ht : t ≠ .char '<')
    (h : text t ++ rest = openTag ++ w) : t = .opening ∧ rest = w := by
  cases t with
  | opening => exact ⟨rfl, List.append_cancel_left h⟩
  | closing =>
    have hsecond : some '/' = some 'm' := congrArg (·[1]?) h
    exact absurd hsecond (by decide)
  | char c => exact absurd (congrArg Token.char (List.cons.inj h).1) ht

theorem eq_closing {t : Token} {rest w : List Char} (ht : t ≠ .char '<')
    (h : text t ++ rest = closeTag ++ w) : t = .closing ∧ rest = w := by
  cases t with
  | opening =>
    have hsecond : some 'm' = some '/' := congrArg (·[1]?) h
    exact absurd hsecond (by decide)
  | closing => exact ⟨rfl, List.append_cancel_left h⟩
  | char c => exact absurd (congrArg Token.char (List.cons.inj h).1) ht

/-- The marked text is clean exactly when the text was and no tag is cut. -/
theorem clean_marked_iff {s : List Char} {pos stop : ℕ} (hle : pos ≤ stop) :
    Clean (scan (marked s pos stop)) ↔ Clean (scan s) ∧ Boundary s pos ∧ Boundary s stop := by
  constructor
  · intro h
    have hrender : render (scan (marked s pos stop)) = s.take pos ++ '<' ::
        (openTag.tail ++ ((s.take stop).drop pos ++ '<' :: (closeTag.tail ++ s.drop stop))) := by
      rw [render_scan, marked]
      simp [openTag, closeTag]
    obtain ⟨a, t, rest, hscan, ha, ht⟩ := split_render h hrender
    rw [hscan] at h
    have hmem (u : Token) (hu : u ∈ a ++ t :: rest) : u ≠ .char '<' := fun heq => h (heq ▸ hu)
    obtain ⟨rfl, hrest⟩ := eq_opening (hmem t (by simp)) ht
    have hclean : Clean rest := fun hin => h (by simp [hin])
    obtain ⟨p, u, b, rfl, hp, hu⟩ := split_render hclean hrest
    obtain ⟨rfl, hb⟩ := eq_closing (hmem u (by simp)) hu
    have hkept : Clean (a ++ (p ++ b)) := by simpa [Clean] using h
    have htake : s.take pos ++ (s.take stop).drop pos = s.take stop := by
      have hsplit := List.take_append_drop pos (s.take stop)
      rwa [List.take_take, Nat.min_eq_left hle] at hsplit
    have hs : s = render (a ++ (p ++ b)) := by
      rw [render_append, render_append, ha, hp, hb, ← List.append_assoc, htake,
        List.take_append_drop]
    have hscan : scan s = a ++ (p ++ b) := by rw [hs, scan_render hkept]
    rw [hscan]
    refine ⟨hkept, ⟨a, p ++ b, hscan, ha⟩, ⟨a ++ p, b, ?_, ?_⟩⟩
    · rw [hscan, List.append_assoc]
    · rw [render_append, ha, hp, htake]
  · rintro ⟨h, hpos, hstop⟩
    obtain ⟨a, p, b, hsplit, ha, hp, hb⟩ := boundary_split hle hpos hstop
    rw [scan_marked h hsplit ha hp hb]
    rw [hsplit] at h
    simpa [Clean] using h

theorem stripTags_marked {s : List Char} {pos stop : ℕ} (hle : pos ≤ stop) (h : Clean (scan s))
    (hpos : Boundary s pos) (hstop : Boundary s stop) :
    stripTags (marked s pos stop) = stripTags s := by
  obtain ⟨a, p, b, hsplit, ha, hp, hb⟩ := boundary_split hle hpos hstop
  rw [stripTags, scan_marked h hsplit ha hp hb, stripTags, hsplit]
  simp [char?, List.filterMap_cons]

theorem eq_chars {ts : List Token} (h : '<' ∉ render ts) : ts = (render ts).map .char := by
  induction ts with
  | nil => rfl
  | cons t ts ih =>
    obtain ⟨ht, hts⟩ := not_or.mp (mt List.mem_append.mpr h)
    cases t with
    | opening | closing => exact absurd (by decide) ht
    | char c => exact congrArg (Token.char c :: ·) (ih hts)

theorem spansFrom_chars (stack : List (List Char)) (w : List Char) (ts : List Token) :
    spansFrom stack (w.map .char ++ ts) = spansFrom (stack.map (· ++ w)) ts := by
  induction w generalizing stack with
  | nil => simp
  | cons c w ih =>
    rw [List.map_cons, List.cons_append, spansFrom, ih, List.map_map]
    simp [Function.comp_def]

/-- A pair of tags around characters adds what they mark to the spans. -/
theorem mem_spansFrom_insert (stack : List (List Char)) (a b : List Token) (w span : List Char) :
    span ∈ spansFrom stack (a ++ .opening :: (w.map .char ++ .closing :: b)) ↔
      span = w ∨ span ∈ spansFrom stack (a ++ (w.map .char ++ b)) := by
  induction a generalizing stack with
  | nil =>
    rw [List.nil_append, List.nil_append, spansFrom, spansFrom_chars, spansFrom_chars]
    exact List.mem_cons
  | cons t a ih =>
    cases t with
    | opening => exact ih _
    | char c => exact ih _
    | closing =>
      cases stack with
      | nil => exact ih _
      | cons open' stack =>
        rw [List.cons_append, List.cons_append, spansFrom, spansFrom, List.mem_cons, List.mem_cons,
          ih]
        exact or_left_comm

theorem mem_spans_marked {s : List Char} {pos stop : ℕ} (hle : pos ≤ stop) (h : Clean (scan s))
    (hpos : Boundary s pos) (hstop : Boundary s stop) (htext : '<' ∉ (s.take stop).drop pos)
    (span : List Char) :
    span ∈ spans (marked s pos stop) ↔ span = (s.take stop).drop pos ∨ span ∈ spans s := by
  obtain ⟨a, p, b, hsplit, ha, hp, hb⟩ := boundary_split hle hpos hstop
  have hchars : p = ((s.take stop).drop pos).map .char := by
    rw [← hp] at htext ⊢
    exact eq_chars htext
  rw [spans, scan_marked h hsplit ha hp hb, spans, hsplit, hchars]
  exact mem_spansFrom_insert [] a b _ span

end Marking
end Dmtap.Lib.Marks
