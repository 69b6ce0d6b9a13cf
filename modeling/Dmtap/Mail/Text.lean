import Dmtap.Lib.Bytes

/-! Text as the mail protocols take it apart: white space, separators, numbers, and bytes that
need not be UTF-8. -/
namespace Dmtap.Mail
open Lib

def isWhitespace (c : Char) : Bool :=
  let n := c.toNat
  (9 ≤ n && n ≤ 13) || n == 0x20 || n == 0x85 || n == 0xA0 || n == 0x1680 ||
    (0x2000 ≤ n && n ≤ 0x200A) || n == 0x2028 || n == 0x2029 || n == 0x202F || n == 0x205F ||
    n == 0x3000

def trimStart (s : String) : String := String.ofList (s.toList.dropWhile isWhitespace)

def trimEnd (s : String) : String :=
  String.ofList (s.toList.reverse.dropWhile isWhitespace).reverse

def trim (s : String) : String := trimEnd (trimStart s)

def splitOnceList (p : Char) : List Char → Option (List Char × List Char)
  | [] => none
  | c :: cs => if c = p then some ([], cs) else (splitOnceList p cs).map fun r => (c :: r.1, r.2)

theorem splitOnceList_eq (p : Char) (cs : List Char) :
    splitOnceList p cs =
      if p ∈ cs then some (cs.takeWhile (· != p), (cs.dropWhile (· != p)).tail) else none := by
  induction cs with
  | nil => rfl
  | cons c cs ih =>
    unfold splitOnceList
    by_cases hc : c = p
    · subst hc
      simp
    · have hne : (c != p) = true := by simpa using hc
      have htake : (c :: cs).takeWhile (· != p) = c :: cs.takeWhile (· != p) :=
        List.takeWhile_cons_of_pos hne
      have hdrop : (c :: cs).dropWhile (· != p) = cs.dropWhile (· != p) :=
        List.dropWhile_cons_of_pos hne
      rw [if_neg hc, ih, htake, hdrop]
      by_cases hmem : p ∈ cs
      · rw [if_pos hmem, if_pos (List.mem_cons_of_mem c hmem)]
        rfl
      · rw [if_neg hmem, if_neg (by simpa [Ne.symm hc] using hmem)]
        rfl

/-- The text in front of the first `p` and the text behind it. -/
def splitOnce (p : Char) (s : String) : Option (String × String) :=
  (splitOnceList p s.toList).map fun r => (String.ofList r.1, String.ofList r.2)

/-- The text in front of the last `p` and the text behind it. -/
def rsplitOnce (p : Char) (s : String) : Option (String × String) :=
  (splitOnceList p s.toList.reverse).map fun r =>
    (String.ofList r.2.reverse, String.ofList r.1.reverse)

/-- The text in front of the first `sep` and the text behind it. -/
def splitOnceStr (sep : List Char) : List Char → Option (List Char × List Char)
  | [] => if sep = [] then some ([], []) else none
  | c :: cs =>
    if sep <+: c :: cs then some ([], (c :: cs).drop sep.length)
    else (splitOnceStr sep cs).map fun r => (c :: r.1, r.2)

def splitOnceOn (sep s : String) : Option (String × String) :=
  (splitOnceStr sep.toList s.toList).map fun r => (String.ofList r.1, String.ofList r.2)

def split (p : Char) (s : String) : List String :=
  (s.toList.splitOnP (· == p)).map String.ofList

def splitWhitespace (s : String) : List String :=
  ((s.toList.splitOnP isWhitespace).filter fun cs => !cs.isEmpty).map String.ofList

def stripPrefix (pre s : String) : Option String :=
  if pre.toList <+: s.toList then some (String.ofList (s.toList.drop pre.length)) else none

def eqIgnoreAsciiCase (a b : String) : Bool := a.toLower == b.toLower

theorem eqIgnoreAsciiCase_iff {a b : String} :
    eqIgnoreAsciiCase a b = true ↔ a.toList.map Char.toLower = b.toList.map Char.toLower := by
  have hlower (s : String) : s.toLower.toList = s.toList.map Char.toLower := String.toList_map
  rw [eqIgnoreAsciiCase, beq_iff_eq, ← String.toList_inj, hlower, hlower]

section Pieces

theorem toList_trim (s : String) : (trim s).toList =
    ((s.toList.dropWhile isWhitespace).reverse.dropWhile isWhitespace).reverse := by
  unfold trim trimEnd trimStart
  rw [String.toList_ofList, String.toList_ofList]

/-- What stands at both ends and is dropped there. -/
theorem toLower_of_toList {s t : String} (h : s.toList.map Char.toLower = t.toList) :
    s.toLower = t := by
  rw [← String.toList_inj, ← h]
  exact String.toList_map

theorem toUpper_of_toList {s t : String} (h : s.toList.map Char.toUpper = t.toList) :
    s.toUpper = t := by
  rw [← String.toList_inj, ← h]
  exact String.toList_map

theorem dropWhile_ends {α : Type} {p : α → Bool} {a l b : List α} (ha : ∀ c ∈ a, p c = true)
    (hb : ∀ c ∈ b, p c = true) {x y : α} (hhead : l.head? = some x) (hx : p x = false)
    (hlast : l.getLast? = some y) (hy : p y = false) :
    (((a ++ l ++ b).dropWhile p).reverse.dropWhile p).reverse = l := by
  obtain ⟨front, hfront⟩ := List.head?_eq_some_iff.mp hhead
  obtain ⟨back, hback⟩ := List.getLast?_eq_some_iff.mp hlast
  have hleft : (a ++ l ++ b).dropWhile p = l ++ b := by
    rw [List.append_assoc, List.dropWhile_append_of_pos ha, hfront, List.cons_append,
      List.dropWhile_cons_of_neg (by simp [hx])]
  have hright : (l ++ b).reverse.dropWhile p = l.reverse := by
    rw [List.reverse_append, List.dropWhile_append_of_pos fun c hc => hb c (List.mem_reverse.mp hc),
      hback, List.reverse_append, List.reverse_singleton, List.singleton_append,
      List.dropWhile_cons_of_neg (by simp [hy])]
  rw [hleft, hright, List.reverse_reverse]

theorem splitOnceList_append {p : Char} {a : List Char} (ha : p ∉ a) (b : List Char) :
    splitOnceList p (a ++ p :: b) = some (a, b) := by
  have hpos : ∀ c ∈ a, (c != p) = true := by
    intro c hc
    rw [bne_iff_ne]
    rintro rfl
    exact ha hc
  have hneg : ¬ (p != p) = true := by simp
  rw [splitOnceList_eq, if_pos (by simp), List.takeWhile_append_of_pos hpos,
    List.dropWhile_append_of_pos hpos, List.takeWhile_cons_of_neg (p := fun c => c != p) hneg,
    List.dropWhile_cons_of_neg (p := fun c => c != p) hneg, List.append_nil, List.tail_cons]

theorem splitOnce_append {p : Char} {a : List Char} (ha : p ∉ a) (b : List Char) :
    splitOnce p (String.ofList (a ++ p :: b)) = some (String.ofList a, String.ofList b) := by
  rw [splitOnce, String.toList_ofList, splitOnceList_append ha, Option.map_some]

theorem rsplitOnce_append {p : Char} {b : List Char} (hb : p ∉ b) (a : List Char) :
    rsplitOnce p (String.ofList (a ++ p :: b)) = some (String.ofList a, String.ofList b) := by
  have hrev : (a ++ p :: b).reverse = b.reverse ++ p :: a.reverse := by simp
  rw [rsplitOnce, String.toList_ofList, hrev, splitOnceList_append (by simpa using hb),
    Option.map_some, List.reverse_reverse, List.reverse_reverse]

theorem split_append_cons (p : Char) (a b : List Char) :
    split p (String.ofList (a ++ p :: b)) = split p (String.ofList a) ++ split p (String.ofList b) := by
  unfold split
  rw [String.toList_ofList, String.toList_ofList, String.toList_ofList,
    List.splitOnP_append_cons a b (by simp), List.map_append]

theorem split_last {p : Char} {a : List Char} (ha : p ∉ a) :
    split p (String.ofList a) = [String.ofList a] := by
  unfold split
  rw [String.toList_ofList, List.splitOnP_eq_singleton, List.map_singleton]
  intro c hc
  rw [beq_eq_false_iff_ne]
  rintro rfl
  exact ha hc

theorem split_cons {p : Char} {a : List Char} (ha : p ∉ a) (b : List Char) :
    split p (String.ofList (a ++ p :: b)) = String.ofList a :: split p (String.ofList b) := by
  rw [split_append_cons, split_last ha, List.singleton_append]

theorem mapM_isSome_iff {α β : Type} (f : α → Option β) (l : List α) :
    (l.mapM f).isSome = true ↔ ∀ x ∈ l, (f x).isSome = true := by
  induction l with
  | nil => simp
  | cons x l ih =>
    rw [List.mapM_cons, List.forall_mem_cons, ← ih]
    cases f x with
    | none => simp
    | some y =>
      cases l.mapM f with
      | none => simp
      | some ys => simp

theorem mapM_eq_some_iff {α β : Type} {f : α → Option β} {l : List α} {r : List β} :
    l.mapM f = some r ↔ List.Forall₂ (fun x y => f x = some y) l r := by
  constructor
  · intro h
    induction l generalizing r with
    | nil =>
      cases h
      exact .nil
    | cons x l ih =>
      rw [List.mapM_cons] at h
      obtain ⟨y, hy, h⟩ := Option.bind_eq_some_iff.mp h
      obtain ⟨ys, hys, h⟩ := Option.bind_eq_some_iff.mp h
      cases h
      exact .cons hy (ih hys)
  · intro h
    induction h with
    | nil => rfl
    | cons hxy _ ih => rw [List.mapM_cons, hxy, ih]; rfl

/-- What is cut out of a text stands in it. -/
theorem mem_of_trim {s : String} {c : Char} (h : c ∈ (trim s).toList) : c ∈ s.toList := by
  rw [toList_trim, List.mem_reverse] at h
  have hstart := List.mem_reverse.mp ((List.dropWhile_sublist _).subset h)
  exact (List.dropWhile_sublist _).subset hstart

theorem mem_of_splitOnce {p c : Char} {s : String} {r : String × String}
    (h : splitOnce p s = some r) (hc : c ∈ r.2.toList) : c ∈ s.toList := by
  obtain ⟨⟨a, b⟩, hsplit, rfl⟩ := Option.map_eq_some_iff.mp h
  rw [splitOnceList_eq] at hsplit
  split_ifs at hsplit
  cases hsplit
  rw [String.toList_ofList] at hc
  exact (List.dropWhile_sublist _).subset (List.mem_of_mem_tail hc)

theorem mem_splitOnPPrepend {α : Type} {p : α → Bool} {l acc w : List α}
    (h : w ∈ l.splitOnPPrepend p acc) : w ⊆ acc ++ l := by
  induction l generalizing acc with
  | nil =>
    rw [List.splitOnPPrepend_nil, List.mem_singleton] at h
    rw [h, List.append_nil]
    exact List.reverse_subset.mpr (List.Subset.refl _)
  | cons x l ih =>
    rw [List.splitOnPPrepend_cons_eq_if] at h
    split_ifs at h
    · rcases List.mem_cons.mp h with rfl | h
      · exact fun _ hy => List.mem_append_left _ (List.mem_reverse.mp hy)
      · exact fun _ hy => List.mem_append_right _ (List.mem_cons_of_mem _ (ih h hy))
    · exact fun _ hy => by simpa [or_left_comm] using ih h hy

theorem mem_of_splitWhitespace {s w : String} {c : Char} (h : w ∈ splitWhitespace s)
    (hc : c ∈ w.toList) : c ∈ s.toList := by
  obtain ⟨cs, hcs, rfl⟩ := List.mem_map.mp h
  rw [String.toList_ofList] at hc
  exact mem_splitOnPPrepend (List.mem_filter.mp hcs).1 hc

end Pieces

/-- The verb of a command line, in capitals, and the rest of the line. -/
def verbAndRest (line : String) : String × String :=
  match splitOnce ' ' line with
  | some (v, r) => (v.toUpper, trim r)
  | none => ((trim line).toUpper, "")

/-- A decimal number below `bound`, with or without a plus sign. -/
def parseUnsigned (bound : ℕ) (s : String) : Option ℕ :=
  let digits := match s.toList with
    | '+' :: cs => cs
    | cs => cs
  let n := digits.foldl (fun n c => n * 10 + (c.toNat - 48)) 0
  if digits.isEmpty || !digits.all Char.isDigit then none
  else if n < bound then some n
  else none

def parseU32 : String → Option ℕ := parseUnsigned (2 ^ 32)
def parseU64 : String → Option ℕ := parseUnsigned (2 ^ 64)

def isContinuation (b : UInt8) : Bool := 0x80 ≤ b && b ≤ 0xBF

/-- The second bytes that may follow a leading byte of three or four. -/
def isSecond (b₀ b₁ : UInt8) : Bool :=
  if b₀ = 0xE0 then 0xA0 ≤ b₁ && b₁ ≤ 0xBF
  else if b₀ = 0xED then 0x80 ≤ b₁ && b₁ ≤ 0x9F
  else if b₀ = 0xF0 then 0x90 ≤ b₁ && b₁ ≤ 0xBF
  else if b₀ = 0xF4 then 0x80 ≤ b₁ && b₁ ≤ 0x8F
  else isContinuation b₁

/-- One character off the front and the number of bytes it takes. A sequence that is not UTF-8
gives a replacement character for its longest well-formed start. -/
def decodeLossy (b₀ : UInt8) (rest : Bytes) : Char × ℕ :=
  let low (b : UInt8) : ℕ := b.toNat % 64
  let replacement := Char.ofNat 0xFFFD
  if b₀ < 0x80 then (Char.ofNat b₀.toNat, 1)
  else if 0xC2 ≤ b₀ && b₀ ≤ 0xDF then
    match rest with
    | b₁ :: _ =>
      if isContinuation b₁ then (Char.ofNat (b₀.toNat % 32 * 64 + low b₁), 2) else (replacement, 1)
    | [] => (replacement, 1)
  else if 0xE0 ≤ b₀ && b₀ ≤ 0xEF then
    match rest with
    | b₁ :: rest =>
      if isSecond b₀ b₁ then
        match rest with
        | b₂ :: _ =>
          if isContinuation b₂ then
            (Char.ofNat ((b₀.toNat % 16 * 64 + low b₁) * 64 + low b₂), 3)
          else (replacement, 2)
        | [] => (replacement, 2)
      else (replacement, 1)
    | [] => (replacement, 1)
  else if 0xF0 ≤ b₀ && b₀ ≤ 0xF4 then
    match rest with
    | b₁ :: rest =>
      if isSecond b₀ b₁ then
        match rest with
        | b₂ :: rest =>
          if isContinuation b₂ then
            match rest with
            | b₃ :: _ =>
              if isContinuation b₃ then
                (Char.ofNat (((b₀.toNat % 8 * 64 + low b₁) * 64 + low b₂) * 64 + low b₃), 4)
              else (replacement, 3)
            | [] => (replacement, 3)
          else (replacement, 2)
        | [] => (replacement, 2)
      else (replacement, 1)
    | [] => (replacement, 1)
  else (replacement, 1)

def lossyChars : ℕ → Bytes → List Char
  | 0, _ => []
  | _, [] => []
  | fuel + 1, b₀ :: rest =>
    let r := decodeLossy b₀ rest
    r.1 :: lossyChars fuel (rest.drop (r.2 - 1))

/-- `String::from_utf8_lossy`. -/
def fromUtf8Lossy (b : Bytes) : String := String.ofList (lossyChars b.length b)

example : fromUtf8Lossy [0x61, 0xC3, 0xA9, 0xFF, 0xE2, 0x82] = "aé\uFFFD\uFFFD" := by
  decide

section AllChars
variable {P : Char → Prop} {s t : String}

def AllChars (P : Char → Prop) (s : String) : Prop := ∀ c ∈ s.toList, P c

theorem AllChars.append (hs : AllChars P s) (ht : AllChars P t) : AllChars P (s ++ t) := by
  intro c hc
  rw [String.toList_append] at hc
  exact (List.mem_append.mp hc).elim (hs c) (ht c)

theorem AllChars.intercalate (hs : AllChars P s) {parts : List String}
    (h : ∀ part ∈ parts, AllChars P part) : AllChars P (s.intercalate parts) := by
  induction parts with
  | nil => exact fun c hc => (nomatch hc)
  | cons part parts ih =>
    obtain ⟨hpart, hparts⟩ := List.forall_mem_cons.mp h
    cases parts with
    | nil =>
      rw [String.intercalate_singleton]
      exact hpart
    | cons next parts =>
      rw [String.intercalate_cons_cons]
      exact (hpart.append hs).append (ih hparts)

end AllChars

section Lossy

/-- No sequence of three bytes is longer than it must be. -/
theorem isSecond_three {b₀ b₁ : UInt8} (h : isSecond b₀ b₁ = true) (hb : b₀.toNat = 224) :
    32 ≤ b₁.toNat % 64 := by
  obtain rfl : b₀ = 0xE0 := UInt8.toNat_inj.mp hb
  have hrange : 0xA0 ≤ b₁ ∧ b₁ ≤ 0xBF := by simpa [isSecond] using h
  obtain ⟨hlo, hhi⟩ : 160 ≤ b₁.toNat ∧ b₁.toNat ≤ 191 := hrange
  omega

theorem isSecond_four {b₀ b₁ : UInt8} (h : isSecond b₀ b₁ = true) (hb : b₀.toNat = 240) :
    16 ≤ b₁.toNat % 64 := by
  obtain rfl : b₀ = 0xF0 := UInt8.toNat_inj.mp hb
  have hrange : 0x90 ≤ b₁ ∧ b₁ ≤ 0xBF := by simpa [isSecond] using h
  obtain ⟨hlo, hhi⟩ : 144 ≤ b₁.toNat ∧ b₁.toNat ≤ 191 := hrange
  omega

theorem toNat_of_ofNat {n : ℕ} {c : Char} (hpos : 0 < c.toNat) (h : Char.ofNat n = c) :
    n = c.toNat := by
  subst h
  by_cases hn : n.isValidChar
  · rw [Char.ofNat, dif_pos hn]
    rfl
  · rw [Char.ofNat, dif_neg hn] at hpos
    exact absurd hpos (by decide)

/-- An ASCII character that is read stands in the bytes. -/
theorem decodeLossy_ascii {c : Char} (hpos : 0 < c.toNat) (hc : c.toNat < 128) {b₀ : UInt8}
    {rest : Bytes} (h : (decodeLossy b₀ rest).1 = c) : b₀.toNat = c.toNat := by
  have hreplacement : Char.ofNat 0xFFFD ≠ c := by
    rintro rfl
    exact absurd hc (by decide)
  have hwide {n : ℕ} (hn : 128 ≤ n) : Char.ofNat n ≠ c := by
    intro heq
    have := toNat_of_ofNat hpos heq
    omega
  have hrange {lo hi : UInt8} (hb : (decide (lo ≤ b₀) && decide (b₀ ≤ hi)) = true) :
      lo.toNat ≤ b₀.toNat ∧ b₀.toNat ≤ hi.toNat := by
    rw [Bool.and_eq_true, decide_eq_true_iff, decide_eq_true_iff] at hb
    exact hb
  unfold decodeLossy at h
  dsimp only at h
  split_ifs at h with h₁ h₂ h₃ h₄
  · exact toNat_of_ofNat hpos h
  · split at h
    · split_ifs at h
      · obtain ⟨hlo, hhi⟩ := hrange h₂
        refine absurd h (hwide ?_)
        change 194 ≤ _ at hlo
        change _ ≤ 223 at hhi
        omega
      · exact absurd h hreplacement
    · exact absurd h hreplacement
  · split at h
    · split_ifs at h with hsecond
      · split at h
        · split_ifs at h
          · refine absurd h (hwide ?_)
            have := isSecond_three hsecond
            obtain ⟨hlo, hhi⟩ := hrange h₃
            change 224 ≤ _ at hlo
            change _ ≤ 239 at hhi
            omega
          · exact absurd h hreplacement
        · exact absurd h hreplacement
      · exact absurd h hreplacement
    · exact absurd h hreplacement
  · split at h
    · split_ifs at h with hsecond
      · split at h
        · split_ifs at h
          · split at h
            · split_ifs at h
              · refine absurd h (hwide ?_)
                have := isSecond_four hsecond
                obtain ⟨hlo, hhi⟩ := hrange h₄
                change 240 ≤ _ at hlo
                change _ ≤ 244 at hhi
                omega
              · exact absurd h hreplacement
            · exact absurd h hreplacement
          · exact absurd h hreplacement
        · exact absurd h hreplacement
      · exact absurd h hreplacement
    · exact absurd h hreplacement
  · exact absurd h hreplacement

theorem mem_lossyChars {c : Char} (hpos : 0 < c.toNat) (hc : c.toNat < 128) {fuel : ℕ} {b : Bytes}
    (h : c ∈ lossyChars fuel b) : UInt8.ofNat c.toNat ∈ b := by
  induction fuel generalizing b with
  | zero => cases h
  | succ fuel ih =>
    cases b with
    | nil => cases h
    | cons b₀ rest =>
      rcases List.mem_cons.mp h with heq | h
      · have hbyte := decodeLossy_ascii hpos hc heq.symm
        rw [← hbyte, UInt8.ofNat_toNat]
        exact List.mem_cons_self
      · exact List.mem_cons_of_mem _ (List.mem_of_mem_drop (ih h))

/-- An ASCII character of the text stands in the bytes. -/
theorem mem_fromUtf8Lossy {c : Char} (hpos : 0 < c.toNat) (hc : c.toNat < 128) {b : Bytes}
    (h : c ∈ (fromUtf8Lossy b).toList) : UInt8.ofNat c.toNat ∈ b := by
  rw [fromUtf8Lossy, String.toList_ofList] at h
  exact mem_lossyChars hpos hc h

section Wide
variable {b₀ b₁ b₂ b₃ : UInt8}

theorem isContinuation_iff {b : UInt8} : isContinuation b = true ↔ 128 ≤ b.toNat ∧ b.toNat ≤ 191 := by
  simp [isContinuation, UInt8.le_iff_toNat_le]

/-- Whatever may follow the first byte is a continuation, and within the bounds of the first bytes
that start too much. -/
theorem isSecond_of_bounds (h : 128 ≤ b₁.toNat ∧ b₁.toNat ≤ 191)
    (he0 : b₀.toNat = 224 → 160 ≤ b₁.toNat) (hed : b₀.toNat = 237 → b₁.toNat ≤ 159)
    (hf0 : b₀.toNat = 240 → 144 ≤ b₁.toNat) (hf4 : b₀.toNat = 244 → b₁.toNat ≤ 143) :
    isSecond b₀ b₁ = true := by
  unfold isSecond isContinuation
  split_ifs with h₁ h₂ h₃ h₄ <;>
    simp only [← UInt8.toNat_inj, UInt8.le_iff_toNat_le, Bool.and_eq_true, decide_eq_true_eq,
      UInt8.reduceToNat] at * <;> omega

theorem decodeLossy_two (h₀ : 194 ≤ b₀.toNat ∧ b₀.toNat ≤ 223) (h₁ : isContinuation b₁ = true)
    (rest : Bytes) :
    decodeLossy b₀ (b₁ :: rest) = (Char.ofNat (b₀.toNat % 32 * 64 + b₁.toNat % 64), 2) := by
  unfold decodeLossy
  dsimp only
  simp only [UInt8.lt_iff_toNat_lt, UInt8.le_iff_toNat_le, UInt8.reduceToNat]
  rw [if_neg (by omega), if_pos (by simp [h₀]), if_pos h₁]

theorem decodeLossy_three (h₀ : 224 ≤ b₀.toNat ∧ b₀.toNat ≤ 239) (h₁ : isSecond b₀ b₁ = true)
    (h₂ : isContinuation b₂ = true) (rest : Bytes) :
    decodeLossy b₀ (b₁ :: b₂ :: rest) =
      (Char.ofNat ((b₀.toNat % 16 * 64 + b₁.toNat % 64) * 64 + b₂.toNat % 64), 3) := by
  unfold decodeLossy
  dsimp only
  simp only [UInt8.lt_iff_toNat_lt, UInt8.le_iff_toNat_le, UInt8.reduceToNat]
  rw [if_neg (by omega), if_neg (by simp; omega), if_pos (by simp [h₀]), if_pos h₁, if_pos h₂]

theorem decodeLossy_four (h₀ : 240 ≤ b₀.toNat ∧ b₀.toNat ≤ 244) (h₁ : isSecond b₀ b₁ = true)
    (h₂ : isContinuation b₂ = true) (h₃ : isContinuation b₃ = true) (rest : Bytes) :
    decodeLossy b₀ (b₁ :: b₂ :: b₃ :: rest) = (Char.ofNat (((b₀.toNat % 8 * 64 + b₁.toNat % 64) *
      64 + b₂.toNat % 64) * 64 + b₃.toNat % 64), 4) := by
  unfold decodeLossy
  dsimp only
  simp only [UInt8.lt_iff_toNat_lt, UInt8.le_iff_toNat_le, UInt8.reduceToNat]
  rw [if_neg (by omega), if_neg (by simp; omega), if_neg (by simp; omega), if_pos (by simp [h₀]),
    if_pos h₁, if_pos h₂, if_pos h₃]

end Wide

/-- The encoding of a character is read as that character, whatever follows it. -/
theorem decodeLossy_utf8EncodeChar (c : Char) (rest : Bytes) :
    ∃ b bs, String.utf8EncodeChar c = b :: bs ∧ decodeLossy b (bs ++ rest) = (c, bs.length + 1) := by
  obtain ⟨v, hv⟩ : ∃ v, v = c.val.toNat := ⟨_, rfl⟩
  have hvalid : v < 0xD800 ∨ 0xDFFF < v ∧ v < 0x110000 := hv ▸ c.valid
  have hchar {n : ℕ} (hn : n = v) : Char.ofNat n = c := by
    rw [hn, hv]
    exact Char.ofNat_toNat c
  have hbyte {n : ℕ} (hn : n < 256) : (UInt8.ofNat n).toNat = n := UInt8.toNat_ofNat_of_lt' hn
  have hcont (n : ℕ) : (UInt8.ofNat (n % 64 + 128)).toNat = n % 64 + 128 := hbyte (by omega)
  have hcontinues (n : ℕ) : isContinuation (UInt8.ofNat (n % 64 + 128)) = true := by
    rw [isContinuation_iff, hcont]
    omega
  unfold String.utf8EncodeChar
  rw [← hv]
  dsimp only
  split_ifs with h₁ h₂ h₃
  · have hb := hbyte (n := v) (by omega)
    refine ⟨_, _, rfl, ?_⟩
    unfold decodeLossy
    rw [if_pos (UInt8.lt_iff_toNat_lt.mpr (by rw [hb]; exact Nat.lt_succ_of_le h₁)), hb, hchar rfl]
    rfl
  · have hb := hbyte (n := v / 64 % 32 + 192) (by omega)
    refine ⟨_, _, rfl, ?_⟩
    rw [List.singleton_append, decodeLossy_two (by omega) (hcontinues v), hb, hcont,
      hchar (by omega)]
    rfl
  · have hb := hbyte (n := v / 4096 % 16 + 224) (by omega)
    refine ⟨_, _, rfl, ?_⟩
    rw [List.cons_append, List.singleton_append, decodeLossy_three (by omega) ?_ (hcontinues v), hb,
      hcont, hcont, hchar (by omega)]
    · rfl
    · apply isSecond_of_bounds <;> rw [hcont] <;> omega
  · have hb := hbyte (n := v / 262144 % 8 + 240) (by omega)
    refine ⟨_, _, rfl, ?_⟩
    rw [List.cons_append, List.cons_append, List.singleton_append,
      decodeLossy_four (by omega) ?_ (hcontinues (v / 64)) (hcontinues v), hb, hcont, hcont, hcont,
      hchar (by omega)]
    · rfl
    · apply isSecond_of_bounds <;> rw [hcont] <;> omega

end Lossy

end Dmtap.Mail
