import Dmtap.Mail.EncodedWords

/-! Address headers, as the reader of a stored message takes them apart. An address is missing where
the code would slice out of range. -/
namespace Dmtap.Mail
open Lib

structure Address where
  name : Option String
  adl : Option String
  mailbox : Option String
  host : Option String
  deriving DecidableEq

section Reader

/-- The entries so far, the one under way, and whether quotes or an angle bracket are open. -/
structure Splitter where
  out : List (List Char)
  cur : List Char
  inQuote : Bool
  inAngle : Bool

def splitStep (s : Splitter) (c : Char) : Splitter :=
  if c = '"' then { s with inQuote := !s.inQuote, cur := s.cur ++ [c] }
  else if c = '<' && !s.inQuote then { s with inAngle := true, cur := s.cur ++ [c] }
  else if c = '>' && !s.inQuote then { s with inAngle := false, cur := s.cur ++ [c] }
  else if c = ',' && !s.inQuote && !s.inAngle then { s with out := s.out ++ [s.cur], cur := [] }
  else { s with cur := s.cur ++ [c] }

/-- The entries between commas that stand outside quotes and angle brackets. -/
def splitAddresses (v : String) : List String :=
  let s := v.toList.foldl splitStep ⟨[], [], false, false⟩
  (if trim (String.ofList s.cur) ≠ "" then s.out ++ [s.cur] else s.out).map String.ofList

def firstAt (c : Char) (cs : List Char) : Option ℕ := cs.findIdx? (· == c)

def lastAt (c : Char) (cs : List Char) : Option ℕ :=
  (cs.reverse.findIdx? (· == c)).map fun i => cs.length - 1 - i

/-- The text from `i` up to `j`; both stand at characters of one byte. -/
def slice (i j : ℕ) (cs : List Char) : Option (List Char) :=
  if i ≤ j ∧ j ≤ cs.length then some ((cs.take j).drop i) else none

/-- The display name and the address proper of an entry. -/
def nameAndAddr (raw : String) : Option (Option String × String) :=
  match firstAt '<' raw.toList, lastAt '>' raw.toList with
  | some lt, some gt =>
    let name := trim (String.ofList (trimMatches '"'
      (trim (String.ofList (raw.toList.take lt))).toList))
    (slice (lt + 1) gt raw.toList).map fun addr =>
      (if name = "" then none else some name, trim (String.ofList addr))
  | _, _ => some (none, trim raw)

def addressOf (p : Option String × String) : Address :=
  match splitOnce '@' p.2 with
  | some (m, h) => ⟨p.1, none, some m, some h⟩
  | none => if p.2 = "" then ⟨p.1, none, none, none⟩ else ⟨p.1, none, some p.2, none⟩

def parseOneAddress (raw : String) : Option Address := (nameAndAddr raw).map addressOf

def parseAddressList (v : String) : Option (List Address) :=
  (((splitAddresses v).map trim).filter fun raw => raw ≠ "").mapM parseOneAddress

/-- The addresses of a header; there are none where it is missing. -/
def ParsedMessage.addresses (p : ParsedMessage) (name : String) : Option (List Address) :=
  match p.header name with
  | some v => parseAddressList v
  | none => some []

example : parseAddressList "\"Bar, Foo\" <foo@bar.com>, baz@qux.com" =
    some [⟨some "Bar, Foo", none, some "foo", some "bar.com"⟩,
      ⟨none, none, some "baz", some "qux.com"⟩] := by
  decide +kernel

end Reader

section Places
variable {c : Char} {cs : List Char} {i : ℕ}

theorem firstAt_eq_none : firstAt c cs = none ↔ c ∉ cs := by
  unfold firstAt
  rw [List.findIdx?_eq_none_iff]
  constructor
  · intro h hmem
    have hne := h c hmem
    simp at hne
  · intro h d hd
    have hne : d ≠ c := fun heq => h (heq ▸ hd)
    simpa using hne

theorem firstAt_eq_some (h : firstAt c cs = some i) :
    cs[i]? = some c ∧ ∀ j, cs[j]? = some c → i ≤ j := by
  obtain ⟨hlt, hat, hbefore⟩ := List.findIdx?_eq_some_iff_getElem.mp h
  constructor
  · rw [List.getElem?_eq_getElem hlt, beq_iff_eq.mp hat]
  · intro j hj
    by_contra hji
    obtain ⟨hjlt, heq⟩ := List.getElem?_eq_some_iff.mp hj
    have hne := hbefore j (by omega)
    rw [heq] at hne
    simp at hne

theorem lastAt_eq_none : lastAt c cs = none ↔ c ∉ cs := by
  unfold lastAt
  rw [Option.map_eq_none_iff, ← List.mem_reverse]
  exact firstAt_eq_none

theorem lastAt_eq_some (h : lastAt c cs = some i) :
    cs[i]? = some c ∧ ∀ j, cs[j]? = some c → j ≤ i := by
  obtain ⟨k, hk, hi⟩ := Option.map_eq_some_iff.mp h
  obtain ⟨hat, hfirst⟩ := firstAt_eq_some hk
  have hklt : k < cs.length := by
    have hlt := (List.getElem?_eq_some_iff.mp hat).1
    rw [List.length_reverse] at hlt
    exact hlt
  constructor
  · rw [List.getElem?_reverse hklt, hi] at hat
    exact hat
  · intro j hj
    have hjlt := (List.getElem?_eq_some_iff.mp hj).1
    have hback : cs.reverse[cs.length - 1 - j]? = some c := by
      rw [List.getElem?_reverse (by omega), ← hj]
      congr 1
      omega
    have hle := hfirst _ hback
    omega

theorem slice_isSome {j : ℕ} : (slice i j cs).isSome = true ↔ i ≤ j ∧ j ≤ cs.length := by
  unfold slice
  split_ifs with h
  · simp [h]
  · simp [h]

end Places

section Safe

theorem pair_sublist_iff {α : Type} {a b : α} {l : List α} :
    [a, b].Sublist l ↔ ∃ i j : ℕ, i < j ∧ l[i]? = some a ∧ l[j]? = some b := by
  induction l with
  | nil => simp
  | cons x l ih =>
    constructor
    · intro h
      cases h with
      | cons _ h =>
        obtain ⟨i, j, hij, hi, hj⟩ := ih.mp h
        exact ⟨i + 1, j + 1, by omega, hi, hj⟩
      | cons_cons _ h =>
        obtain ⟨j, hj⟩ := List.mem_iff_getElem?.mp (List.singleton_sublist.mp h)
        exact ⟨0, j + 1, by omega, rfl, hj⟩
    · intro h
      obtain ⟨i, j, hij, hi, hj⟩ := h
      obtain ⟨j, rfl⟩ := Nat.exists_eq_add_one.mpr (by omega : 0 < j)
      rw [List.getElem?_cons_succ] at hj
      cases i with
      | zero =>
        obtain rfl : x = a := Option.some.inj hi
        exact (List.singleton_sublist.mpr (List.mem_of_getElem? hj)).cons_cons x
      | succ i =>
        rw [List.getElem?_cons_succ] at hi
        exact (ih.mpr ⟨i, j, by omega, hi, hj⟩).cons x

/-- Text with both brackets has a `<` in front of a `>`. -/
def BracketsOrdered (s : String) : Prop :=
  '<' ∈ s.toList → '>' ∈ s.toList → ['<', '>'].Sublist s.toList

/-- Cutting a name and an address out of an entry needs its brackets in order. -/
theorem parseOneAddress_isSome_iff (raw : String) :
    (parseOneAddress raw).isSome = true ↔ BracketsOrdered raw := by
  unfold parseOneAddress nameAndAddr BracketsOrdered
  rw [Option.isSome_map]
  cases hlt : firstAt '<' raw.toList with
  | none =>
    have hno := firstAt_eq_none.mp hlt
    exact iff_of_true rfl fun hmem => absurd hmem hno
  | some lt =>
    cases hgt : lastAt '>' raw.toList with
    | none =>
      have hno := lastAt_eq_none.mp hgt
      exact iff_of_true rfl fun _ hmem => absurd hmem hno
    | some gt =>
      obtain ⟨hopen, hfirst⟩ := firstAt_eq_some hlt
      obtain ⟨hclose, hlast⟩ := lastAt_eq_some hgt
      have hlength := (List.getElem?_eq_some_iff.mp hclose).1
      dsimp only
      rw [Option.isSome_map, slice_isSome, pair_sublist_iff]
      constructor
      · intro h _ _
        exact ⟨lt, gt, by omega, hopen, hclose⟩
      · intro h
        obtain ⟨i, j, hij, hi, hj⟩ := h (List.mem_of_getElem? hopen) (List.mem_of_getElem? hclose)
        have hle := hfirst i hi
        have hge := hlast j hj
        exact ⟨by omega, by omega⟩

def isBracket (c : Char) : Bool := c == '<' || c == '>'

theorem bracketsOrdered_filter (s : String) :
    BracketsOrdered s ↔ ('<' ∈ s.toList.filter isBracket → '>' ∈ s.toList.filter isBracket →
      ['<', '>'].Sublist (s.toList.filter isBracket)) := by
  have hopen : '<' ∈ s.toList.filter isBracket ↔ '<' ∈ s.toList := by simp [isBracket]
  have hclose : '>' ∈ s.toList.filter isBracket ↔ '>' ∈ s.toList := by simp [isBracket]
  have hsub : ['<', '>'].Sublist (s.toList.filter isBracket) ↔ ['<', '>'].Sublist s.toList := by
    constructor
    · intro h
      exact h.trans List.filter_sublist
    · intro h
      exact h.filter isBracket
  rw [hopen, hclose, hsub]
  rfl

theorem filter_dropWhile_isWhitespace (cs : List Char) :
    (cs.dropWhile isWhitespace).filter isBracket = cs.filter isBracket := by
  have hnone : (cs.takeWhile isWhitespace).filter isBracket = [] := by
    rw [List.filter_eq_nil_iff]
    intro c hc hbracket
    have hspace : isWhitespace c = true :=
      List.all_eq_true.mp (List.all_takeWhile (p := isWhitespace)) c hc
    rw [isBracket, Bool.or_eq_true, beq_iff_eq, beq_iff_eq] at hbracket
    cases hbracket with
    | inl h =>
      rw [h] at hspace
      exact absurd hspace (by decide)
    | inr h =>
      rw [h] at hspace
      exact absurd hspace (by decide)
  conv_rhs => rw [← List.takeWhile_append_dropWhile (p := isWhitespace) (l := cs)]
  rw [List.filter_append, hnone, List.nil_append]

/-- White space around an entry matters to no bracket. -/
theorem bracketsOrdered_trim (raw : String) : BracketsOrdered (trim raw) ↔ BracketsOrdered raw := by
  have hsame : (trim raw).toList.filter isBracket = raw.toList.filter isBracket := by
    unfold trim trimEnd trimStart
    rw [String.toList_ofList, String.toList_ofList, List.filter_reverse,
      filter_dropWhile_isWhitespace, ← List.filter_reverse, List.reverse_reverse,
      filter_dropWhile_isWhitespace]
  rw [bracketsOrdered_filter, hsame, ← bracketsOrdered_filter]

/-- Reading an address list gives a result when the brackets of its entries are in order. -/
theorem parseAddressList_isSome_iff (v : String) :
    (parseAddressList v).isSome = true ↔ ∀ e ∈ splitAddresses v, BracketsOrdered e := by
  unfold parseAddressList
  rw [mapM_isSome_iff]
  constructor
  · intro h e he
    rw [← bracketsOrdered_trim]
    by_cases hempty : trim e = ""
    · rw [hempty]
      intro hmem
      exact absurd hmem (by decide)
    · rw [← parseOneAddress_isSome_iff]
      refine h (trim e) (List.mem_filter.mpr ⟨List.mem_map_of_mem he, ?_⟩)
      simpa using hempty
  · intro h raw hraw
    obtain ⟨e, he, heq⟩ := List.mem_map.mp (List.mem_filter.mp hraw).1
    rw [parseOneAddress_isSome_iff, ← heq, bracketsOrdered_trim]
    exact h e he

theorem ParsedMessage.addresses_isSome_iff (p : ParsedMessage) (name : String) :
    (p.addresses name).isSome = true ↔
      ∀ v, p.header name = some v → ∀ e ∈ splitAddresses v, BracketsOrdered e := by
  unfold ParsedMessage.addresses
  cases p.header name with
  | none => simp
  | some v =>
    rw [parseAddressList_isSome_iff]
    simp

end Safe
end Dmtap.Mail
