import Mathlib.Data.List.TakeWhile
import Dmtap.Mail.Ascii
import Dmtap.Mail.Imap.Targets

/-! The grammar of sequence sets, beside what the reader of sequence sets takes: it trims white space
around a number, and leaves a sign and leading zeros to the reader of integers. -/
namespace Dmtap.Mail.Imap
open Lib

section Grammar

/-- The value of decimal digits. -/
def decimal (cs : List Char) : ℕ := cs.foldl (fun n c => n * 10 + (c.toNat - 48)) 0

/-- The digits of a number from 1 to the largest of 32 bits. -/
def IsNumber (cs : List Char) : Prop :=
  cs ≠ [] ∧ (∀ c ∈ cs, c.isDigit = true) ∧ 1 ≤ decimal cs ∧ decimal cs ≤ 4294967295

inductive SeqNumber : List Char → Point → Prop where
  | star : SeqNumber ['*'] .star
  | num {cs : List Char} (h : IsNumber cs) (hzero : cs.head? ≠ some '0') :
    SeqNumber cs (.num (decimal cs))

inductive SeqItem : List Char → Point × Point → Prop where
  | number {cs : List Char} {p : Point} (h : SeqNumber cs p) : SeqItem cs (p, p)
  | range {a b : List Char} {p q : Point} (ha : SeqNumber a p) (hb : SeqNumber b q) :
    SeqItem (a ++ ':' :: b) (p, q)

/-- A sequence set of the grammar and what it lists. -/
inductive Lists : String → SequenceSet → Prop where
  | saved : Lists "$" ⟨[], true⟩
  | ranges {items : List (List Char)} {ranges : List (Point × Point)} (hne : items ≠ [])
    (h : List.Forall₂ SeqItem items ranges) :
    Lists (String.ofList ([','].intercalate items)) ⟨ranges, false⟩

/-- A value of a range, whichever end comes first. -/
def InRange (largest v : ℕ) (r : Point × Point) : Prop :=
  min (r.1.resolve largest) (r.2.resolve largest) ≤ v ∧
    v ≤ max (r.1.resolve largest) (r.2.resolve largest)

/-- What the reader takes for a number. -/
inductive LooseNumber : List Char → Prop where
  | star {front back : List Char} (hfront : ∀ c ∈ front, isWhitespace c = true)
    (hback : ∀ c ∈ back, isWhitespace c = true) : LooseNumber (front ++ ['*'] ++ back)
  | num {front sign cs back : List Char} (hfront : ∀ c ∈ front, isWhitespace c = true)
    (hback : ∀ c ∈ back, isWhitespace c = true) (hsign : sign = [] ∨ sign = ['+'])
    (h : IsNumber cs) : LooseNumber (front ++ (sign ++ cs) ++ back)

/-- The texts in front of and behind the first colon. -/
def itemTexts (item : List Char) : List (List Char) :=
  if ':' ∈ item then [item.takeWhile (· != ':'), (item.dropWhile (· != ':')).tail] else [item]

/-- The texts between commas and colons that stand for numbers. -/
def pointTexts (s : String) : List (List Char) := (s.toList.splitOn ',').flatMap itemTexts

end Grammar

section Numbers

theorem IsNumber.not_mem {cs : List Char} (h : IsNumber cs) {c : Char} (hc : c.isDigit = false) :
    c ∉ cs := by
  intro hmem
  rw [h.2.1 c hmem] at hc
  cases hc

theorem parseU32_of_number {sign cs : List Char} (hsign : sign = [] ∨ sign = ['+'])
    (h : IsNumber cs) : parseU32 (String.ofList (sign ++ cs)) = some (decimal cs) := by
  obtain ⟨hne, hdigits, hpos, hle⟩ := h
  have hall : cs.all Char.isDigit = true := List.all_eq_true.mpr hdigits
  have hempty : cs.isEmpty = false := List.isEmpty_eq_false_iff.mpr hne
  have hlt : decimal cs < 4294967296 := by omega
  have hvalue : cs.foldl (fun n c => n * 10 + (c.toNat - 48)) 0 = decimal cs := rfl
  unfold parseU32 parseUnsigned
  rw [String.toList_ofList]
  rcases hsign with rfl | rfl
  · split
    next ds heq =>
      rw [List.nil_append] at heq
      rw [heq] at hdigits
      exact absurd (hdigits '+' List.mem_cons_self) (by decide)
    next ds =>
      simp [hall, hempty, hvalue, hlt]
  · simp [hall, hempty, hvalue, hlt]

theorem number_of_parseU32 {cs : List Char} {n : ℕ} (h : parseU32 (String.ofList cs) = some n)
    (hpos : 0 < n) :
    ∃ sign ds, (sign = [] ∨ sign = ['+']) ∧ cs = sign ++ ds ∧ IsNumber ds ∧ n = decimal ds := by
  have hread : ∀ ds : List Char, (if ds.isEmpty || !ds.all Char.isDigit then none
      else if decimal ds < 2 ^ 32 then some (decimal ds) else none) = some n →
        IsNumber ds ∧ n = decimal ds := by
    intro ds hds
    split_ifs at hds with hbad hlt
    cases hds
    simp only [Bool.or_eq_true, Bool.not_eq_true', not_or, Bool.not_eq_true,
      Bool.not_eq_false, List.isEmpty_eq_false_iff] at hbad
    exact ⟨⟨hbad.1, List.all_eq_true.mp hbad.2, hpos, by omega⟩, rfl⟩
  unfold parseU32 parseUnsigned at h
  rw [String.toList_ofList] at h
  split at h
  next ds =>
    obtain ⟨hnumber, hn⟩ := hread ds h
    exact ⟨['+'], ds, Or.inr rfl, rfl, hnumber, hn⟩
  next ds _ =>
    obtain ⟨hnumber, hn⟩ := hread _ h
    exact ⟨[], _, Or.inl rfl, rfl, hnumber, hn⟩

/-- A text is what is left of it by trimming, with white space in front and behind. -/
theorem exists_trim (cs : List Char) : ∃ front back, (∀ c ∈ front, isWhitespace c = true) ∧
    (∀ c ∈ back, isWhitespace c = true) ∧
      cs = front ++ (trim (String.ofList cs)).toList ++ back := by
  have hsplit := List.takeWhile_append_dropWhile (p := isWhitespace) (l := cs)
  have hsplit' := List.takeWhile_append_dropWhile (p := isWhitespace)
    (l := (cs.dropWhile isWhitespace).reverse)
  refine ⟨cs.takeWhile isWhitespace, ((cs.dropWhile isWhitespace).reverse.takeWhile
    isWhitespace).reverse, fun c hc => List.mem_takeWhile_imp hc,
      fun c hc => List.mem_takeWhile_imp (List.mem_reverse.mp hc), ?_⟩
  rw [toList_trim, String.toList_ofList, List.append_assoc, ← List.reverse_append, hsplit',
    List.reverse_reverse, hsplit]

theorem parsePoint_eq (s : String) : parsePoint s =
    if trim s = "*" then some .star
    else ((parseU32 (trim s)).filter fun n => 0 < n).map .num := rfl

theorem parsePoint_star {front back : List Char} (hfront : ∀ c ∈ front, isWhitespace c = true)
    (hback : ∀ c ∈ back, isWhitespace c = true) :
    parsePoint (String.ofList (front ++ ['*'] ++ back)) = some .star := by
  have htrim : trim (String.ofList (front ++ ['*'] ++ back)) = "*" := by
    rw [← String.toList_inj, toList_trim, String.toList_ofList]
    exact dropWhile_ends hfront hback rfl (by decide) rfl (by decide)
  rw [parsePoint_eq, if_pos htrim]

theorem parsePoint_number {front sign cs back : List Char}
    (hfront : ∀ c ∈ front, isWhitespace c = true) (hback : ∀ c ∈ back, isWhitespace c = true)
    (hsign : sign = [] ∨ sign = ['+']) (h : IsNumber cs) :
    parsePoint (String.ofList (front ++ (sign ++ cs) ++ back)) = some (.num (decimal cs)) := by
  obtain ⟨x, hx, hxblank⟩ : ∃ x, (sign ++ cs).head? = some x ∧ isWhitespace x = false := by
    rcases hsign with rfl | rfl
    · obtain ⟨x, rest, rfl⟩ := List.exists_cons_of_ne_nil h.1
      exact ⟨x, rfl, (digit_ne (h.2.1 x List.mem_cons_self)).1⟩
    · exact ⟨'+', rfl, by decide⟩
  have hlast := List.getLast?_eq_some_getLast h.1
  have hlastblank := (digit_ne (h.2.1 _ (List.getLast_mem h.1))).1
  have htrim : trim (String.ofList (front ++ (sign ++ cs) ++ back)) =
      String.ofList (sign ++ cs) := by
    rw [← String.toList_inj, toList_trim, String.toList_ofList, String.toList_ofList]
    refine dropWhile_ends hfront hback hx hxblank ?_ hlastblank
    rw [List.getLast?_append, hlast]
    rfl
  have hstar : String.ofList (sign ++ cs) ≠ "*" := by
    intro hstar
    have hmem : '*' ∈ sign ++ cs := by
      rw [← String.toList_ofList (l := sign ++ cs), hstar]
      exact List.mem_cons_self
    rcases hsign with rfl | rfl
    · exact h.not_mem (by decide) hmem
    · exact h.not_mem (c := '*') (by decide) (by simpa using hmem)
  have hpos : decide (0 < decimal cs) = true := decide_eq_true h.2.2.1
  rw [parsePoint_eq, htrim, if_neg hstar, parseU32_of_number hsign h, Option.filter_some, if_pos hpos]
  rfl

theorem looseNumber_iff (cs : List Char) :
    (parsePoint (String.ofList cs)).isSome = true ↔ LooseNumber cs := by
  constructor
  · intro h
    obtain ⟨front, back, hfront, hback, hcs⟩ := exists_trim cs
    rw [parsePoint_eq] at h
    by_cases hstar : trim (String.ofList cs) = "*"
    · rw [hstar] at hcs
      rw [hcs]
      exact .star hfront hback
    · rw [if_neg hstar, Option.isSome_map] at h
      obtain ⟨n, hn⟩ := Option.isSome_iff_exists.mp h
      obtain ⟨hread, hpos⟩ := Option.filter_eq_some_iff.mp hn
      rw [← String.ofList_toList (s := trim (String.ofList cs))] at hread
      obtain ⟨sign, ds, hsign, hds, hnumber, -⟩ := number_of_parseU32 hread (by simpa using hpos)
      rw [hds] at hcs
      rw [hcs]
      exact .num hfront hback hsign hnumber
  · intro h
    cases h with
    | star hfront hback => rw [parsePoint_star hfront hback]; rfl
    | num hfront hback hsign hnumber => rw [parsePoint_number hfront hback hsign hnumber]; rfl

theorem SeqNumber.read {cs : List Char} {p : Point} (h : SeqNumber cs p) :
    parsePoint (String.ofList cs) = some p := by
  have hnone : ∀ c ∈ ([] : List Char), isWhitespace c = true := by simp
  cases h with
  | star =>
    have hread := parsePoint_star hnone hnone
    rwa [List.nil_append, List.append_nil] at hread
  | num h _ =>
    have hread := parsePoint_number hnone hnone (Or.inl rfl) h
    rwa [List.nil_append, List.nil_append, List.append_nil] at hread

theorem SeqNumber.loose {cs : List Char} {p : Point} (h : SeqNumber cs p) : LooseNumber cs :=
  (looseNumber_iff cs).mp (by rw [h.read]; rfl)

theorem SeqNumber.not_mem {cs : List Char} {p : Point} (h : SeqNumber cs p) {c : Char}
    (hc : c = ':' ∨ c = ',') : c ∉ cs := by
  cases h with
  | star =>
    rcases hc with rfl | rfl
    · decide
    · decide
  | num h _ =>
    rcases hc with rfl | rfl
    · exact h.not_mem (by decide)
    · exact h.not_mem (by decide)

end Numbers

section Items

theorem splitOnce_colon (item : List Char) : splitOnce ':' (String.ofList item) =
    if ':' ∈ item then some (String.ofList (item.takeWhile (· != ':')),
      String.ofList (item.dropWhile (· != ':')).tail) else none := by
  rw [splitOnce, String.toList_ofList, splitOnceList_eq]
  split_ifs
  · rfl
  · rfl

theorem parseRange_isSome_iff (item : List Char) :
    (SequenceSet.parseRange (String.ofList item)).isSome = true ↔
      ∀ text ∈ itemTexts item, LooseNumber text := by
  unfold SequenceSet.parseRange itemTexts
  rw [splitOnce_colon]
  by_cases h : ':' ∈ item
  · rw [if_pos h, if_pos h, List.forall_mem_cons, List.forall_mem_singleton, ← looseNumber_iff,
      ← looseNumber_iff]
    dsimp only
    cases hlo : parsePoint (String.ofList (item.takeWhile (· != ':'))) with
    | none => simp
    | some lo =>
      cases hhi : parsePoint (String.ofList (item.dropWhile (· != ':')).tail) with
      | none => simp
      | some hi => simp
  · rw [if_neg h, if_neg h, List.forall_mem_singleton, ← looseNumber_iff]
    dsimp only
    rw [Option.isSome_map]

theorem SeqItem.read {item : List Char} {r : Point × Point} (h : SeqItem item r) :
    SequenceSet.parseRange (String.ofList item) = some r := by
  unfold SequenceSet.parseRange
  cases h with
  | number h =>
    rw [splitOnce_colon, if_neg (h.not_mem (Or.inl rfl)), h.read]
    rfl
  | range ha hb =>
    rw [splitOnce_append (ha.not_mem (Or.inl rfl))]
    dsimp only
    rw [ha.read, hb.read]
    rfl

theorem SeqItem.comma_not_mem {item : List Char} {r : Point × Point} (h : SeqItem item r) :
    ',' ∉ item := by
  cases h with
  | number h => exact h.not_mem (Or.inr rfl)
  | range ha hb =>
    have hfront := ha.not_mem (Or.inr rfl)
    have hback := hb.not_mem (Or.inr rfl)
    simp [hfront, hback]

theorem itemTexts_colon {a : List Char} (ha : ':' ∉ a) (b : List Char) :
    itemTexts (a ++ ':' :: b) = [a, b] := by
  have hmem : ':' ∈ a ++ ':' :: b := by simp
  have hsplit := splitOnce_append ha b
  rw [splitOnce_colon, if_pos hmem] at hsplit
  obtain ⟨hfront, hback⟩ := Prod.mk.inj (Option.some.inj hsplit)
  rw [itemTexts, if_pos hmem, String.ofList_injective hfront, String.ofList_injective hback]

theorem itemTexts_plain {item : List Char} (h : ':' ∉ item) : itemTexts item = [item] := if_neg h

theorem seqItem_iff (item : List Char) :
    (∃ r, SeqItem item r) ↔ ∀ text ∈ itemTexts item, ∃ p, SeqNumber text p := by
  constructor
  · rintro ⟨r, h⟩
    cases h with
    | number h =>
      rw [itemTexts_plain (h.not_mem (Or.inl rfl)), List.forall_mem_singleton]
      exact ⟨_, h⟩
    | range ha hb =>
      rw [itemTexts_colon (ha.not_mem (Or.inl rfl)), List.forall_mem_cons,
        List.forall_mem_singleton]
      exact ⟨⟨_, ha⟩, _, hb⟩
  · intro h
    by_cases hmem : ':' ∈ item
    · obtain ⟨a, b, rfl, ha⟩ := List.eq_append_cons_of_mem hmem
      rw [itemTexts_colon ha, List.forall_mem_cons, List.forall_mem_singleton] at h
      obtain ⟨⟨p, hp⟩, q, hq⟩ := h
      exact ⟨_, .range hp hq⟩
    · rw [itemTexts_plain hmem, List.forall_mem_singleton] at h
      obtain ⟨p, hp⟩ := h
      exact ⟨_, .number hp⟩

end Items

section Sets

theorem split_eq (p : Char) (s : String) :
    split p s = (s.toList.splitOn p).map String.ofList := by
  rw [List.splitOn_eq_splitOnP]
  rfl

theorem mapM_parseRange_isSome_iff (s : String) :
    ((split ',' s).mapM SequenceSet.parseRange).isSome = true ↔
      ∀ text ∈ pointTexts s, LooseNumber text := by
  rw [mapM_isSome_iff, split_eq, List.forall_mem_map, pointTexts, List.forall_mem_flatMap]
  constructor
  · intro h item hitem
    exact (parseRange_isSome_iff item).mp (h item hitem)
  · intro h item hitem
    exact (parseRange_isSome_iff item).mpr (h item hitem)

theorem mapM_parseRange_empty : (split ',' "").mapM SequenceSet.parseRange = none := by decide

theorem mapM_parseRange_dollar : (split ',' "$").mapM SequenceSet.parseRange = none := by decide

theorem parse_isSome_iff (s : String) : (SequenceSet.parse s).isSome = true ↔
    s = "$" ∨ ∀ text ∈ pointTexts s, LooseNumber text := by
  rw [← mapM_parseRange_isSome_iff]
  unfold SequenceSet.parse
  by_cases hempty : s = ""
  · subst hempty
    decide
  · by_cases hdollar : s = "$"
    · rw [if_neg hempty, if_pos hdollar]
      simp [hdollar]
    · rw [if_neg hempty, if_neg hdollar, Option.isSome_map]
      simp [hdollar]

theorem exists_forall₂_iff {α β : Type} {R : α → β → Prop} (l : List α) :
    (∃ r, List.Forall₂ R l r) ↔ ∀ x ∈ l, ∃ y, R x y := by
  induction l with
  | nil => simp
  | cons x l ih =>
    rw [List.forall_mem_cons, ← ih]
    constructor
    · rintro ⟨r, h⟩
      obtain ⟨y, ys, hxy, hys, -⟩ := List.forall₂_cons_left_iff.mp h
      exact ⟨⟨y, hxy⟩, ys, hys⟩
    · rintro ⟨⟨y, hxy⟩, ys, hys⟩
      exact ⟨y :: ys, .cons hxy hys⟩

theorem splitOn_items {items : List (List Char)} {ranges : List (Point × Point)} (hne : items ≠ [])
    (h : List.Forall₂ SeqItem items ranges) : ([','].intercalate items).splitOn ',' = items := by
  refine List.splitOn_intercalate ',' ?_ hne
  intro item hitem
  obtain ⟨r, hr⟩ := (exists_forall₂_iff items).mp ⟨ranges, h⟩ item hitem
  exact hr.comma_not_mem

theorem Lists.read {s : String} {set : SequenceSet} (h : Lists s set) :
    SequenceSet.parse s = some set := by
  cases h with
  | saved => decide
  | @ranges items ranges hne h =>
    have hread : (split ',' (String.ofList ([','].intercalate items))).mapM
        SequenceSet.parseRange = some ranges := by
      rw [split_eq, String.toList_ofList, splitOn_items hne h]
      refine mapM_eq_some_iff.mpr (List.forall₂_map_left_iff.mpr ?_)
      exact h.imp fun item r hr => hr.read
    unfold SequenceSet.parse
    split_ifs with hempty hdollar
    · rw [hempty, mapM_parseRange_empty] at hread
      cases hread
    · rw [hdollar, mapM_parseRange_dollar] at hread
      cases hread
    · rw [hread]
      rfl

theorem lists_iff (s : String) : (∃ set, Lists s set) ↔
    s = "$" ∨ ∀ text ∈ pointTexts s, ∃ p, SeqNumber text p := by
  rw [pointTexts, List.forall_mem_flatMap]
  constructor
  · rintro ⟨set, h⟩
    cases h with
    | saved => exact Or.inl rfl
    | @ranges items ranges hne h =>
      right
      rw [String.toList_ofList, splitOn_items hne h]
      intro item hitem
      exact (seqItem_iff item).mp ((exists_forall₂_iff items).mp ⟨ranges, h⟩ item hitem)
  · rintro (rfl | h)
    · exact ⟨_, .saved⟩
    · obtain ⟨ranges, hranges⟩ := (exists_forall₂_iff (s.toList.splitOn ',')).mpr fun item hitem =>
        (seqItem_iff item).mpr (h item hitem)
      have hlists := Lists.ranges (List.splitOn_ne_nil ',' s.toList) hranges
      rw [List.intercalate_splitOn, String.ofList_toList] at hlists
      exact ⟨_, hlists⟩

theorem contains_iff_inRange (set : SequenceSet) (v largest : ℕ) :
    set.contains v largest = true ↔ ∃ r ∈ set.ranges, InRange largest v r := by
  rw [SequenceSet.contains, List.any_eq_true]
  refine exists_congr fun r => and_congr_right fun _ => ?_
  unfold InRange
  dsimp only
  split_ifs with h
  · simp [h]
  · have hle := Nat.le_of_not_le h
    simp [hle]

end Sets

section Exact

/-- A text is accepted when the grammar has it, and then stands for the ranges that it lists. -/
def ReadExactly (s : String) : Prop :=
  ((SequenceSet.parse s).isSome = true ↔ ∃ set, Lists s set) ∧
    ∀ set listed, SequenceSet.parse s = some set → Lists s listed → ∀ v largest,
      (set.contains v largest = true ↔ ∃ r ∈ listed.ranges, InRange largest v r)

/-- Where every number is one for the reader, every number is one of the grammar. -/
def PlainlyWritten (s : String) : Prop :=
  (∀ text ∈ pointTexts s, LooseNumber text) → ∀ text ∈ pointTexts s, ∃ p, SeqNumber text p

theorem readExactly_iff (s : String) : ReadExactly s ↔ PlainlyWritten s := by
  unfold ReadExactly
  rw [parse_isSome_iff, lists_iff]
  constructor
  · rintro ⟨haccepts, -⟩ hloose
    rcases haccepts.mp (Or.inr hloose) with rfl | hplain
    · rw [← mapM_parseRange_isSome_iff, mapM_parseRange_dollar] at hloose
      cases hloose
    · exact hplain
  · intro h
    constructor
    · constructor
      · intro haccepts
        exact haccepts.imp id h
      · intro hlists
        refine hlists.imp id fun hplain text htext => ?_
        obtain ⟨p, hp⟩ := hplain text htext
        exact hp.loose
    · intro set listed hset hlisted v largest
      have heq : set = listed := Option.some.inj (hset.symm.trans hlisted.read)
      rw [heq]
      exact contains_iff_inRange listed v largest

theorem readExactly_plus : ¬ ReadExactly "+01" := by
  intro h
  obtain ⟨set, hset⟩ := h.1.mp (by decide)
  have hplain := (lists_iff "+01").mp ⟨set, hset⟩
  have htexts : pointTexts "+01" = [['+', '0', '1']] := by decide
  rw [htexts, List.forall_mem_singleton] at hplain
  obtain hdollar | ⟨p, hp⟩ := hplain
  · exact absurd hdollar (by decide)
  · cases hp with
    | num h _ => exact h.not_mem (by decide) List.mem_cons_self

end Exact

end Dmtap.Mail.Imap
