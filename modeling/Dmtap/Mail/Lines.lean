import Dmtap.Mail.Mime

/-! A message as a list of lines. Those in front of the first empty line are its header; an empty
line in front of all others does not count. -/
namespace Dmtap.Mail
open Lib

/-- Lines as a message is cut into them: each ends at its only line feed, and the last may lack
it. -/
inductive IsLines : List Bytes → Prop
  | nil : IsLines []
  | last {line : Bytes} (hne : line ≠ []) (hline : 10 ∉ line) : IsLines [line]
  | cons {line : Bytes} (hline : 10 ∉ line) {lines : List Bytes} (hlines : IsLines lines) :
    IsLines ((line ++ [10]) :: lines)

theorem flatten_splitInclusive (raw : Bytes) : (splitInclusive raw).flatten = raw := by
  induction raw with
  | nil => rfl
  | cons b raw ih =>
    unfold splitInclusive
    split
    · rw [List.flatten_cons, ih]
      rfl
    · cases hlines : splitInclusive raw with
      | nil =>
        rw [hlines] at ih
        rw [← ih]
        rfl
      | cons line lines =>
        rw [hlines] at ih
        rw [← ih]
        rfl

theorem isLines_splitInclusive (raw : Bytes) : IsLines (splitInclusive raw) := by
  induction raw with
  | nil => exact .nil
  | cons b raw ih =>
    unfold splitInclusive
    split
    · rename_i hb
      rw [hb]
      exact @IsLines.cons [] List.not_mem_nil _ ih
    · rename_i hb
      have hb : 10 ≠ b := fun h => hb h.symm
      revert ih
      cases splitInclusive raw with
      | nil => exact fun _ => .last (List.cons_ne_nil _ _) (by simpa using hb)
      | cons line lines =>
        intro ih
        cases ih with
        | last _ hline =>
          exact .last (List.cons_ne_nil _ _) (List.not_mem_cons_of_ne_of_not_mem hb hline)
        | cons hline hlines => exact .cons (List.not_mem_cons_of_ne_of_not_mem hb hline) hlines

theorem splitInclusive_line {line : Bytes} (hline : 10 ∉ line) (raw : Bytes) :
    splitInclusive (line ++ 10 :: raw) = (line ++ [10]) :: splitInclusive raw := by
  induction line with
  | nil => rw [List.nil_append, List.nil_append, splitInclusive, if_pos rfl]
  | cons b line ih =>
    obtain ⟨hb, hline⟩ := not_or.mp (mt List.mem_cons.mpr hline)
    rw [List.cons_append, splitInclusive, if_neg (Ne.symm hb), ih hline]
    rfl

theorem splitInclusive_last {line : Bytes} (hne : line ≠ []) (hline : 10 ∉ line) :
    splitInclusive line = [line] := by
  induction line with
  | nil => exact absurd rfl hne
  | cons b line ih =>
    obtain ⟨hb, hline⟩ := not_or.mp (mt List.mem_cons.mpr hline)
    rw [splitInclusive, if_neg (Ne.symm hb)]
    cases line with
    | nil => rfl
    | cons c line => rw [ih (List.cons_ne_nil _ _) hline]

/-- Lines are found on either side of a line feed separately. -/
theorem splitInclusive_append_lf (raw rest : Bytes) :
    splitInclusive (raw ++ 10 :: rest) = splitInclusive (raw ++ [10]) ++ splitInclusive rest := by
  induction raw with
  | nil =>
    rw [List.nil_append, List.nil_append, splitInclusive, if_pos rfl]
    rfl
  | cons b raw ih =>
    rw [List.cons_append, List.cons_append, splitInclusive, splitInclusive, ih]
    split
    · rfl
    · cases hlines : splitInclusive (raw ++ [10]) with
      | nil =>
        have hflat := flatten_splitInclusive (raw ++ [10])
        rw [hlines] at hflat
        simp at hflat
      | cons line lines => rfl

namespace IsLines

theorem splitInclusive_flatten {lines : List Bytes} (h : IsLines lines) :
    splitInclusive lines.flatten = lines := by
  induction h with
  | nil => rfl
  | last hne hline => rw [List.flatten_singleton, splitInclusive_last hne hline]
  | cons hline _ ih =>
    rw [List.flatten_cons, List.append_assoc, List.singleton_append, splitInclusive_line hline, ih]

theorem sublist {lines kept : List Bytes} (h : IsLines lines) (hkept : kept.Sublist lines) :
    IsLines kept := by
  induction h generalizing kept with
  | nil =>
    rw [List.sublist_nil.mp hkept]
    exact .nil
  | last hne hline =>
    rcases List.sublist_singleton.mp hkept with rfl | rfl
    · exact .nil
    · exact .last hne hline
  | cons hline _ ih =>
    cases hkept with
    | cons _ hkept => exact ih hkept
    | cons_cons _ hkept => exact .cons hline (ih hkept)

theorem ne_nil {lines : List Bytes} (h : IsLines lines) : ∀ line ∈ lines, line ≠ [] := by
  induction h with
  | nil => exact fun _ hline => absurd hline List.not_mem_nil
  | last hne _ =>
    intro line hline
    rwa [List.mem_singleton.mp hline]
  | cons _ _ ih =>
    intro line hline
    rcases List.mem_cons.mp hline with rfl | hline
    · exact List.append_ne_nil_of_right_ne_nil _ (List.cons_ne_nil _ _)
    · exact ih line hline

end IsLines

section Separator

/-- Where the header ends and where the body begins, when there is an empty line. -/
def separator : Bytes → Option (ℕ × ℕ)
  | [] => none
  | b :: raw =>
    let later := (separator raw).map fun s => (s.1 + 1, s.2 + 1)
    if b = 10 then
      match raw with
      | 10 :: _ => some (1, 2)
      | 13 :: 10 :: _ => some (1, 3)
      | _ => later
    else later

def isBlank (line : Bytes) : Bool := line == [10] || line == [13, 10]

/-- The lines in front of the first empty line that follows another line. -/
def headLines : List Bytes → List Bytes
  | [] => []
  | line :: lines => line :: lines.takeWhile (!isBlank ·)

/-- That empty line, if there is one, and what stands behind it. -/
def restLines (lines : List Bytes) : List Bytes := lines.tail.dropWhile (!isBlank ·)

theorem headLines_append_restLines (lines : List Bytes) :
    headLines lines ++ restLines lines = lines := by
  cases lines with
  | nil => rfl
  | cons line lines => exact congrArg (line :: ·) List.takeWhile_append_dropWhile

theorem separator_cons_of_ne {b : UInt8} (hb : b ≠ 10) (raw : Bytes) :
    separator (b :: raw) = (separator raw).map fun s => (s.1 + 1, s.2 + 1) := by
  conv_lhs => unfold separator
  exact if_neg hb

theorem separator_cons_lf {raw : Bytes} (hlf : ∀ rest, raw ≠ 10 :: rest)
    (hcrlf : ∀ rest, raw ≠ 13 :: 10 :: rest) :
    separator (10 :: raw) = (separator raw).map fun s => (s.1 + 1, s.2 + 1) := by
  conv_lhs => unfold separator
  rw [if_pos rfl]
  split
  · exact absurd rfl (hlf _)
  · exact absurd rfl (hcrlf _)
  · rfl

theorem separator_append {line : Bytes} (hline : 10 ∉ line) (raw : Bytes) :
    separator (line ++ raw) =
      (separator raw).map fun s => (s.1 + line.length, s.2 + line.length) := by
  induction line with
  | nil => simp
  | cons b line ih =>
    obtain ⟨hb, hline⟩ := not_or.mp (mt List.mem_cons.mpr hline)
    rw [List.cons_append, separator_cons_of_ne (Ne.symm hb), ih hline, Option.map_map]
    rfl

theorem bodyOffset_eq (raw : Bytes) :
    bodyOffset raw = ((separator raw).map Prod.snd).getD raw.length := by
  induction raw with
  | nil => rfl
  | cons b raw ih =>
    have hlater : bodyOffset raw + 1 = (((separator raw).map fun s => (s.1 + 1, s.2 + 1)).map
        Prod.snd).getD (b :: raw).length := by
      rw [ih]
      cases separator raw <;> rfl
    unfold bodyOffset
    by_cases hb : b = 10
    · subst hb
      rw [if_pos rfl]
      split
      · rfl
      · rfl
      · rename_i hlf hcrlf
        rw [separator_cons_lf (fun rest h => hlf rest h) (fun rest h => hcrlf rest h)]
        exact hlater
    · rw [if_neg hb, separator_cons_of_ne hb]
      exact hlater

theorem separator_eq_none {raw : Bytes} (h : 10 ∉ raw) : separator raw = none := by
  have hnone := separator_append h []
  rwa [List.append_nil] at hnone

/-- A line feed ends the header when the next line is empty. -/
theorem separator_lf_flatten {lines : List Bytes} (h : IsLines lines) :
    separator (10 :: lines.flatten) =
      if lines.head?.any isBlank then some (1, 1 + (lines.headD []).length)
      else (separator lines.flatten).map fun s => (s.1 + 1, s.2 + 1) := by
  cases h with
  | nil => rfl
  | @last line hne hline =>
    have hblank : isBlank line = false := by
      rw [isBlank, Bool.or_eq_false_iff, beq_eq_false_iff_ne, beq_eq_false_iff_ne]
      constructor <;> rintro rfl <;> simp at hline
    rw [List.flatten_singleton, if_neg (by simp [hblank])]
    apply separator_cons_lf
    · rintro rest rfl
      exact hline List.mem_cons_self
    · rintro rest rfl
      exact hline (List.mem_cons_of_mem _ List.mem_cons_self)
  | @cons line hline lines _ =>
    rw [List.flatten_cons, List.head?_cons, Option.any_some, List.headD_cons]
    obtain _ | ⟨b, _ | ⟨c, line⟩⟩ := line
    · rfl
    · by_cases hb : b = 13
      · subst hb
        rfl
      · have hlf : b ≠ 10 := Ne.symm (by simpa using hline)
        have hblank : isBlank [b, 10] = false := by simp [isBlank, hb]
        rw [List.singleton_append, hblank, if_neg Bool.false_ne_true]
        exact separator_cons_lf (fun rest h => hlf (List.cons.inj h).1)
          (fun rest h => hb (List.cons.inj h).1)
    · have hlf : b ≠ 10 ∧ c ≠ 10 := by
        rw [List.mem_cons, List.mem_cons] at hline
        exact ⟨fun h => hline (Or.inl h.symm), fun h => hline (Or.inr (Or.inl h.symm))⟩
      have hblank : isBlank (b :: c :: line ++ [10]) = false := by simp [isBlank]
      rw [hblank, if_neg Bool.false_ne_true]
      exact separator_cons_lf (fun rest h => hlf.1 (List.cons.inj h).1)
        (fun rest h => hlf.2 (List.cons.inj (List.cons.inj h).2).1)

/-- The separator is the first empty line behind another line. -/
theorem separator_flatten {lines : List Bytes} (h : IsLines lines) :
    separator lines.flatten = (restLines lines).head?.map fun blank =>
      ((headLines lines).flatten.length, (headLines lines).flatten.length + blank.length) := by
  induction h with
  | nil => rfl
  | last _ hline =>
    rw [List.flatten_singleton, separator_eq_none hline]
    rfl
  | @cons line hline lines hlines ih =>
    rw [List.flatten_cons, List.append_assoc, separator_append hline, List.singleton_append,
      separator_lf_flatten hlines]
    cases lines with
    | nil => rfl
    | cons next lines =>
      rw [List.head?_cons, Option.any_some, List.headD_cons]
      by_cases hblank : isBlank next = true
      · have hrest : restLines ((line ++ [10]) :: next :: lines) = next :: lines :=
          List.dropWhile_cons_of_neg (by simp [hblank])
        have hhead : headLines ((line ++ [10]) :: next :: lines) = [line ++ [10]] := by
          rw [headLines, List.takeWhile_cons_of_neg (by simp [hblank])]
        rw [if_pos hblank, hrest, hhead]
        simp
        omega
      · have hkeep : (!isBlank next) = true := by simpa using hblank
        have hrest : restLines ((line ++ [10]) :: next :: lines) = restLines (next :: lines) :=
          List.dropWhile_cons_of_pos hkeep
        have hhead : headLines ((line ++ [10]) :: next :: lines) =
            (line ++ [10]) :: headLines (next :: lines) :=
          congrArg ((line ++ [10]) :: ·) (List.takeWhile_cons_of_pos hkeep)
        rw [if_neg hblank, ih, hrest, hhead]
        cases (restLines (next :: lines)).head? with
        | none => rfl
        | some blank =>
          simp
          omega

theorem IsLines.separator_cases {lines : List Bytes} (h : IsLines lines) :
    (restLines lines = [] ∧ separator lines.flatten = none ∧
      lines.flatten = (headLines lines).flatten) ∨
    ∃ blank rest, restLines lines = blank :: rest ∧
      separator lines.flatten = some ((headLines lines).flatten.length,
        (headLines lines).flatten.length + blank.length) ∧
      lines.flatten = (headLines lines).flatten ++ (blank ++ rest.flatten) := by
  have hparts := congrArg List.flatten (headLines_append_restLines lines)
  rw [List.flatten_append] at hparts
  rw [separator_flatten h]
  cases hrest : restLines lines with
  | nil =>
    rw [hrest, List.flatten_nil, List.append_nil] at hparts
    exact Or.inl ⟨rfl, rfl, hparts.symm⟩
  | cons blank rest =>
    rw [hrest, List.flatten_cons] at hparts
    exact Or.inr ⟨blank, rest, rfl, rfl, hparts.symm⟩

theorem IsLines.headerAndBody_flatten {lines : List Bytes} (h : IsLines lines) :
    headerAndBody lines.flatten = ((headLines lines ++ (restLines lines).take 1).flatten,
      (restLines lines).tail.flatten) := by
  unfold headerAndBody
  rw [bodyOffset_eq]
  rcases h.separator_cases with ⟨hrest, hsep, hflat⟩ | ⟨blank, rest, hrest, hsep, hflat⟩
  · rw [hsep, hrest, hflat, Option.map_none, Option.getD_none, List.take_length,
      List.drop_length, List.take_nil, List.append_nil]
    rfl
  · have hoffset : ((headLines lines).flatten ++ blank).length =
        (headLines lines).flatten.length + blank.length := List.length_append
    rw [hsep, hrest, hflat, Option.map_some, Option.getD_some, ← hoffset, ← List.append_assoc,
      List.take_left, List.drop_left]
    simp

end Separator

end Dmtap.Mail
