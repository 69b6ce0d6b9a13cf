import Dmtap.Lib.Globs
import Dmtap.Mail.Imap.Session

/-! Names listed by a pattern. The table answers what cutting the name into parts would. -/
namespace Dmtap.Mail.Imap
open Lib

/-- The parts of a name that a byte of the pattern stands for: any bytes for a star, any but the
delimiter for a percent sign, and itself for every other byte. -/
def StandsFor (c : UInt8) (part : Bytes) : Prop :=
  if c = 42 then True
  else if c = 37 then 47 ∉ part
  else part = [c]

/-- The match by recursion on the pattern, which tries every length for a wildcard. -/
def wildcardRec : Bytes → Bytes → Bool
  | [], name => name.isEmpty
  | c :: pattern, name =>
    if c = 42 then
      (List.range (name.length + 1)).any fun k => wildcardRec pattern (name.drop k)
    else if c = 37 then
      (List.range (name.length + 1)).any fun k =>
        !(name.take k).contains 47 && wildcardRec pattern (name.drop k)
    else name.head? == some c && wildcardRec pattern name.tail

section Symbols
variable {c : UInt8}

theorem standsFor_star (u : Bytes) : StandsFor 42 u ↔ ∀ b ∈ u, True := by
  simp [StandsFor]

theorem standsFor_percent_iff (u : Bytes) : StandsFor 37 u ↔ 47 ∉ u := by
  have hne : ¬ (37 : UInt8) = 42 := by decide
  unfold StandsFor
  rw [if_neg hne, if_pos rfl]

theorem standsFor_percent (u : Bytes) : StandsFor 37 u ↔ ∀ b ∈ u, b ≠ 47 := by
  rw [standsFor_percent_iff]
  exact List.forall_mem_ne'.symm

theorem standsFor_literal (hstar : c ≠ 42) (hpercent : c ≠ 37) (u : Bytes) :
    StandsFor c u ↔ u = [c] := by
  unfold StandsFor
  rw [if_neg hstar, if_neg hpercent]

end Symbols

section Table
variable {pattern : Bytes}

/-- A row of the table, by the kind of the byte of the pattern, from the end of the name. -/
theorem isRow_wildcardRow (c : UInt8) {name : Bytes} {below : List Bool}
    (h : IsRow (Matches StandsFor pattern) name below) :
    IsRow (Matches StandsFor (c :: pattern)) name (wildcardRow c name below) := by
  induction name generalizing below with
  | nil =>
    refine .nil ?_
    have hskip := h.headD_iff
    by_cases hstar : c = 42
    · rw [hstar, matches_run_nil standsFor_star]
      simpa using hskip
    · by_cases hpercent : c = 37
      · rw [hpercent, matches_run_nil standsFor_percent]
        simpa using hskip
      · have hnone := matches_literal_nil (p := pattern) (standsFor_literal hstar hpercent)
        simp [hstar, hpercent, hnone]
  | cons n name ih =>
    have hskip := h.headD_iff
    have hrow := ih h.tail
    have hmore := hrow.headD_iff
    have hnext := h.tail.headD_iff
    refine .cons ?_ hrow
    by_cases hstar : c = 42
    · rw [hstar] at hmore ⊢
      rw [matches_run_cons standsFor_star, if_pos rfl, Bool.or_eq_true, hskip, hmore]
      simp
    · by_cases hpercent : c = 37
      · rw [hpercent] at hmore ⊢
        rw [matches_run_cons standsFor_percent, if_neg (by decide), if_pos rfl, Bool.or_eq_true,
          Bool.and_eq_true, hskip, hmore, decide_eq_true_iff]
      · rw [matches_literal_cons (standsFor_literal hstar hpercent), if_neg hstar,
          if_neg hpercent, Bool.and_eq_true, hnext, decide_eq_true_iff]

theorem table_iff (pattern name : String) :
    wildcardMatch pattern name = true ↔ Matches StandsFor (utf8 pattern) (utf8 name) :=
  (isRow_foldr (isRow_last StandsFor (utf8 name))
    (fun c _ _ h => isRow_wildcardRow c h) (utf8 pattern)).headD_iff

end Table

theorem wildcardRec_iff (pattern name : Bytes) :
    wildcardRec pattern name = true ↔ Matches StandsFor pattern name := by
  induction pattern generalizing name with
  | nil => rw [matches_nil_iff, wildcardRec, List.isEmpty_iff]
  | cons c pattern ih =>
    unfold wildcardRec
    by_cases hstar : c = 42
    · rw [if_pos hstar, matches_cons_iff_take, List.any_eq_true, hstar]
      simp only [List.mem_range, Nat.lt_succ_iff, ih, StandsFor, if_true, true_and]
    · by_cases hpercent : c = 37
      · have hpart : ∀ k, (!(name.take k).contains 47) = true ↔ StandsFor 37 (name.take k) := by
          intro k
          rw [standsFor_percent_iff, Bool.not_eq_true', List.contains_eq_mem,
            decide_eq_false_iff_not]
        rw [if_neg hstar, if_pos hpercent, matches_cons_iff_take, List.any_eq_true, hpercent]
        simp only [List.mem_range, Nat.lt_succ_iff, ih, hpart, Bool.and_eq_true]
      · rw [if_neg hstar, if_neg hpercent, Bool.and_eq_true, ih]
        cases name with
        | nil =>
          have hnone := matches_literal_nil (p := pattern) (standsFor_literal hstar hpercent)
          simp [hnone]
        | cons n name =>
          rw [matches_literal_cons (standsFor_literal hstar hpercent)]
          simp

/-- The table, a cut of the name into parts and the recursion agree. -/
theorem wildcardMatch_iff_cut (pattern name : String) :
    (wildcardMatch pattern name = true ↔
      ∃ parts, List.Forall₂ StandsFor (utf8 pattern) parts ∧ parts.flatten = utf8 name) ∧
    wildcardMatch pattern name = wildcardRec (utf8 pattern) (utf8 name) := by
  have htable := table_iff pattern name
  refine ⟨htable, Bool.eq_iff_iff.mpr ?_⟩
  rw [htable, wildcardRec_iff]

example : wildcardMatch "a/%" "a/b" = true := by decide

example : wildcardMatch "a/%" "a/b/c" = false := by decide

end Dmtap.Mail.Imap
