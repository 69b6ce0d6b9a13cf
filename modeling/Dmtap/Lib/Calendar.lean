import Mathlib.Algebra.BigOperators.Intervals
import Mathlib.Algebra.Order.BigOperators.Group.Finset
import Mathlib.Tactic.IntervalCases

/-! The Gregorian calendar over all years, before and after its introduction. Days are numbered from
the start of year 0. Years that start in March have their leap day last, so that a day of a cycle of
400 such years gives its year and its day by divisions. -/
namespace Dmtap.Lib

def IsLeap (y : ℤ) : Prop := 4 ∣ y ∧ (100 ∣ y → 400 ∣ y)

instance (y : ℤ) : Decidable (IsLeap y) := inferInstanceAs (Decidable (_ ∧ _))

def monthLength (y m : ℤ) : ℤ :=
  if m = 2 then if IsLeap y then 29 else 28
  else if m = 4 ∨ m = 6 ∨ m = 9 ∨ m = 11 then 30
  else 31

/-- The days of a year in front of a month. -/
def daysBefore (y m : ℤ) : ℤ := ∑ i ∈ Finset.range (m - 1).toNat, monthLength y (i + 1)

def yearLength (y : ℤ) : ℤ := daysBefore y 13

/-- The days from the start of year 0 to the start of another year. -/
def yearStart (y : ℤ) : ℤ := 365 * y + (y + 3) / 4 - (y + 99) / 100 + (y + 399) / 400

/-- The number of a day, which need not be one of its month. -/
def dayNumber (y m d : ℤ) : ℤ := yearStart y + daysBefore y m + (d - 1)

theorem yearLength_eq (y : ℤ) : yearLength y = if IsLeap y then 366 else 365 := by
  unfold yearLength daysBefore
  by_cases h : IsLeap y
  · simp [Finset.sum_range_succ, monthLength, h]
  · simp [Finset.sum_range_succ, monthLength, h]

theorem yearStart_succ (y : ℤ) : yearStart (y + 1) = yearStart y + yearLength y := by
  rw [yearLength_eq]
  unfold yearStart
  by_cases h : IsLeap y
  · rw [if_pos h]
    unfold IsLeap at h
    omega
  · rw [if_neg h]
    unfold IsLeap at h
    omega

example : yearStart 0 = 0 := by decide

theorem daysBefore_succ {y m : ℤ} (h : 1 ≤ m) :
    daysBefore y (m + 1) = daysBefore y m + monthLength y m := by
  have hcast : ((m - 1).toNat : ℤ) + 1 = m := by omega
  have hnat : (m + 1 - 1).toNat = (m - 1).toNat + 1 := by omega
  unfold daysBefore
  rw [hnat, Finset.sum_range_succ, hcast]

section March

/-- The year that starts in March of a month. -/
def marchYear (y m : ℤ) : ℤ := if m ≤ 2 then y - 1 else y

def marchMonth (m : ℤ) : ℤ := if 2 < m then m - 3 else m + 9

/-- By induction on the month: five months from March on have 153 days. -/
theorem daysBefore_of_le {y m : ℤ} (h : 3 ≤ m) (h' : m ≤ 12) :
    daysBefore y m = daysBefore y 3 + (153 * (m - 3) + 2) / 5 := by
  induction m, h using Int.leInduction with
  | base => simp
  | succ m hm ih =>
    have hlength : monthLength y m = if m = 4 ∨ m = 6 ∨ m = 9 ∨ m = 11 then 30 else 31 :=
      if_neg (by omega)
    have hstep : (153 * (m + 1 - 3) + 2) / 5 = (153 * (m - 3) + 2) / 5 + monthLength y m := by
      have hlast : m ≤ 11 := by omega
      rw [hlength]
      interval_cases m
      all_goals simp
    rw [daysBefore_succ (by omega), ih (by omega), hstep]
    omega

theorem yearLength_march (y : ℤ) : yearLength y = daysBefore y 3 + 306 := by
  have hmonth : daysBefore y 12 = daysBefore y 3 + (153 * (12 - 3) + 2) / 5 :=
    daysBefore_of_le (by omega) le_rfl
  have hlast : daysBefore y (12 + 1) = daysBefore y 12 + 31 := daysBefore_succ (by omega)
  calc
    daysBefore y 13 = daysBefore y 12 + 31 := hlast
    _ = daysBefore y 3 + 306 := by omega

theorem march_start (y : ℤ) :
    yearStart y + daysBefore y 3 = 365 * y + y / 4 - y / 100 + y / 400 + 60 := by
  have hnext := yearStart_succ y
  rw [yearLength_march] at hnext
  unfold yearStart at hnext ⊢
  omega

theorem dayNumber_eq {y m : ℤ} (h : 1 ≤ m) (h' : m ≤ 12) (d : ℤ) :
    dayNumber y m d = 365 * marchYear y m + marchYear y m / 4 - marchYear y m / 100 +
      marchYear y m / 400 + (153 * marchMonth m + 2) / 5 + d + 59 := by
  unfold dayNumber marchYear marchMonth
  by_cases hm : 2 < m
  · have hstart := march_start y
    have hbefore := daysBefore_of_le (y := y) hm h'
    rw [if_neg (by omega), if_pos hm]
    omega
  · have hbefore : daysBefore y m = 31 * (m - 1) := by
      have hm' : m = 1 ∨ m = 2 := by omega
      rcases hm' with rfl | rfl
      · simp [daysBefore]
      · simp [daysBefore, monthLength]
    rw [if_pos (by omega), if_neg hm, hbefore]
    unfold yearStart
    omega

end March

section Cycle

/-- A day of the cycle by its century, its four years, its year and its day of that year. -/
theorem cycle_cases {n : ℤ} (h : 0 ≤ n) (h' : n < 146097) : ∃ c q r d : ℤ,
    (0 ≤ c ∧ c < 4) ∧ (0 ≤ q ∧ q < 25) ∧ (0 ≤ r ∧ r < 4) ∧ (0 ≤ d ∧ d < 366) ∧
      (d = 365 → r = 3 ∧ (q = 24 → c = 3)) ∧ n = 36524 * c + 1461 * q + 365 * r + d := by
  obtain ⟨c, hc, hcentury, hcentury'⟩ : ∃ c, (0 ≤ c ∧ c < 4) ∧ 36524 * c ≤ n ∧
      (n < 36524 * c + 36524 ∨ c = 3 ∧ n = 146096) := by
    by_cases hlast : n = 146096
    · exact ⟨3, by omega⟩
    · exact ⟨n / 36524, by omega⟩
  obtain ⟨q, hq, hfour, hfour'⟩ : ∃ q, (0 ≤ q ∧ q < 25) ∧ 1461 * q ≤ n - 36524 * c ∧
      n - 36524 * c < 1461 * q + 1461 := ⟨(n - 36524 * c) / 1461, by omega⟩
  obtain ⟨r, hr, hone, hone'⟩ : ∃ r, (0 ≤ r ∧ r < 4) ∧ 365 * r ≤ n - 36524 * c - 1461 * q ∧
      (n - 36524 * c - 1461 * q < 365 * r + 365 ∨
        r = 3 ∧ n - 36524 * c - 1461 * q = 1460) := by
    by_cases hlast : n - 36524 * c - 1461 * q = 1460
    · exact ⟨3, by omega⟩
    · exact ⟨(n - 36524 * c - 1461 * q) / 365, by omega⟩
  refine ⟨c, q, r, n - 36524 * c - 1461 * q - 365 * r, hc, hq, hr, by omega, ?_, by omega⟩
  intro hd
  constructor
  · omega
  · intro hq24
    omega

theorem cycle_year {c q r d : ℤ} (hc : 0 ≤ c ∧ c < 4) (hq : 0 ≤ q ∧ q < 25) (hr : 0 ≤ r ∧ r < 4)
    (hd : 0 ≤ d ∧ d < 366) (hlast : d = 365 → r = 3 ∧ (q = 24 → c = 3)) {n : ℤ}
    (hn : n = 36524 * c + 1461 * q + 365 * r + d) :
    (n - n / 1460 + n / 36524 - n / 146096) / 365 = 100 * c + 4 * q + r := by
  by_cases hend : n = 146096
  · subst hend
    omega
  · have hcentury : n / 36524 = c := by omega
    have hcycle : n / 146096 = 0 := by omega
    have hfour : n / 1460 = 25 * c + q + (24 * c + q + 365 * r + d) / 1460 := by omega
    rw [hcentury, hcycle, hfour]
    omega

theorem marchYear_cases {n : ℤ} (h : 0 ≤ n) (h' : n < 146097) {y : ℤ}
    (hy : y = (n - n / 1460 + n / 36524 - n / 146096) / 365) :
    (0 ≤ y ∧ y < 400) ∧ ∃ d, (0 ≤ d ∧ d < 366) ∧ (d = 365 → IsLeap (y + 1)) ∧
      n = 365 * y + y / 4 - y / 100 + d := by
  obtain ⟨c, q, r, d, hc, hq, hr, hd, hlast, hn⟩ := cycle_cases h h'
  rw [cycle_year hc hq hr hd hlast hn] at hy
  have hfour : y / 4 = 25 * c + q := by omega
  have hcentury : y / 100 = c := by omega
  refine ⟨by omega, d, hd, ?_, by omega⟩
  intro hd
  unfold IsLeap
  omega

end Cycle

/-- A day that the calendar has. -/
structure Date where
  year : ℤ
  month : ℤ
  day : ℤ
  month_pos : 1 ≤ month
  month_le : month ≤ 12
  day_pos : 1 ≤ day
  day_le : day ≤ monthLength year month

def Date.number (date : Date) : ℤ := dayNumber date.year date.month date.day

theorem Date.day_le_31 (date : Date) : date.day ≤ 31 := by
  have hle := date.day_le
  unfold monthLength at hle
  split_ifs at hle
  all_goals omega

section Numbers

theorem monthLength_nonneg (y m : ℤ) : 0 ≤ monthLength y m := by
  unfold monthLength
  split_ifs
  all_goals omega

theorem daysBefore_mono (y : ℤ) {m m' : ℤ} (h : m ≤ m') : daysBefore y m ≤ daysBefore y m' := by
  have hrange : Finset.range (m - 1).toNat ⊆ Finset.range (m' - 1).toNat :=
    Finset.range_subset_range.mpr (by omega)
  exact Finset.sum_le_sum_of_subset_of_nonneg hrange fun i _ _ => monthLength_nonneg y (i + 1)

theorem yearStart_mono {y y' : ℤ} (h : y ≤ y') : yearStart y ≤ yearStart y' := by
  unfold yearStart
  omega

/-- A day lies in its month. -/
theorem Date.number_bounds_month (date : Date) :
    yearStart date.year + daysBefore date.year date.month ≤ date.number ∧
      date.number < yearStart date.year + daysBefore date.year (date.month + 1) := by
  have hpos := date.day_pos
  have hle := date.day_le
  rw [daysBefore_succ date.month_pos, Date.number, dayNumber]
  omega

/-- A day lies in its year. -/
theorem Date.number_bounds_year (date : Date) :
    yearStart date.year ≤ date.number ∧ date.number < yearStart (date.year + 1) := by
  obtain ⟨hlo, hhi⟩ := date.number_bounds_month
  have hfirst : daysBefore date.year 1 ≤ daysBefore date.year date.month :=
    daysBefore_mono _ date.month_pos
  have hlast : daysBefore date.year (date.month + 1) ≤ daysBefore date.year 13 :=
    daysBefore_mono _ (by have := date.month_le; omega)
  have hzero : daysBefore date.year 1 = 0 := rfl
  rw [yearStart_succ, yearLength]
  omega

theorem Date.year_le_of_number {a b : Date} (h : a.number = b.number) : a.year ≤ b.year := by
  by_contra hlater
  have hstart : yearStart (b.year + 1) ≤ yearStart a.year := yearStart_mono (by omega)
  have ha := a.number_bounds_year
  have hb := b.number_bounds_year
  omega

theorem Date.month_le_of_number {a b : Date} (h : a.number = b.number) (hyear : a.year = b.year) :
    a.month ≤ b.month := by
  by_contra hlater
  have hstart : daysBefore b.year (b.month + 1) ≤ daysBefore b.year a.month :=
    daysBefore_mono _ (by omega)
  have ha := a.number_bounds_month
  have hb := b.number_bounds_month
  rw [hyear] at ha
  omega

/-- A day has one date. -/
theorem Date.fields_of_number {a b : Date} (h : a.number = b.number) :
    (a.year, a.month, a.day) = (b.year, b.month, b.day) := by
  have hyear := le_antisymm (year_le_of_number h) (year_le_of_number h.symm)
  have hmonth := le_antisymm (month_le_of_number h hyear) (month_le_of_number h.symm hyear.symm)
  have hday : a.day = b.day := by
    unfold Date.number dayNumber at h
    rw [hyear, hmonth] at h
    omega
  rw [hyear, hmonth, hday]

/-- Earlier by the year, else by the month, else by the day. -/
def Date.Before (a b : Date) : Prop :=
  a.year < b.year ∨ (a.year = b.year ∧ (a.month < b.month ∨ (a.month = b.month ∧ a.day < b.day)))

theorem Date.Before.number_lt {a b : Date} (h : a.Before b) : a.number < b.number := by
  rcases h with hyear | ⟨hyear, hmonth | ⟨hmonth, hday⟩⟩
  · have hstart : yearStart (a.year + 1) ≤ yearStart b.year := yearStart_mono (by omega)
    have ha := a.number_bounds_year
    have hb := b.number_bounds_year
    omega
  · have hstart : daysBefore b.year (a.month + 1) ≤ daysBefore b.year b.month :=
      daysBefore_mono _ (by omega)
    have ha := a.number_bounds_month
    have hb := b.number_bounds_month
    rw [hyear] at ha
    omega
  · unfold Date.number dayNumber
    rw [hyear, hmonth]
    omega

/-- Dates are in the order of their numbers. -/
theorem Date.before_iff {a b : Date} : a.Before b ↔ a.number < b.number := by
  refine ⟨Before.number_lt, fun h => ?_⟩
  by_contra hnot
  have hcases : b.Before a ∨ (a.year = b.year ∧ a.month = b.month ∧ a.day = b.day) := by
    unfold Before at hnot ⊢
    omega
  rcases hcases with hafter | ⟨hyear, hmonth, hday⟩
  · have hlt := hafter.number_lt
    omega
  · unfold Date.number at h
    rw [hyear, hmonth, hday] at h
    exact absurd h (lt_irrefl _)

end Numbers

/-- The date of a day of a year that starts in March. -/
theorem exists_date {y d : ℤ} (hd : 0 ≤ d ∧ d < 366) (hleap : d = 365 → IsLeap (y + 1)) {mp m : ℤ}
    (hmp : mp = (5 * d + 2) / 153) (hm : m = if mp < 10 then mp + 3 else mp - 9) :
    ∃ date : Date, date.year = (if m ≤ 2 then y + 1 else y) ∧ date.month = m ∧
      date.day = d - (153 * mp + 2) / 5 + 1 ∧
      date.number = 365 * y + y / 4 - y / 100 + y / 400 + d + 60 := by
  have hbounds : 0 ≤ mp ∧ mp < 12 := by omega
  have hmonth : 1 ≤ m ∧ m ≤ 12 := by
    rw [hm]
    split_ifs with h
    · omega
    · omega
  have hmarch : marchMonth m = mp := by
    unfold marchMonth
    rw [hm]
    split_ifs with h h'
    all_goals omega
  have hyear : marchYear (if m ≤ 2 then y + 1 else y) m = y := by
    unfold marchYear
    by_cases h : m ≤ 2
    · rw [if_pos h, if_pos h, add_sub_cancel_right]
    · rw [if_neg h, if_neg h]
  have hlast : d - (153 * mp + 2) / 5 + 1 ≤ monthLength (if m ≤ 2 then y + 1 else y) m := by
    by_cases hfeb : m = 2
    · subst hfeb
      rw [if_pos (by omega), monthLength, if_pos rfl]
      by_cases h : IsLeap (y + 1)
      · rw [if_pos h]
        omega
      · have hd' : d ≠ 365 := mt hleap h
        rw [if_neg h]
        omega
    · rw [monthLength, if_neg hfeb]
      have hlength : (153 * mp + 2) / 5 + (if m = 4 ∨ m = 6 ∨ m = 9 ∨ m = 11 then 30 else 31) =
          (153 * (mp + 1) + 2) / 5 := by
        obtain ⟨hlo, hhi⟩ := hbounds
        clear hmp
        interval_cases mp
        all_goals
          subst hm
          simp at hfeb ⊢
      omega
  refine ⟨⟨if m ≤ 2 then y + 1 else y, m, d - (153 * mp + 2) / 5 + 1, hmonth.1, hmonth.2, by omega,
    hlast⟩, rfl, rfl, rfl, ?_⟩
  change dayNumber (if m ≤ 2 then y + 1 else y) m (d - (153 * mp + 2) / 5 + 1) = _
  rw [dayNumber_eq hmonth.1 hmonth.2, hyear, hmarch]
  omega

end Dmtap.Lib
