import Dmtap.Lib.Calendar
import Dmtap.Lib.Signed
import Dmtap.Mail.Dates
import Dmtap.Mail.EncodedWords

/-! The date of a message that a client appends: the numbers that its text spells, their day, and
the milliseconds since 1970. Each step of the arithmetic has to fit into its word. -/
namespace Dmtap.Mail
open Lib

/-- The day of a date, counted from 1 January 1970, where every step fits. -/
def daysFromCivil (y m d : ℤ) : Option ℤ := do
  let y ← (if m ≤ 2 then subI64 y 1 else some y)
  let era := (← (if 0 ≤ y then some y else subI64 y 399)).tdiv 400
  let yoe ← subI64 y (← mulI64 era 400)
  let mp ← (if 2 < m then subI64 m 3 else addI64 m 9)
  let doy ← subI64 (← addI64 ((← addI64 (← mulI64 153 mp) 2).tdiv 5) d) 1
  let doe ← addI64 (← subI64 (← addI64 (← mulI64 yoe 365) (yoe.tdiv 4)) (yoe.tdiv 100)) doy
  subI64 (← addI64 (← mulI64 era 146097) doe) 719468

/-- The numbers of a date and a time. -/
structure DateFields where
  year : ℤ
  month : ℤ
  day : ℤ
  hour : ℤ
  minute : ℤ
  second : ℤ
  deriving DecidableEq, Repr

/-- The numbers that a text spells. -/
def dateFields (s : String) : Option DateFields := do
  let (date, rest) ← splitOnce ' ' (String.ofList (trimMatches '"' (trim s).toList))
  let d := split '-' date
  let day ← d[0]?.bind parseI64
  let mon ← d[1]?.bind monthNum
  let year ← d[2]?.bind parseI64
  let t := split ':' ((split ' ' rest).headD "00:00:00")
  let h := (parseI64 (t[0]?.getD "0")).getD 0
  let mi := (parseI64 (t[1]?.getD "0")).getD 0
  let sec := (parseI64 (t[2]?.getD "0")).getD 0
  some ⟨year, mon, day, h, mi, sec⟩

/-- The milliseconds of a date and a time in UTC, where every step fits. -/
def DateFields.millis (f : DateFields) : Option ℕ := do
  let days ← daysFromCivil f.year f.month f.day
  let hours ← addI64 (← mulI64 days 86400) (← mulI64 f.hour 3600)
  let total ← addI64 (← addI64 hours (← mulI64 f.minute 60)) f.second
  let ms := (max total 0).toNat * 1000
  if ms < 2 ^ 64 then some ms else none

/-- The time that a text names, if it names one. Nothing where a step does not fit. -/
def parseInternalDate (s : String) : Option (Option ℕ) :=
  match dateFields s with
  | none => some none
  | some f => f.millis.map some

section Days

/-- A day from the year that starts in March, its cycle, its month and the day of the month, by
steps that fit. -/
def DayOf (p era mp d k : ℤ) : Prop :=
  let yoe := p - era * 400
  let doy := (153 * mp + 2).tdiv 5 + d
  let years := yoe * 365 + yoe.tdiv 4
  let doe := years - yoe.tdiv 100 + (doy - 1)
  (InI64 (era * 400) ∧ InI64 yoe) ∧ InI64 (153 * mp) ∧ InI64 (153 * mp + 2) ∧ InI64 doy ∧
    InI64 (doy - 1) ∧ InI64 (yoe * 365) ∧ InI64 years ∧ InI64 (years - yoe.tdiv 100) ∧ InI64 doe ∧
      InI64 (era * 146097) ∧ InI64 (era * 146097 + doe) ∧
        InI64 (era * 146097 + doe - 719468) ∧ era * 146097 + doe - 719468 = k

theorem daysFromCivil_eq_some_iff {y m d k : ℤ} : daysFromCivil y m d = some k ↔
    ∃ p shifted mp, (if m ≤ 2 then subI64 y 1 else some y) = some p ∧
      (if 0 ≤ p then some p else subI64 p 399) = some shifted ∧
        (if 2 < m then subI64 m 3 else addI64 m 9) = some mp ∧
          DayOf p (shifted.tdiv 400) mp d k := by
  unfold daysFromCivil
  simp only [Option.bind_eq_bind, Option.bind_eq_some_iff, addI64_eq_some_iff, subI64_eq_some_iff,
    mulI64_eq_some_iff, and_assoc, exists_and_left, exists_eq_left']
  constructor
  · rintro ⟨p, hp, shifted, hshifted, hera, hyoe, mp, hmp, hday⟩
    exact ⟨p, hp, shifted, hshifted, mp, hmp, ⟨hera, hyoe⟩, hday⟩
  · rintro ⟨p, hp, shifted, hshifted, mp, hmp, ⟨hera, hyoe⟩, hday⟩
    exact ⟨p, hp, shifted, hshifted, hera, hyoe, mp, hmp, hday⟩

theorem daysFromCivil_eq_some {y m d k : ℤ} (h : daysFromCivil y m d = some k) (hm : 1 ≤ m)
    (hm' : m ≤ 12) : k = dayNumber y m d - 719528 := by
  obtain ⟨p, shifted, mp, hp, hshifted, hmp, hday⟩ := daysFromCivil_eq_some_iff.mp h
  obtain ⟨-, -, -, -, -, -, -, -, -, -, -, -, rfl⟩ := hday
  have hyear : p = marchYear y m := by
    unfold marchYear
    split_ifs at hp ⊢ with hearly
    · exact (subI64_eq_some_iff.mp hp).2.symm
    · exact (Option.some.inj hp).symm
  have hmonth : mp = marchMonth m := by
    unfold marchMonth
    split_ifs at hmp ⊢ with hlate
    · exact (subI64_eq_some_iff.mp hmp).2.symm
    · exact (addI64_eq_some_iff.mp hmp).2.symm
  have hera : shifted.tdiv 400 = p / 400 := by
    rw [← tdiv_shifted (y := p) (k := 400) (by omega)]
    split_ifs at hshifted ⊢ with hp0
    · rw [Option.some.inj hshifted]
    · rw [← (subI64_eq_some_iff.mp hshifted).2]
      rfl
  have hyoe : 0 ≤ p - p / 400 * 400 := by omega
  have hmp0 : 0 ≤ 153 * mp + 2 := by
    rw [hmonth]
    unfold marchMonth
    split_ifs with hlate
    · omega
    · omega
  rw [dayNumber_eq hm hm', ← hyear, ← hmonth, hera, Int.tdiv_eq_ediv_of_nonneg hyoe,
    Int.tdiv_eq_ediv_of_nonneg hyoe, Int.tdiv_eq_ediv_of_nonneg hmp0]
  omega

theorem daysFromCivil_of_le {y m d : ℤ} (hy : 0 ≤ y) (hm : 1 ≤ m) (hm' : m ≤ 12) (hd : 0 ≤ d)
    (hd' : d ≤ 9000000000000000000) (h : dayNumber y m d - 719528 ≤ 9223372036854056339) :
    daysFromCivil y m d = some (dayNumber y m d - 719528) := by
  rw [dayNumber_eq hm hm'] at h ⊢
  have hmonth : (if 2 < m then subI64 m 3 else addI64 m 9) = some (marchMonth m) ∧
      0 ≤ marchMonth m ∧ marchMonth m ≤ 11 := by
    unfold marchMonth
    split_ifs with hlate
    · exact ⟨i64_of_le (by omega) (by omega), by omega⟩
    · exact ⟨i64_of_le (by omega) (by omega), by omega⟩
  obtain ⟨hmonth, hmp, hmp'⟩ := hmonth
  have hyear : (if m ≤ 2 then subI64 y 1 else some y) = some (marchYear y m) ∧
      -1 ≤ marchYear y m := by
    unfold marchYear at h ⊢
    split_ifs at h ⊢ with hearly
    · exact ⟨i64_of_le (by omega) (by omega), by omega⟩
    · exact ⟨rfl, by omega⟩
  obtain ⟨hyear, hp⟩ := hyear
  generalize marchYear y m = p at h hyear hp ⊢
  generalize marchMonth m = mp at h hmonth hmp hmp' ⊢
  have hshift : (if 0 ≤ p then some p else subI64 p 399) =
      some (if 0 ≤ p then p else p - 399) := by
    split_ifs with h0
    · rfl
    · exact i64_of_le (by omega) (by omega)
  have hera : (if 0 ≤ p then p else p - 399).tdiv 400 = p / 400 := tdiv_shifted (k := 400) (by omega)
  have hyoe : 0 ≤ p - p / 400 * 400 := by omega
  have hmp0 : 0 ≤ 153 * mp + 2 := by omega
  refine daysFromCivil_eq_some_iff.mpr ⟨p, _, mp, hyear, hshift, hmonth, ?_⟩
  have hfour : p / 4 = (p - p / 400 * 400) / 4 + p / 400 * 100 := by omega
  have hcentury : p / 100 = (p - p / 400 * 400) / 100 + p / 400 * 4 := by omega
  unfold DayOf InI64
  dsimp only
  rw [hera, Int.tdiv_eq_ediv_of_nonneg hyoe, Int.tdiv_eq_ediv_of_nonneg hyoe,
    Int.tdiv_eq_ediv_of_nonneg hmp0]
  clear hyear hmonth hshift hera
  refine ⟨⟨?_, ?_⟩, ?_, ?_, ?_, ?_, ?_, ?_, ?_, ?_, ?_, ?_, ?_, ?_⟩
  all_goals omega

end Days

section Fields

theorem nonneg_of_parseI64 {s : String} (hs : '-' ∉ s.toList) {n : ℤ} (h : parseI64 s = some n) :
    0 ≤ n := by
  have hsign : s.toList.head? ≠ some '-' := mt List.mem_of_head? hs
  unfold parseI64 at h
  dsimp only at h
  split_ifs at h
  all_goals
    cases h
    omega

theorem monthNum_bounds {s : String} {m : ℤ} (h : monthNum s = some m) : 1 ≤ m ∧ m ≤ 12 := by
  obtain ⟨i, hi, rfl⟩ := Option.map_eq_some_iff.mp h
  obtain ⟨hlt, -⟩ := List.findIdx?_eq_some_iff_getElem.mp hi
  simp only [List.length_cons, List.length_nil] at hlt
  omega

theorem monthNum_of_eqIgnoreAsciiCase {m : ℤ} (h : 1 ≤ m) (h' : m ≤ 12) {mon : String}
    (hmon : eqIgnoreAsciiCase (months.getD (m - 1).toNat "") mon = true) : monthNum mon = some m := by
  have hlower := eqIgnoreAsciiCase_iff.mp hmon
  have hindex : ∀ i < 12, (["jan", "feb", "mar", "apr", "may", "jun", "jul", "aug", "sep", "oct",
      "nov", "dec"].findIdx? fun x =>
        x.toList.map Char.toLower == (months.getD i "").toList.map Char.toLower) = some i := by
    decide +kernel
  have hsame : (fun x => eqIgnoreAsciiCase x mon) = fun x =>
      x.toList.map Char.toLower == (months.getD (m - 1).toNat "").toList.map Char.toLower := by
    funext x
    rw [Bool.eq_iff_iff, eqIgnoreAsciiCase_iff, beq_iff_eq, hlower]
  unfold monthNum
  rw [hsame, hindex (m - 1).toNat (by omega), Option.map_some]
  congr 1
  omega

theorem not_mem_of_mem_split {p : Char} {s part : String} (h : part ∈ split p s) :
    p ∉ part.toList := by
  obtain ⟨piece, hpiece, rfl⟩ := List.mem_map.mp h
  rw [String.toList_ofList]
  exact not_mem_of_mem_splitOn hpiece

theorem dateFields_bounds {s : String} {f : DateFields} (h : dateFields s = some f) :
    0 ≤ f.year ∧ 1 ≤ f.month ∧ f.month ≤ 12 ∧ 0 ≤ f.day := by
  unfold dateFields at h
  simp only [Option.bind_eq_bind, Option.bind_eq_some_iff] at h
  obtain ⟨⟨date, rest⟩, -, day, ⟨part, hpart, hday⟩, month, ⟨name, -, hmonth⟩, year,
    ⟨part', hpart', hyear⟩, hf⟩ := h
  cases hf
  have hdash := not_mem_of_mem_split (List.mem_of_getElem? hpart)
  have hdash' := not_mem_of_mem_split (List.mem_of_getElem? hpart')
  obtain ⟨hle, hge⟩ := monthNum_bounds hmonth
  exact ⟨nonneg_of_parseI64 hdash' hyear, hle, hge, nonneg_of_parseI64 hdash hday⟩

theorem dateFields_of_parts {s date rest : String}
    (hs : splitOnce ' ' (String.ofList (trimMatches '"' (trim s).toList)) = some (date, rest))
    {d m y : String} (hdate : split '-' date = [d, m, y]) {day month year : ℤ}
    (hday : parseI64 d = some day) (hmonth : monthNum m = some month)
    (hyear : parseI64 y = some year) {h mi sec : String}
    (htime : split ':' ((split ' ' rest).headD "00:00:00") = [h, mi, sec]) :
    dateFields s = some ⟨year, month, day, (parseI64 h).getD 0, (parseI64 mi).getD 0,
      (parseI64 sec).getD 0⟩ := by
  unfold dateFields
  rw [hs]
  dsimp only [Option.bind_eq_bind, Option.bind_some]
  rw [hdate, htime]
  simp [hday, hmonth, hyear]

theorem parseInternalDate_of_fields {s : String} {f : DateFields} (h : dateFields s = some f) :
    parseInternalDate s = f.millis.map some := by
  unfold parseInternalDate
  rw [h]

end Fields

section Fits
namespace DateFields

/-- The day, counted from 1 January 1970, whether or not its month has it. -/
def dayNumber (f : DateFields) : ℤ := Lib.dayNumber f.year f.month f.day - 719528

/-- The seconds since the start of 1970. -/
def moment (f : DateFields) : ℤ :=
  f.dayNumber * 86400 + f.hour * 3600 + f.minute * 60 + f.second

/-- The numbers are small enough for the words they are computed with. -/
structure Fit (f : DateFields) : Prop where
  day : f.dayNumber ≤ 106751991167300
  hour : -2562047788015215 ≤ f.hour ∧ f.hour ≤ 2562047788015215
  minute : -153722867280912930 ≤ f.minute ∧ f.minute ≤ 153722867280912930
  hours : InI64 (f.dayNumber * 86400 + f.hour * 3600)
  minutes : InI64 (f.dayNumber * 86400 + f.hour * 3600 + f.minute * 60)
  seconds : InI64 f.moment
  millis : f.moment ≤ 18446744073709551

theorem millis_of_fit {f : DateFields} (hyear : 0 ≤ f.year) (hmonth : 1 ≤ f.month)
    (hmonth' : f.month ≤ 12) (hday : 0 ≤ f.day) (h : f.Fit) :
    f.millis = some ((max f.moment 0).toNat * 1000) := by
  have hlow : f.day - 1000000 ≤ f.dayNumber := by
    unfold dayNumber
    rw [dayNumber_eq hmonth hmonth']
    unfold marchYear marchMonth
    split_ifs
    all_goals omega
  have hend := h.day
  have hdays := daysFromCivil_of_le hyear hmonth hmonth' hday (by omega) (hend.trans (by decide))
  have hmillis := h.millis
  unfold millis
  simp only [Option.bind_eq_bind, Option.bind_eq_some_iff, addI64_eq_some_iff, mulI64_eq_some_iff,
    and_assoc, exists_and_left, exists_eq_left', Option.ite_none_right_eq_some, Option.some.injEq]
  refine ⟨f.dayNumber, hdays, ?_, ?_, h.hours, ?_, h.minutes, h.seconds, ?_, rfl⟩
  · have hday := h.day
    unfold InI64
    omega
  · have hhour := h.hour
    unfold InI64
    omega
  · have hminute := h.minute
    unfold InI64
    omega
  · change (max f.moment 0).toNat * 1000 < 2 ^ 64
    omega

theorem millis_isSome_iff {f : DateFields} (hyear : 0 ≤ f.year) (hmonth : 1 ≤ f.month)
    (hmonth' : f.month ≤ 12) (hday : 0 ≤ f.day) : f.millis.isSome ↔ f.Fit := by
  constructor
  · intro h
    obtain ⟨ms, hms⟩ := Option.isSome_iff_exists.mp h
    unfold millis at hms
    simp only [Option.bind_eq_bind, Option.bind_eq_some_iff, addI64_eq_some_iff,
      mulI64_eq_some_iff, and_assoc, exists_and_left, exists_eq_left',
      Option.ite_none_right_eq_some] at hms
    obtain ⟨days, hdays, hin, hhour, hhours, hminute, hminutes, hseconds, hmillis, -⟩ := hms
    have heq : days = f.dayNumber := daysFromCivil_eq_some hdays hmonth hmonth'
    subst heq
    change (max f.moment 0).toNat * 1000 < 2 ^ 64 at hmillis
    unfold InI64 at hin hhour hminute
    exact ⟨by omega, by omega, by omega, hhours, hminutes, hseconds, by omega⟩
  · intro h
    rw [millis_of_fit hyear hmonth hmonth' hday h]
    rfl

end DateFields

theorem parseInternalDate_isSome_iff (s : String) :
    (parseInternalDate s).isSome ↔ ∀ f, dateFields s = some f → f.Fit := by
  unfold parseInternalDate
  cases hfields : dateFields s with
  | none => simp
  | some f =>
    obtain ⟨hyear, hmonth, hmonth', hday⟩ := dateFields_bounds hfields
    simp [DateFields.millis_isSome_iff hyear hmonth hmonth' hday]

theorem parseInternalDate_overflows :
    ¬ (parseInternalDate "1-Jan-9223372036854775807 00:00:00 +0000").isSome := by
  have hsplit : splitOnce ' ' (String.ofList (trimMatches '"'
      (trim "1-Jan-9223372036854775807 00:00:00 +0000").toList)) =
        some ("1-Jan-9223372036854775807", "00:00:00 +0000") := by
    decide +kernel
  have hdate : split '-' "1-Jan-9223372036854775807" = ["1", "Jan", "9223372036854775807"] := by
    decide +kernel
  have htime : split ':' ((split ' ' "00:00:00 +0000").headD "00:00:00") = ["00", "00", "00"] := by
    decide +kernel
  have hday : parseI64 "1" = some 1 := by decide +kernel
  have hmonth : monthNum "Jan" = some 1 :=
    monthNum_of_eqIgnoreAsciiCase (by decide) (by decide) (eqIgnoreAsciiCase_iff.mpr rfl)
  have hyear : parseI64 "9223372036854775807" = some 9223372036854775807 := by decide +kernel
  have hfields := dateFields_of_parts hsplit hdate hday hmonth hyear htime
  rw [parseInternalDate_of_fields hfields]
  decide +kernel

end Fits

end Dmtap.Mail
