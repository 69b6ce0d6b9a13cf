import Dmtap.Mail.Ascii
import Dmtap.Mail.InternalDate

/-! Dates and times of IMAP, as clients write them and as the server prints them. The moment that
one denotes is its time of day less its zone. -/
namespace Dmtap.Mail
open Lib

/-- A date and a time of day in a zone. A leap second counts as the second behind it. -/
structure DateTime where
  date : Date
  hour : ℕ
  minute : ℕ
  second : ℕ
  east : Bool
  zoneHours : ℕ
  zoneMinutes : ℕ
  year_nonneg : 0 ≤ date.year
  hour_lt : hour < 24
  minute_lt : minute < 60
  second_le : second ≤ 60
  zoneHours_lt : zoneHours < 100
  zoneMinutes_lt : zoneMinutes < 60

namespace DateTime

/-- The minutes that the zone is ahead of UTC. -/
def offset (t : DateTime) : ℤ :=
  if t.east then t.zoneHours * 60 + t.zoneMinutes else -(t.zoneHours * 60 + t.zoneMinutes)

/-- The seconds since the start of 1970, in UTC. -/
def moment (t : DateTime) : ℤ :=
  (t.date.number - 719528) * 86400 + t.hour * 3600 + t.minute * 60 + t.second - t.offset * 60

/-- The text, with what fills up the day in front and with a spelling of the month. -/
def written (t : DateTime) (fill : Char) (mon : String) : String :=
  String.ofList ((toString t.date.day.toNat).toList.leftpad 2 fill) ++ "-" ++ mon ++ "-" ++
    padded 4 t.date.year ++ " " ++ padded 2 t.hour ++ ":" ++ padded 2 t.minute ++ ":" ++
    padded 2 t.second ++ " " ++ (if t.east then "+" else "-") ++ padded 2 t.zoneHours ++
    padded 2 t.zoneMinutes

/-- A text of a date and a time. The name of the month may be in capitals. -/
def Spells (t : DateTime) (s : String) : Prop :=
  ∃ fill mon, (fill = '0' ∨ fill = ' ') ∧
    eqIgnoreAsciiCase (months.getD (t.date.month - 1).toNat "") mon ∧ s = t.written fill mon

/-- The text with or without its quotes. -/
def inQuotes (quoted : Bool) (s : String) : String := if quoted then "\"" ++ s ++ "\"" else s

end DateTime

section Numbers

theorem toList_padded (w : ℕ) (n : ℤ) :
    (padded w n).toList = (Nat.toDigits 10 n.toNat).leftpad w '0' := by
  rw [padded, String.toList_ofList, toList_toString]

theorem isDigit_of_mem_leftpad {w n : ℕ} {c : Char} (h : c ∈ (Nat.toDigits 10 n).leftpad w '0') :
    c.isDigit = true := by
  unfold List.leftpad at h
  rcases List.mem_append.mp h with h | h
  · rw [List.eq_of_mem_replicate h]
    rfl
  · exact isDigit_of_mem_toDigits h

theorem leftpad_ne_nil (w n : ℕ) (c : Char) : (Nat.toDigits 10 n).leftpad w c ≠ [] :=
  List.append_ne_nil_of_right_ne_nil _ Nat.toDigits_ne_nil

/-- Leading zeros do not count. -/
theorem foldl_leftpad (w n : ℕ) :
    ((Nat.toDigits 10 n).leftpad w '0').foldl (fun n c => n * 10 + (c.toNat - 48)) 0 = n := by
  have hzeros : ∀ k, (List.replicate k '0').foldl (fun n c => n * 10 + (c.toNat - 48)) 0 = 0 := by
    intro k
    induction k with
    | zero => rfl
    | succ k ih => rw [List.replicate_succ', List.foldl_append, ih]; rfl
  rw [List.leftpad, List.foldl_append, hzeros, foldl_toDigits]

theorem parseI64_leftpad {w n : ℕ} (h : n < 2 ^ 63) :
    parseI64 (String.ofList ((Nat.toDigits 10 n).leftpad w '0')) = some (n : ℤ) := by
  obtain ⟨c, cs, hcons⟩ := List.exists_cons_of_ne_nil (leftpad_ne_nil w n '0')
  have hdigits : ∀ d ∈ c :: cs, d.isDigit = true := by
    rw [← hcons]
    exact fun d => isDigit_of_mem_leftpad
  have hfirst := toNat_of_isDigit (hdigits c List.mem_cons_self)
  have hminus : c ≠ '-' := by
    rintro rfl
    exact absurd hfirst.1 (by decide)
  have hplus : c ≠ '+' := by
    rintro rfl
    exact absurd hfirst.1 (by decide)
  have hvalue : (c :: cs).foldl (fun n c => n * 10 + (c.toNat - 48)) 0 = n := by
    rw [← hcons, foldl_leftpad]
  have hall : (c :: cs).all Char.isDigit = true := List.all_eq_true.mpr hdigits
  unfold parseI64
  rw [String.toList_ofList, hcons]
  simp only [List.head?_cons, Option.some.injEq, hminus, hplus, decide_false, Bool.or_self,
    Bool.false_eq_true, if_false, hall, List.isEmpty_cons, Bool.not_true, hvalue, h, if_true]

/-- The day by its digits, with what fills it up in front. -/
theorem exists_day {fill : Char} (hfill : fill = '0' ∨ fill = ' ') {n : ℕ} (hn : n < 2 ^ 63) :
    ∃ k ds, (Nat.toDigits 10 n).leftpad 2 fill = List.replicate k ' ' ++ ds ∧ ds ≠ [] ∧
      (∀ c ∈ ds, c.isDigit = true) ∧ parseI64 (String.ofList ds) = some (n : ℤ) := by
  rcases hfill with rfl | rfl
  · exact ⟨0, _, rfl, leftpad_ne_nil 2 n '0', fun c => isDigit_of_mem_leftpad, parseI64_leftpad hn⟩
  · have hplain : (Nat.toDigits 10 n).leftpad 0 '0' = Nat.toDigits 10 n := by simp [List.leftpad]
    refine ⟨2 - (Nat.toDigits 10 n).length, _, rfl, Nat.toDigits_ne_nil,
      fun c => isDigit_of_mem_toDigits, ?_⟩
    rw [← hplain]
    exact parseI64_leftpad hn

theorem parseI64_padded {w : ℕ} {n : ℤ} (h : 0 ≤ n) (h' : n < 2 ^ 63) :
    parseI64 (padded w n) = some n := by
  rw [← String.ofList_toList (s := padded w n), toList_padded, parseI64_leftpad (by omega)]
  congr 1
  omega

theorem not_mem_padded {w : ℕ} {n : ℤ} {c : Char} (hc : c.isDigit = false) :
    c ∉ (padded w n).toList := by
  rw [toList_padded]
  intro h
  rw [isDigit_of_mem_leftpad h] at hc
  cases hc

theorem not_mem_of_eqIgnoreAsciiCase {m : ℤ} (h : 1 ≤ m) (h' : m ≤ 12) {mon : String}
    (hmon : eqIgnoreAsciiCase (months.getD (m - 1).toNat "") mon = true) {c : Char}
    (hc : c = '-' ∨ c = ' ') : c ∉ mon.toList := by
  have hlower := eqIgnoreAsciiCase_iff.mp hmon
  have hletters : ((months.getD (m - 1).toNat "").toList.map Char.toLower).all
      (fun c => c != '-' && c != ' ') = true := by
    clear hmon hlower
    interval_cases m
    all_goals decide
  intro hmem
  have hmap : c.toLower ∈ mon.toList.map Char.toLower := List.mem_map_of_mem hmem
  rw [← hlower] at hmap
  have hne := List.all_eq_true.mp hletters _ hmap
  rcases hc with rfl | rfl
  · exact absurd hne (by decide)
  · exact absurd hne (by decide)

end Numbers

section Printed

/-- The steps from a day to its date, by what they come to. -/
structure CivilSteps (z n yoe d mp : ℤ) : Prop where
  cycle : z + 719468 - (z + 719468) / 146097 * 146097 = n
  year : (n - n / 1460 + n / 36524 - n / 146096).tdiv 365 = yoe
  year_bounds : 0 ≤ yoe ∧ yoe < 400
  day : n - (365 * yoe + yoe / 4 - yoe / 100) = d
  day_bounds : 0 ≤ d ∧ d < 366
  leap : d = 365 → IsLeap (yoe + 1)
  month : mp = (5 * d + 2) / 153

theorem exists_civilSteps (z : ℤ) : ∃ n yoe d mp, CivilSteps z n yoe d mp := by
  obtain ⟨n, hn⟩ : ∃ n, n = (z + 719468) % 146097 := ⟨_, rfl⟩
  obtain ⟨yoe, hyoe⟩ : ∃ yoe, yoe = (n - n / 1460 + n / 36524 - n / 146096) / 365 := ⟨_, rfl⟩
  obtain ⟨hbounds, d, hd, hleap, hday⟩ := marchYear_cases (by omega) (by omega) hyoe
  have hyear : (n - n / 1460 + n / 36524 - n / 146096).tdiv 365 = yoe := by
    rw [hyoe]
    exact Int.tdiv_eq_ediv_of_nonneg (by omega)
  exact ⟨n, yoe, d, (5 * d + 2) / 153, by omega, hyear, hbounds, by omega, hd, hleap, rfl⟩

namespace CivilSteps
variable {z n yoe d mp : ℤ}

theorem cycle_bounds (h : CivilSteps z n yoe d mp) : 0 ≤ n ∧ n < 146097 := by
  have hcycle := h.cycle
  omega

theorem month_bounds (h : CivilSteps z n yoe d mp) : 0 ≤ mp ∧ mp < 12 := by
  have hmonth := h.month
  have hday := h.day_bounds
  omega

theorem tdiv_month (h : CivilSteps z n yoe d mp) : (5 * d + 2).tdiv 153 = mp := by
  have hday := h.day_bounds
  rw [h.month]
  exact Int.tdiv_eq_ediv_of_nonneg (by omega)

theorem tdiv_day (h : CivilSteps z n yoe d mp) : (153 * mp + 2).tdiv 5 = (153 * mp + 2) / 5 := by
  have hmonth := h.month_bounds
  exact Int.tdiv_eq_ediv_of_nonneg (by omega)

/-- No division but the first meets a number below zero. -/
theorem civilFromDays_eq (h : CivilSteps z n yoe d mp) : civilFromDays z =
    (if (if mp < 10 then mp + 3 else mp - 9) ≤ 2 then yoe + (z + 719468) / 146097 * 400 + 1
      else yoe + (z + 719468) / 146097 * 400, if mp < 10 then mp + 3 else mp - 9,
      d - (153 * mp + 2) / 5 + 1) := by
  have hera : (if 0 ≤ z + 719468 then z + 719468 else z + 719468 - 146096).tdiv 146097 =
      (z + 719468) / 146097 := tdiv_shifted (k := 146097) (by omega)
  have hround : ∀ {a b : ℤ}, 0 ≤ a → a.tdiv b = a / b := Int.tdiv_eq_ediv_of_nonneg
  have hcycle := h.cycle_bounds.1
  have hyear := h.year_bounds.1
  unfold civilFromDays
  dsimp only
  rw [hera, h.cycle, hround hcycle, hround hcycle, hround hcycle, h.year, hround hyear,
    hround hyear, h.day, h.tdiv_month, h.tdiv_day]

end CivilSteps

theorem civilFromDays_spec (z : ℤ) : ∃ date : Date,
    civilFromDays z = (date.year, date.month, date.day) ∧ date.number = z + 719528 := by
  obtain ⟨n, yoe, d, mp, h⟩ := exists_civilSteps z
  have hbounds := h.year_bounds
  have hleap : d = 365 → IsLeap (yoe + (z + 719468) / 146097 * 400 + 1) := by
    intro hd
    have hcycle := h.leap hd
    unfold IsLeap at hcycle ⊢
    omega
  obtain ⟨date, hyear, hmonth, hdate, hnumber⟩ := exists_date h.day_bounds hleap h.month rfl
  have hcycle := h.cycle
  have hday := h.day
  have hfour : (yoe + (z + 719468) / 146097 * 400) / 4 = yoe / 4 + (z + 719468) / 146097 * 100 := by
    omega
  have hcentury : (yoe + (z + 719468) / 146097 * 400) / 100 =
      yoe / 100 + (z + 719468) / 146097 * 4 := by
    omega
  have hera : (yoe + (z + 719468) / 146097 * 400) / 400 = (z + 719468) / 146097 := by omega
  refine ⟨date, ?_, by omega⟩
  rw [h.civilFromDays_eq, hyear, hmonth, hdate]

theorem year_nonneg_of_number {date : Date} (h : 719528 ≤ date.number) : 0 ≤ date.year := by
  have hday := date.day_le_31
  have hmonth := date.month_le
  unfold Date.number at h
  rw [dayNumber_eq date.month_pos date.month_le] at h
  unfold marchYear marchMonth at h
  split_ifs at h
  all_goals omega

theorem formatInternalDate_spells (ms : ℕ) : ∃ t : DateTime,
    t.Spells (formatInternalDate ms) ∧ t.moment = (ms / 1000 : ℕ) ∧ t.offset = 0 ∧
      719528 ≤ t.date.number ∧ ymdFromMs ms = (t.date.year, t.date.month, t.date.day) := by
  obtain ⟨secs, hsecs⟩ : ∃ secs : ℤ, secs = ms / 1000 := ⟨_, rfl⟩
  obtain ⟨date, hdate, hnumber⟩ := civilFromDays_spec (secs / 86400)
  have hyear : 0 ≤ date.year := year_nonneg_of_number (by omega)
  let t : DateTime := ⟨date, (secs % 86400 / 3600).toNat, (secs % 86400 % 3600 / 60).toNat,
    (secs % 86400 % 60).toNat, true, 0, 0, hyear, by omega, by omega, by omega, by omega, by omega⟩
  have hmoment : t.moment = (ms / 1000 : ℕ) := by
    have hparts : t.moment = (date.number - 719528) * 86400 + (secs % 86400 / 3600).toNat * 3600 +
        (secs % 86400 % 3600 / 60).toNat * 60 + (secs % 86400 % 60).toNat - 0 * 60 := rfl
    rw [hparts]
    omega
  have hymd : ymdFromMs ms = (date.year, date.month, date.day) := by
    rw [← hdate, hsecs]
    rfl
  have hnow : 719528 ≤ t.date.number := by
    change 719528 ≤ date.number
    omega
  refine ⟨t, ⟨'0', months.getD (date.month - 1).toNat "", Or.inl rfl, ?_, ?_⟩, hmoment, rfl, hnow,
    hymd⟩
  · rw [eqIgnoreAsciiCase_iff]
  · have hround : ∀ {a b : ℤ}, 0 ≤ a → a.tdiv b = a / b := Int.tdiv_eq_ediv_of_nonneg
    have hmod : ∀ {a b : ℤ}, 0 ≤ a → a.tmod b = a % b := Int.tmod_eq_emod_of_nonneg
    have hrem : 0 ≤ secs % 86400 := by omega
    have hzone : " " ++ "+" ++ padded 2 (0 : ℕ) ++ padded 2 (0 : ℕ) = " +0000" := by decide
    have hh : ((secs % 86400 / 3600).toNat : ℤ) = secs % 86400 / 3600 := by omega
    have hmi : ((secs % 86400 % 3600 / 60).toNat : ℤ) = secs % 86400 % 3600 / 60 := by omega
    have hs : ((secs % 86400 % 60).toNat : ℤ) = secs % 86400 % 60 := by omega
    unfold formatInternalDate
    dsimp only
    rw [hymd, ← hsecs, hround hrem, hmod hrem, hmod hrem, hround (by omega), ← hzone]
    unfold DateTime.written
    simp only [t, hh, hmi, hs, String.append_assoc, if_true]
    rfl

end Printed

section Read
namespace DateTime
variable (t : DateTime)

def clock (t : DateTime) : List Char :=
  (padded 2 t.hour).toList ++ ':' :: ((padded 2 t.minute).toList ++ ':' ::
    (padded 2 t.second).toList)

def zone (t : DateTime) : List Char :=
  (if t.east then '+' else '-') :: ((padded 2 t.zoneHours).toList ++
    (padded 2 t.zoneMinutes).toList)

/-- The text behind the day. -/
def behind (t : DateTime) (mon : String) : List Char :=
  '-' :: (mon.toList ++ '-' :: ((padded 4 t.date.year).toList ++ ' ' :: (t.clock ++ ' ' :: t.zone)))

theorem toList_written (fill : Char) (mon : String) : (t.written fill mon).toList =
    (Nat.toDigits 10 t.date.day.toNat).leftpad 2 fill ++ t.behind mon := by
  unfold written behind clock zone
  split_ifs with h
  · simp
  · simp

/-- The numbers of the text, its zone left out. -/
def fields (t : DateTime) : DateFields :=
  ⟨t.date.year, t.date.month, t.date.day, t.hour, t.minute, t.second⟩

theorem split_clock : split ':' (String.ofList t.clock) =
    [padded 2 t.hour, padded 2 t.minute, padded 2 t.second] := by
  have hcolon : ∀ n : ℤ, ':' ∉ (padded 2 n).toList := fun n => not_mem_padded rfl
  unfold clock
  rw [split_cons (hcolon _), split_cons (hcolon _), split_last (hcolon _)]
  simp

/-- What is read once blanks and quotes are gone. -/
theorem dateFields_of_trimmed {s mon : String} {ds : List Char}
    (hs : trimMatches '"' (trim s).toList = ds ++ t.behind mon) (hds : ∀ c ∈ ds, c.isDigit = true)
    (hday : parseI64 (String.ofList ds) = some t.date.day)
    (hmon : eqIgnoreAsciiCase (months.getD (t.date.month - 1).toNat "") mon = true)
    (hyear : t.date.year < 2 ^ 63) : dateFields s = some t.fields := by
  have hdash := not_mem_of_eqIgnoreAsciiCase t.date.month_pos t.date.month_le hmon (Or.inl rfl)
  have hblank := not_mem_of_eqIgnoreAsciiCase t.date.month_pos t.date.month_le hmon (Or.inr rfl)
  have hdsdash : '-' ∉ ds := fun h => absurd (hds _ h) (by decide)
  have hdsblank : ' ' ∉ ds := fun h => absurd (hds _ h) (by decide)
  have hyeardash : '-' ∉ (padded 4 t.date.year).toList := not_mem_padded rfl
  have hdate : ' ' ∉ ds ++ '-' :: (mon.toList ++ '-' :: (padded 4 t.date.year).toList) := by
    simp [hdsblank, hblank, not_mem_padded]
  have hclock : ' ' ∉ t.clock := by
    simp [clock, not_mem_padded]
  have hassoc : ds ++ t.behind mon =
      (ds ++ '-' :: (mon.toList ++ '-' :: (padded 4 t.date.year).toList)) ++ ' ' ::
        (t.clock ++ ' ' :: t.zone) := by
    simp [behind]
  have hsplit := splitOnce_append hdate (t.clock ++ ' ' :: t.zone)
  rw [← hassoc, ← hs] at hsplit
  have hparts : split '-' (String.ofList (ds ++ '-' :: (mon.toList ++ '-' ::
      (padded 4 t.date.year).toList))) = [String.ofList ds, mon, padded 4 t.date.year] := by
    rw [split_cons hdsdash, split_cons hdash, split_last hyeardash]
    simp
  have htime : split ':' ((split ' ' (String.ofList (t.clock ++ ' ' :: t.zone))).headD "00:00:00") =
      [padded 2 t.hour, padded 2 t.minute, padded 2 t.second] := by
    rw [split_cons hclock, List.headD_cons, split_clock]
  have htwo : ∀ n : ℕ, n < 100 → (parseI64 (padded 2 n)).getD 0 = n := by
    intro n hn
    rw [parseI64_padded (by omega) (by omega)]
    rfl
  have hhour := t.hour_lt
  have hminute := t.minute_lt
  have hsecond := t.second_le
  rw [dateFields_of_parts hsplit hparts hday
    (monthNum_of_eqIgnoreAsciiCase t.date.month_pos t.date.month_le hmon)
    (parseI64_padded t.year_nonneg hyear) htime, htwo t.hour (by omega), htwo t.minute (by omega),
    htwo t.second (by omega)]
  rfl

theorem getLast?_behind (mon : String) :
    ∃ c, (t.behind mon).getLast? = some c ∧ c.isDigit = true := by
  have hc := List.getLast?_eq_some_getLast (leftpad_ne_nil 2 t.zoneMinutes '0')
  refine ⟨_, ?_, isDigit_of_mem_leftpad (List.mem_of_getLast? hc)⟩
  have hassoc : t.behind mon = ('-' :: (mon.toList ++ '-' :: ((padded 4 t.date.year).toList ++ ' ' ::
      (t.clock ++ ' ' :: ((if t.east then '+' else '-') :: (padded 2 t.zoneHours).toList))))) ++
        (padded 2 t.zoneMinutes).toList := by
    simp [behind, zone]
  rw [hassoc, List.getLast?_append, toList_padded 2 t.zoneMinutes, Int.toNat_natCast, hc]
  rfl

theorem trimmed_inQuotes (quoted : Bool) {s : String} {k : ℕ} {core : List Char} {x y : Char}
    (hs : s.toList = List.replicate k ' ' ++ core) (hhead : core.head? = some x)
    (hx : x.isDigit = true) (hlast : core.getLast? = some y) (hy : y.isDigit = true) :
    trimMatches '"' (trim (inQuotes quoted s)).toList =
      if quoted then List.replicate k ' ' ++ core else core := by
  have hblanks : ∀ c ∈ List.replicate k ' ', isWhitespace c = true := by
    intro c hc
    rw [List.eq_of_mem_replicate hc]
    decide
  obtain ⟨hxblank, hxquote, -⟩ := digit_ne hx
  obtain ⟨hyblank, hyquote, -⟩ := digit_ne hy
  cases quoted with
  | false =>
    have htrim : (trim s).toList = core := by
      have hends := dropWhile_ends hblanks (b := []) (by simp) hhead hxblank hlast hyblank
      rw [List.append_nil, ← hs] at hends
      rw [toList_trim, hends]
    have hends := dropWhile_ends (p := (· == '"')) (a := []) (b := []) (by simp) (by simp) hhead
      (beq_eq_false_iff_ne.mpr hxquote) hlast (beq_eq_false_iff_ne.mpr hyquote)
    rw [List.append_nil, List.nil_append] at hends
    rw [if_neg Bool.false_ne_true, inQuotes, if_neg Bool.false_ne_true, htrim]
    exact hends
  | true =>
    have hquotes : (inQuotes true s).toList = '"' :: (s.toList ++ ['"']) := by simp [inQuotes]
    have htrim : (trim (inQuotes true s)).toList = ['"'] ++ s.toList ++ ['"'] := by
      have hends := dropWhile_ends (p := isWhitespace) (a := []) (l := ['"'] ++ s.toList ++ ['"'])
        (b := []) (x := '"') (y := '"') (by simp) (by simp) rfl (by decide) List.getLast?_concat
        (by decide)
      rw [List.append_nil, List.nil_append] at hends
      rw [toList_trim, hquotes]
      exact hends
    obtain ⟨z, hz, hzquote⟩ : ∃ z, s.toList.head? = some z ∧ z ≠ '"' := by
      rw [hs]
      cases k with
      | zero => exact ⟨x, hhead, hxquote⟩
      | succ k => exact ⟨' ', rfl, by decide⟩
    have hlast' : s.toList.getLast? = some y := by
      rw [hs, List.getLast?_append, hlast]
      rfl
    have hends := dropWhile_ends (p := (· == '"')) (a := ['"']) (b := ['"']) (by simp) (by simp) hz
      (beq_eq_false_iff_ne.mpr hzquote) hlast' (beq_eq_false_iff_ne.mpr hyquote)
    rw [if_pos rfl, htrim, ← hs]
    exact hends

/-- A blank in front hides the date. -/
theorem dateFields_of_blank {s : String} {rest : List Char}
    (hs : trimMatches '"' (trim s).toList = ' ' :: rest) : dateFields s = none := by
  have hdate : splitOnce ' ' (String.ofList (' ' :: rest)) =
      some (String.ofList [], String.ofList rest) := splitOnce_append List.not_mem_nil rest
  unfold dateFields
  rw [hs, hdate]
  rfl

theorem number_bounds (hyear : 1970 ≤ t.date.year) (hyear' : t.date.year ≤ 9999) :
    719528 ≤ t.date.number ∧ t.date.number ≤ 4000000 := by
  have hday := t.date.day_pos
  have hday' := t.date.day_le_31
  have hmonth := t.date.month_pos
  have hmonth' := t.date.month_le
  unfold Date.number
  rw [dayNumber_eq hmonth hmonth']
  unfold marchYear marchMonth
  split_ifs
  all_goals omega

theorem fields_moment : t.fields.moment =
    (t.date.number - 719528) * 86400 + t.hour * 3600 + t.minute * 60 + t.second := rfl

theorem moment_fields : t.fields.moment = t.moment + t.offset * 60 := by
  rw [fields_moment, moment]
  omega

theorem millis_fields (hnow : 719528 ≤ t.date.number)
    (hend : t.fields.moment ≤ 18446744073709551) :
    t.fields.millis = some ((t.moment + t.offset * 60).toNat * 1000) ∧
      0 ≤ t.moment + t.offset * 60 := by
  have hhour := t.hour_lt
  have hminute := t.minute_lt
  have hsecond := t.second_le
  have hmoment := t.fields_moment
  have hday : t.fields.dayNumber = t.date.number - 719528 := rfl
  have hfit : t.fields.Fit := by
    have hh : t.fields.hour = t.hour := rfl
    have hmi : t.fields.minute = t.minute := rfl
    constructor
    · omega
    · omega
    · omega
    · unfold InI64
      omega
    · unfold InI64
      omega
    · unfold InI64
      omega
    · omega
  have hnonneg : 0 ≤ t.fields.moment := by omega
  rw [← moment_fields, DateFields.millis_of_fit t.year_nonneg t.date.month_pos t.date.month_le
    (by have := t.date.day_pos; change 0 ≤ t.date.day; omega) hfit, max_eq_left hnonneg]
  exact ⟨rfl, hnonneg⟩

theorem year_lt_of_moment (hend : t.fields.moment ≤ 18446744073709551) : t.date.year < 2 ^ 63 := by
  have hday := t.date.day_pos
  have hmoment := t.fields_moment
  have hnumber : t.date.number ≤ 300000000000 := by omega
  unfold Date.number at hnumber
  rw [dayNumber_eq t.date.month_pos t.date.month_le] at hnumber
  have hmarch : 0 ≤ marchMonth t.date.month := by
    have hpos := t.date.month_pos
    unfold marchMonth
    split_ifs
    all_goals omega
  have hyear : t.date.year ≤ marchYear t.date.year t.date.month + 1 := by
    unfold marchYear
    split_ifs
    all_goals omega
  by_contra hlarge
  have hcentury : marchYear t.date.year t.date.month / 100 ≤ marchYear t.date.year t.date.month := by
    omega
  have hfour : 0 ≤ marchYear t.date.year t.date.month / 4 := by omega
  have hcycle : 0 ≤ marchYear t.date.year t.date.month / 400 := by omega
  omega

/-- The moment of a year of four digits is read without overflow. -/
theorem moment_le (hyear : 1970 ≤ t.date.year) (hyear' : t.date.year ≤ 9999) :
    719528 ≤ t.date.number ∧ t.fields.moment ≤ 18446744073709551 := by
  obtain ⟨hlow, hhigh⟩ := t.number_bounds hyear hyear'
  have hhour := t.hour_lt
  have hminute := t.minute_lt
  have hsecond := t.second_le
  have hmoment := t.fields_moment
  exact ⟨hlow, by omega⟩

/-- The zone is not read, and neither is a date in quotes whose day is filled up with a blank. -/
theorem parseInternalDate_written {fill : Char} (hfill : fill = '0' ∨ fill = ' ') {mon : String}
    (hmon : eqIgnoreAsciiCase (months.getD (t.date.month - 1).toNat "") mon = true) (quoted : Bool)
    (hnow : 719528 ≤ t.date.number) (hend : t.fields.moment ≤ 18446744073709551) :
    parseInternalDate (inQuotes quoted (t.written fill mon)) =
      if quoted = true ∧ (t.written fill mon).toList.head? = some ' ' then some none
      else some (some ((t.moment + t.offset * 60).toNat * 1000)) := by
  have hpos := t.date.day_pos
  have hle := t.date.day_le_31
  obtain ⟨k, ds, hpad, hne, hds, hday⟩ := exists_day hfill (n := t.date.day.toNat) (by omega)
  rw [Int.toNat_of_nonneg (by omega)] at hday
  obtain ⟨x, ds, rfl⟩ := List.exists_cons_of_ne_nil hne
  obtain ⟨y, hlast, hy⟩ := t.getLast?_behind mon
  have hx : x.isDigit = true := hds x List.mem_cons_self
  have htext : (t.written fill mon).toList = List.replicate k ' ' ++ (x :: ds ++ t.behind mon) := by
    rw [toList_written, hpad, List.append_assoc]
  have hlast' : (x :: ds ++ t.behind mon).getLast? = some y := by
    rw [List.getLast?_append, hlast]
    rfl
  have htrim := trimmed_inQuotes quoted htext rfl hx hlast' hy
  have hhead : (t.written fill mon).toList.head? = some ' ' ↔ k ≠ 0 := by
    rw [htext]
    cases k with
    | zero => simpa using (digit_ne hx).2.2.1
    | succ k => simp [List.replicate_succ]
  simp only [hhead]
  by_cases hblank : quoted = true ∧ k ≠ 0
  · obtain ⟨rfl, hk⟩ := hblank
    obtain ⟨k, rfl⟩ := Nat.exists_eq_succ_of_ne_zero hk
    unfold parseInternalDate
    rw [dateFields_of_blank htrim, if_pos ⟨rfl, hk⟩]
  · have hcore : trimMatches '"' (trim (inQuotes quoted (t.written fill mon))).toList =
        x :: ds ++ t.behind mon := by
      rw [htrim]
      split_ifs with hquoted
      · have hk : k = 0 := by
          by_contra hk
          exact hblank ⟨hquoted, hk⟩
        rw [hk]
        rfl
      · rfl
    have hfields := t.dateFields_of_trimmed hcore hds hday hmon (t.year_lt_of_moment hend)
    rw [parseInternalDate_of_fields hfields, (t.millis_fields hnow hend).1, if_neg hblank]
    rfl

end DateTime
end Read

section Kept
namespace DateTime

/-- The moment of a text is kept: it is the time that the text is read as, and the time that is
printed for it afterwards. -/
def KeptFrom (t : DateTime) (s : String) : Prop :=
  ∃ ms : ℕ, parseInternalDate s = some (some ms) ∧ (ms : ℤ) = t.moment * 1000 ∧
    ∃ shown : DateTime, shown.Spells (formatInternalDate ms) ∧ shown.moment = t.moment

theorem keptFrom_iff (t : DateTime) {s : String} (hs : t.Spells s) (quoted : Bool)
    (hyear : 1970 ≤ t.date.year) (hyear' : t.date.year ≤ 9999) :
    t.KeptFrom (inQuotes quoted s) ↔
      t.offset = 0 ∧ ¬ (quoted = true ∧ s.toList.head? = some ' ') := by
  obtain ⟨fill, mon, hfill, hmon, rfl⟩ := hs
  obtain ⟨hnow, hend⟩ := t.moment_le hyear hyear'
  have hread := t.parseInternalDate_written hfill hmon quoted hnow hend
  obtain ⟨-, hnonneg⟩ := t.millis_fields hnow hend
  by_cases hblank : quoted = true ∧ (t.written fill mon).toList.head? = some ' '
  · rw [if_pos hblank] at hread
    constructor
    · rintro ⟨ms, hms, -⟩
      rw [hread] at hms
      cases hms
    · rintro ⟨-, hnot⟩
      exact absurd hblank hnot
  · rw [if_neg hblank] at hread
    constructor
    · rintro ⟨ms, hms, hkept, -⟩
      rw [hread] at hms
      cases hms
      exact ⟨by omega, hblank⟩
    · rintro ⟨hoffset, -⟩
      obtain ⟨shown, hspells, hshown, -⟩ :=
        formatInternalDate_spells ((t.moment + t.offset * 60).toNat * 1000)
      exact ⟨_, hread, by omega, shown, hspells, by omega⟩

/-- Noon of 15 July 2026 in a zone ahead of UTC. -/
def summerNoon (hours : ℕ) (h : hours < 100) : DateTime where
  date := ⟨2026, 7, 15, by decide, by decide, by decide, by decide⟩
  hour := 12
  minute := 0
  second := 0
  east := true
  zoneHours := hours
  zoneMinutes := 0
  year_nonneg := by decide
  hour_lt := by decide
  minute_lt := by decide
  second_le := by decide
  zoneHours_lt := h
  zoneMinutes_lt := by decide

theorem spells_summerNoon (hours : ℕ) (h : hours < 100) :
    (summerNoon hours h).Spells ((summerNoon hours h).written '0' "Jul") :=
  ⟨'0', "Jul", Or.inl rfl, eqIgnoreAsciiCase_iff.mpr rfl, rfl⟩

theorem keptFrom_iff_utc : (summerNoon 0 (by decide)).KeptFrom "15-Jul-2026 12:00:00 +0000" := by
  have htext : (summerNoon 0 (by decide)).written '0' "Jul" = "15-Jul-2026 12:00:00 +0000" := by
    decide
  have hspells := spells_summerNoon 0 (by decide)
  rw [htext] at hspells
  exact (keptFrom_iff _ hspells false (by decide) (by decide)).mpr ⟨by decide, by simp⟩

theorem keptFrom_east : (summerNoon 2 (by decide)).Spells "15-Jul-2026 12:00:00 +0200" ∧
    0 ≤ (summerNoon 2 (by decide)).moment ∧
    ¬ (summerNoon 2 (by decide)).KeptFrom "15-Jul-2026 12:00:00 +0200" := by
  have htext : (summerNoon 2 (by decide)).written '0' "Jul" = "15-Jul-2026 12:00:00 +0200" := by
    decide
  have hspells := spells_summerNoon 2 (by decide)
  have hmon : eqIgnoreAsciiCase
      (months.getD ((summerNoon 2 (by decide)).date.month - 1).toNat "") "Jul" = true :=
    eqIgnoreAsciiCase_iff.mpr rfl
  obtain ⟨hnow, hend⟩ := (summerNoon 2 (by decide)).moment_le (by decide) (by decide)
  have hread := (summerNoon 2 (by decide)).parseInternalDate_written (Or.inl rfl) hmon false hnow hend
  rw [htext] at hspells hread
  have hmoment : (summerNoon 2 (by decide)).moment = 1784109600 := by decide +kernel
  refine ⟨hspells, by rw [hmoment]; decide, ?_⟩
  rintro ⟨ms, hms, hkept, -⟩
  rw [show inQuotes false "15-Jul-2026 12:00:00 +0200" = "15-Jul-2026 12:00:00 +0200" from rfl,
    if_neg (by simp)] at hread
  rw [hread] at hms
  cases hms
  have hoffset : (summerNoon 2 (by decide)).offset = 120 := by decide
  rw [hmoment, hoffset] at hkept
  exact absurd hkept (by decide)

end DateTime
end Kept

section RoundTrip

/-- `civilFromDays`, where every step fits. -/
def civilFromDaysI64 (z : ℤ) : Option (ℤ × ℤ × ℤ) := do
  let z ← addI64 z 719468
  let era := (← (if 0 ≤ z then some z else subI64 z 146096)).tdiv 146097
  let doe ← subI64 z (← mulI64 era 146097)
  let yoe := (← subI64 (← addI64 (← subI64 doe (doe.tdiv 1460)) (doe.tdiv 36524))
    (doe.tdiv 146096)).tdiv 365
  let y ← addI64 yoe (← mulI64 era 400)
  let doy ← subI64 doe (← subI64 (← addI64 (← mulI64 365 yoe) (yoe.tdiv 4)) (yoe.tdiv 100))
  let mp := (← addI64 (← mulI64 5 doy) 2).tdiv 153
  let d ← addI64 (← subI64 doy ((← addI64 (← mulI64 153 mp) 2).tdiv 5)) 1
  let m ← (if mp < 10 then addI64 mp 3 else subI64 mp 9)
  let y ← (if m ≤ 2 then addI64 y 1 else some y)
  some (y, m, d)

theorem bind_of_some {α β : Type} {x : Option α} {a : α} (h : x = some a) (f : α → Option β) :
    (x >>= f) = f a := by
  rw [h]
  rfl

/-- From the epoch on nothing overflows, as long as the day itself can be shifted. -/
theorem civilFromDaysI64_eq {z : ℤ} (h : 0 ≤ z) (h' : z ≤ 9223372036854056339) :
    civilFromDaysI64 z = some (civilFromDays z) := by
  obtain ⟨n, yoe, d, mp, hsteps⟩ := exists_civilSteps z
  have hcycle := hsteps.cycle
  have hcycle' := hsteps.cycle_bounds
  have hyear := hsteps.year_bounds
  have hday := hsteps.day
  have hday' := hsteps.day_bounds
  have hmonth := hsteps.month_bounds
  rw [hsteps.civilFromDays_eq]
  obtain ⟨w, hw⟩ : ∃ w, w = z + 719468 := ⟨_, rfl⟩
  rw [← hw] at hcycle ⊢
  have hround : ∀ {a b : ℤ}, 0 ≤ a → a.tdiv b = a / b := Int.tdiv_eq_ediv_of_nonneg
  have hw0 : 0 ≤ w := by omega
  have hdoe : subI64 w (w / 146097 * 146097) = some n := by
    rw [← hcycle]
    exact subI64_of_le (by omega) (by omega)
  have hdoy : subI64 n (365 * yoe + yoe / 4 - yoe / 100) = some d := by
    rw [← hday]
    exact subI64_of_le (by omega) (by omega)
  have hlate : (if mp < 10 then addI64 mp 3 else subI64 mp 9) =
      some (if mp < 10 then mp + 3 else mp - 9) := by
    split_ifs
    · exact addI64_of_le (by omega) (by omega)
    · exact subI64_of_le (by omega) (by omega)
  have hnext : ∀ m : ℤ, (if m ≤ 2 then addI64 (yoe + w / 146097 * 400) 1
      else some (yoe + w / 146097 * 400)) =
        some (if m ≤ 2 then yoe + w / 146097 * 400 + 1 else yoe + w / 146097 * 400) := by
    intro m
    split_ifs
    · exact addI64_of_le (by omega) (by omega)
    · rfl
  unfold civilFromDaysI64
  dsimp only
  rw [bind_of_some (addI64_of_le (a := z) (b := 719468) (by omega) (by omega)), ← hw, if_pos hw0,
    bind_of_some rfl, hround hw0,
    bind_of_some (mulI64_of_le (a := w / 146097) (b := 146097) (by omega) (by omega)),
    bind_of_some hdoe, hround hcycle'.1,
    bind_of_some (subI64_of_le (a := n) (b := n / 1460) (by omega) (by omega)), hround hcycle'.1,
    bind_of_some (addI64_of_le (a := n - n / 1460) (b := n / 36524) (by omega) (by omega)),
    hround hcycle'.1,
    bind_of_some (subI64_of_le (a := n - n / 1460 + n / 36524) (b := n / 146096) (by omega)
      (by omega)), hsteps.year,
    bind_of_some (mulI64_of_le (a := w / 146097) (b := 400) (by omega) (by omega)),
    bind_of_some (addI64_of_le (a := yoe) (b := w / 146097 * 400) (by omega) (by omega)),
    bind_of_some (mulI64_of_le (a := 365) (b := yoe) (by omega) (by omega)), hround hyear.1,
    bind_of_some (addI64_of_le (a := 365 * yoe) (b := yoe / 4) (by omega) (by omega)),
    hround hyear.1,
    bind_of_some (subI64_of_le (a := 365 * yoe + yoe / 4) (b := yoe / 100) (by omega) (by omega)),
    bind_of_some hdoy, bind_of_some (mulI64_of_le (a := 5) (b := d) (by omega) (by omega)),
    bind_of_some (addI64_of_le (a := 5 * d) (b := 2) (by omega) (by omega)), hsteps.tdiv_month,
    bind_of_some (mulI64_of_le (a := 153) (b := mp) (by omega) (by omega)),
    bind_of_some (addI64_of_le (a := 153 * mp) (b := 2) (by omega) (by omega)), hsteps.tdiv_day,
    bind_of_some (subI64_of_le (a := d) (b := (153 * mp + 2) / 5) (by omega) (by omega)),
    bind_of_some (addI64_of_le (a := d - (153 * mp + 2) / 5) (b := 1) (by omega) (by omega)),
    bind_of_some hlate, bind_of_some (hnext _)]

theorem daysFromCivil_civilFromDays {z : ℤ} (h : 0 ≤ z) (h' : z ≤ 9223372036854056339) :
    daysFromCivil (civilFromDays z).1 (civilFromDays z).2.1 (civilFromDays z).2.2 = some z := by
  obtain ⟨date, hdate, hnumber⟩ := civilFromDays_spec z
  have hyear := year_nonneg_of_number (show 719528 ≤ date.number by omega)
  have hday := date.day_pos
  have hday' := date.day_le_31
  unfold Date.number at hnumber
  rw [hdate]
  dsimp only
  rw [daysFromCivil_of_le hyear date.month_pos date.month_le (by omega) (by omega) (by omega)]
  congr 1
  omega

theorem civilFromDays_number (date : Date) :
    civilFromDays (date.number - 719528) = (date.year, date.month, date.day) := by
  obtain ⟨same, hsame, hnumber⟩ := civilFromDays_spec (date.number - 719528)
  rw [hsame]
  exact Date.fields_of_number (by omega)

/-- Times are printed and read back to the second, and the days they fall on are days of the
calendar, one date for each. -/
theorem internalDate_roundTrip :
    (∀ ms < 2 ^ 64, parseInternalDate (formatInternalDate ms) = some (some (ms - ms % 1000)) ∧
      ∃ date : Date, ymdFromMs ms = (date.year, date.month, date.day)) ∧
    (∀ z, 0 ≤ z → z ≤ 9223372036854056339 → civilFromDaysI64 z = some (civilFromDays z) ∧
      daysFromCivil (civilFromDays z).1 (civilFromDays z).2.1 (civilFromDays z).2.2 = some z) ∧
    ∀ date : Date, civilFromDays (date.number - 719528) = (date.year, date.month, date.day) := by
  refine ⟨fun ms hms => ?_, fun z h h' => ?_, civilFromDays_number⟩
  · obtain ⟨t, ⟨fill, mon, hfill, hmon, htext⟩, hmoment, hoffset, hnow, hymd⟩ :=
      formatInternalDate_spells ms
    have hfields := t.moment_fields
    have hend : t.fields.moment ≤ 18446744073709551 := by
      rw [hfields, hmoment, hoffset]
      omega
    have hread := t.parseInternalDate_written hfill hmon false hnow hend
    rw [if_neg (by simp), hmoment, hoffset, ← htext] at hread
    have hseconds : (((ms / 1000 : ℕ) : ℤ) + 0 * 60).toNat * 1000 = ms - ms % 1000 := by omega
    rw [hseconds] at hread
    exact ⟨hread, t.date, hymd⟩
  · exact ⟨civilFromDaysI64_eq h h', daysFromCivil_civilFromDays h h'⟩

/-- The last second that 64 bits of milliseconds reach, in a year of nine digits. -/
theorem internalDate_roundTrip_last :
    parseInternalDate (formatInternalDate 18446744073709551615) =
      some (some 18446744073709551000) ∧
    civilFromDaysI64 213503982334 = some (civilFromDays 213503982334) :=
  ⟨(internalDate_roundTrip.1 18446744073709551615 (by decide)).1,
    (internalDate_roundTrip.2.1 213503982334 (by decide) (by decide)).1⟩

end RoundTrip

end Dmtap.Mail
