import Dmtap.Mail.Ascii

/-! Dates of the Gregorian calendar, written as mail headers have them. -/
namespace Dmtap.Mail

/-- Year, month and day of a day counted from 1 January 1970. -/
def civilFromDays (z : ℤ) : ℤ × ℤ × ℤ :=
  let z := z + 719468
  let era := (if 0 ≤ z then z else z - 146096).tdiv 146097
  let doe := z - era * 146097
  let yoe := (doe - doe.tdiv 1460 + doe.tdiv 36524 - doe.tdiv 146096).tdiv 365
  let y := yoe + era * 400
  let doy := doe - (365 * yoe + yoe.tdiv 4 - yoe.tdiv 100)
  let mp := (5 * doy + 2).tdiv 153
  let d := doy - (153 * mp + 2).tdiv 5 + 1
  let m := if mp < 10 then mp + 3 else mp - 9
  (if m ≤ 2 then y + 1 else y, m, d)

/-- Day 0 was a Thursday, which has index 3. -/
def weekdayFromDays (z : ℤ) : ℕ := ((z.tmod 7 + 3 + 7).tmod 7).toNat

def weekdays : List String := ["Mon", "Tue", "Wed", "Thu", "Fri", "Sat", "Sun"]

def months : List String :=
  ["Jan", "Feb", "Mar", "Apr", "May", "Jun", "Jul", "Aug", "Sep", "Oct", "Nov", "Dec"]

/-- A number with leading zeros up to `width` digits. -/
def padded (width : ℕ) (n : ℤ) : String :=
  String.ofList ((toString n.toNat).toList.leftpad width '0')

def formatRfc5322Date (ms : ℕ) : String :=
  let secs : ℤ := ms / 1000
  let days := secs / 86400
  let rem := secs % 86400
  let h := rem.tdiv 3600
  let mi := (rem.tmod 3600).tdiv 60
  let s := rem.tmod 60
  let ymd := civilFromDays days
  weekdays.getD (weekdayFromDays days) "" ++ ", " ++ padded 2 ymd.2.2 ++ " " ++
    months.getD (ymd.2.1 - 1).toNat "" ++ " " ++ padded 4 ymd.1 ++ " " ++ padded 2 h ++ ":" ++
    padded 2 mi ++ ":" ++ padded 2 s ++ " +0000"

/-- Year, month and day of a time in milliseconds since 1970. -/
def ymdFromMs (ms : ℕ) : ℤ × ℤ × ℤ := civilFromDays ((ms / 1000 : ℕ) / 86400)

/-- A time as IMAP prints the date of a message. -/
def formatInternalDate (ms : ℕ) : String :=
  let secs : ℤ := ms / 1000
  let rem := secs % 86400
  let h := rem.tdiv 3600
  let mi := (rem.tmod 3600).tdiv 60
  let s := rem.tmod 60
  let ymd := ymdFromMs ms
  padded 2 ymd.2.2 ++ "-" ++ months.getD (ymd.2.1 - 1).toNat "" ++ "-" ++ padded 4 ymd.1 ++ " " ++
    padded 2 h ++ ":" ++ padded 2 mi ++ ":" ++ padded 2 s ++ " +0000"

/-- A decimal number of 64 bits with or without a sign. -/
def parseI64 (s : String) : Option ℤ :=
  let sign := s.toList.head?
  let digits := if sign = some '-' || sign = some '+' then s.toList.tail else s.toList
  let n : ℕ := digits.foldl (fun n c => n * 10 + (c.toNat - 48)) 0
  if digits.isEmpty || !digits.all Char.isDigit then none
  else if sign = some '-' then if n ≤ 2 ^ 63 then some (-(n : ℤ)) else none
  else if n < 2 ^ 63 then some n
  else none

def monthNum (m : String) : Option ℤ :=
  (["jan", "feb", "mar", "apr", "may", "jun", "jul", "aug", "sep", "oct", "nov", "dec"].findIdx?
    fun x => eqIgnoreAsciiCase x m).map fun i : ℕ => (i : ℤ) + 1

example : formatRfc5322Date 1784118896000 = "Wed, 15 Jul 2026 12:34:56 +0000" := by decide

end Dmtap.Mail
