import Dmtap.Mail.Imap.Targets
import Dmtap.Mail.Imap.Threads
import Dmtap.Mail.InternalDate
import Dmtap.Mail.Invariant
import Dmtap.Mail.Rendered
import Dmtap.Mail.TransferEncoding

/-! SEARCH by words and by days. Words are looked for in what a reader is shown; a day is compared as
a date of the calendar, which comes to the same as comparing moments. -/
namespace Dmtap.Mail.Imap
open Lib Mote

section Words
variable (lowercase : String → String)

def icontains (haystack needle : String) : Bool :=
  needle = "" || decide ((lowercase needle).toList <:+: (lowercase haystack).toList)

def hdrContains (p : ParsedMessage) (name needle : String) : Bool :=
  ((p.header name).map fun h => icontains lowercase (decodeEncodedWords h) needle).getD false

def bodyContains (p : ParsedMessage) (needle : String) : Bool :=
  icontains lowercase p.decodedBodyText.1 needle

/-- Header and body, both as they are shown. -/
def textContains (p : ParsedMessage) (needle : String) : Bool :=
  let hay := String.join (p.headers.map fun field =>
    field.1 ++ ": " ++ decodeEncodedWords field.2 ++ "\n")
  icontains lowercase (hay ++ p.decodedBodyText.1) needle

end Words

section Days

def parseImapDate (d : String) : Option (ℤ × ℤ × ℤ) := do
  let parts := split '-' (String.ofList (trimMatches '"' (trim d).toList))
  let day ← parts[0]?.bind parseI64
  let mon ← parts[1]?.bind monthNum
  let year ← parts[2]?.bind parseI64
  some (year, mon, day)

/-- The reading of a date header, spelt as it is for sorting. -/
def parseRfc5322Day (date : String) : Option (ℤ × ℤ × ℤ) := parseDateYmd date

def cmpInternalDate (m : Message) (d : String) (f : ℤ × ℤ × ℤ → ℤ × ℤ × ℤ → Bool) : Bool :=
  match parseImapDate d with
  | some target => f (ymdFromMs m.internalDate) target
  | none => false

def cmpSentDate (m : Message) (d : String) (f : ℤ × ℤ × ℤ → ℤ × ℤ × ℤ → Bool) : Bool :=
  match parseImapDate d with
  | some target =>
    f ((((ParsedMessage.parse m.raw).header "Date").bind parseRfc5322Day).getD
      (ymdFromMs m.internalDate)) target
  | none => false

end Days

/-- The search keys that read the text of a message or compare dates. -/
def matchesKey (lowercase : String → String) (key : SearchKey) (m : Message) : Bool :=
  let p := ParsedMessage.parse m.raw
  match key with
  | .sender v => hdrContains lowercase p "From" v
  | .recipient v => hdrContains lowercase p "To" v
  | .cc v => hdrContains lowercase p "Cc" v
  | .bcc v => hdrContains lowercase p "Bcc" v
  | .subject v => hdrContains lowercase p "Subject" v
  | .header f v =>
    ((p.header f).map fun h => icontains lowercase (decodeEncodedWords h) v).getD (v = "")
  | .body v => bodyContains lowercase p v
  | .text v => textContains lowercase p v
  | .before d => cmpInternalDate m d dateLt
  | .on d => cmpInternalDate m d (· == ·)
  | .since d => cmpInternalDate m d fun a b => !dateLt a b
  | .sentBefore d => cmpSentDate m d dateLt
  | .sentOn d => cmpSentDate m d (· == ·)
  | .sentSince d => cmpSentDate m d fun a b => !dateLt a b
  | _ => false

def Views.withSearch (lowercase : String → String) (views : Views) : Views :=
  { views with matchesText := matchesKey lowercase }

section Calendar

/-- The first millisecond of a day, from 1970 on. -/
def midnight (date : Date) : ℤ := (date.number - 719528) * 86400000

theorem dateLt_iff (a b : Date) :
    dateLt (a.year, a.month, a.day) (b.year, b.month, b.day) = true ↔ a.Before b := by
  unfold dateLt Date.Before
  simp

theorem ymd_eq_iff (a b : Date) :
    (a.year, a.month, a.day) = (b.year, b.month, b.day) ↔ a.number = b.number := by
  refine ⟨fun h => ?_, Date.fields_of_number⟩
  obtain ⟨hyear, hrest⟩ := Prod.mk.inj h
  obtain ⟨hmonth, hday⟩ := Prod.mk.inj hrest
  unfold Date.number
  rw [hyear, hmonth, hday]

variable {date : Date} {m : Message} {d : String}

/-- Comparing days is comparing moments with midnight. -/
theorem cmpInternalDate_iff (hd : parseImapDate d = some (date.year, date.month, date.day)) :
    (cmpInternalDate m d dateLt = true ↔ (m.internalDate : ℤ) < midnight date) ∧
    (cmpInternalDate m d (· == ·) = true ↔
      midnight date ≤ m.internalDate ∧ (m.internalDate : ℤ) < midnight date + 86400000) ∧
    (cmpInternalDate m d (fun a b => !dateLt a b) = true ↔ midnight date ≤ m.internalDate) := by
  obtain ⟨arrival, hnumber, -, hymd⟩ := exists_ymdFromMs m.internalDate
  have hbefore := (dateLt_iff arrival date).trans Date.before_iff
  have hsame := ymd_eq_iff arrival date
  unfold cmpInternalDate midnight
  rw [hd, hymd]
  dsimp only
  rw [beq_iff_eq, hsame, Bool.not_eq_true', ← Bool.not_eq_true, hbefore]
  omega

end Calendar

section Spelling

theorem trimMatches_eq_self {c x y : Char} {cs : List Char} (hhead : cs.head? = some x)
    (hx : x ≠ c) (hlast : cs.getLast? = some y) (hy : y ≠ c) : trimMatches c cs = cs := by
  have hends := dropWhile_ends (p := (· == c)) (a := []) (b := []) (fun c hc => absurd hc List.not_mem_nil)
    (fun c hc => absurd hc List.not_mem_nil) hhead (beq_eq_false_iff_ne.mpr hx) hlast (beq_eq_false_iff_ne.mpr hy)
  rwa [List.nil_append, List.append_nil] at hends

theorem digits_ends (n : ℕ) : ∃ x y, (toString n).toList.head? = some x ∧ x.isDigit = true ∧
    (toString n).toList.getLast? = some y ∧ y.isDigit = true := by
  rw [toList_toString]
  have hdigits : ∀ c ∈ Nat.toDigits 10 n, c.isDigit = true := fun c hc => isDigit_of_mem_toDigits hc
  have hne : Nat.toDigits 10 n ≠ [] := Nat.toDigits_ne_nil
  exact ⟨_, _, List.head?_eq_some_head hne, hdigits _ (List.head_mem hne),
    List.getLast?_eq_some_getLast hne, hdigits _ (List.getLast_mem hne)⟩

theorem parseI64_toString {n : ℕ} (h : n < 2 ^ 63) : parseI64 (toString n) = some (n : ℤ) := by
  have hplain : (Nat.toDigits 10 n).leftpad 0 '0' = Nat.toDigits 10 n := by simp [List.leftpad]
  have hparsed := parseI64_leftpad (w := 0) h
  rwa [hplain, ← Nat.toString_eq_ofList_toDigits] at hparsed

/-- A date as it stands in a search: day, month and year, the month in letters of either case. -/
def searchDate (day : ℕ) (mon : String) (year : ℕ) : String :=
  toString day ++ "-" ++ mon ++ "-" ++ toString year

theorem parseImapDate_searchDate {day year : ℕ} {mon : String} {m : ℤ} (hday : day < 2 ^ 63)
    (hyear : year < 2 ^ 63) (hm : 1 ≤ m) (hm' : m ≤ 12)
    (hmon : eqIgnoreAsciiCase (months.getD (m - 1).toNat "") mon = true) :
    parseImapDate (searchDate day mon year) = some ((year : ℤ), m, (day : ℤ)) := by
  obtain ⟨x, -, hx, hxdigit, -, -⟩ := digits_ends day
  obtain ⟨-, y, -, -, hy, hydigit⟩ := digits_ends year
  have hblank : ∀ {c : Char}, c.isDigit = true → isWhitespace c = false ∧ c ≠ '"' := by
    intro c hc
    refine ⟨?_, ?_⟩
    · have hbounds := toNat_of_isDigit hc
      simp only [isWhitespace, Bool.or_eq_false_iff, Bool.and_eq_false_iff, decide_eq_false_iff_not,
        beq_eq_false_iff_ne]
      omega
    · rintro rfl
      exact absurd hc (by decide)
  have hnodash : ∀ n : ℕ, '-' ∉ (toString n).toList := by
    intro n
    rw [toList_toString]
    exact notMem_toDigits (by decide) n
  have hmonth : '-' ∉ mon.toList := not_mem_of_eqIgnoreAsciiCase hm hm' hmon (Or.inl rfl)
  have htext : (searchDate day mon year).toList = (toString day).toList ++
      '-' :: (mon.toList ++ '-' :: (toString year).toList) := by
    unfold searchDate
    simp [String.toList_append]
  have hhead : (searchDate day mon year).toList.head? = some x := by
    obtain ⟨front, hfront⟩ := List.head?_eq_some_iff.mp hx
    rw [htext, hfront]
    rfl
  have hlast : (searchDate day mon year).toList.getLast? = some y := by
    obtain ⟨back, hback⟩ := List.getLast?_eq_some_iff.mp hy
    have hend : (searchDate day mon year).toList =
        ((toString day).toList ++ '-' :: (mon.toList ++ '-' :: back)) ++ [y] := by
      rw [htext, hback]
      simp
    rw [hend]
    exact List.getLast?_concat
  have htrim := dropWhile_ends (p := isWhitespace) (a := []) (b := []) (fun c hc => absurd hc List.not_mem_nil)
    (fun c hc => absurd hc List.not_mem_nil) hhead (hblank hxdigit).1 hlast (hblank hydigit).1
  rw [List.nil_append, List.append_nil, ← toList_trim] at htrim
  have hsplit : split '-' (String.ofList (trimMatches '"' (trim (searchDate day mon year)).toList)) =
      [toString day, mon, toString year] := by
    rw [htrim, trimMatches_eq_self hhead (hblank hxdigit).2 hlast (hblank hydigit).2, htext,
      split_cons (hnodash day), split_cons hmonth, split_last (hnodash year)]
    simp only [String.ofList_toList]
  have hmonthNum : monthNum mon = some m := monthNum_of_eqIgnoreAsciiCase hm hm' hmon
  unfold parseImapDate
  dsimp only
  rw [hsplit]
  simp only [List.getElem?_cons_zero, List.getElem?_cons_succ, Option.bind_some,
    parseI64_toString hday, parseI64_toString hyear, hmonthNum]
  rfl

end Spelling

section Sent

theorem splitWhitespace_cons {a : List Char} (ha : ∀ c ∈ a, isWhitespace c = false) (hne : a ≠ [])
    (b : List Char) : splitWhitespace (String.ofList (a ++ ' ' :: b)) =
      String.ofList a :: splitWhitespace (String.ofList b) := by
  have hkeep : a.isEmpty = false := List.isEmpty_eq_false_iff.mpr hne
  unfold splitWhitespace
  rw [String.toList_ofList, String.toList_ofList, List.splitOnP_append_cons a b (by decide),
    List.splitOnP_eq_singleton ha]
  simp [hkeep]

theorem splitWhitespace_space (b : List Char) :
    splitWhitespace (String.ofList (' ' :: b)) = splitWhitespace (String.ofList b) := by
  have hspace : isWhitespace ' ' = true := by decide
  have hsplit := List.splitOnP_append_cons [] b hspace
  rw [List.nil_append] at hsplit
  unfold splitWhitespace
  rw [String.toList_ofList, String.toList_ofList, hsplit]
  simp

/-- Text that comes out of a date header as one token. -/
def IsToken (s : String) : Prop :=
  s.toList ≠ [] ∧ ∀ c ∈ s.toList, isWhitespace c = false ∧ c ≠ ','

theorem isToken_padded (w : ℕ) (n : ℤ) : IsToken (padded w n) := by
  unfold IsToken
  rw [toList_padded]
  refine ⟨leftpad_ne_nil w n.toNat '0', fun c hc => ?_⟩
  have hdigit := isDigit_of_mem_leftpad hc
  have hbounds := toNat_of_isDigit hdigit
  refine ⟨?_, ?_⟩
  · simp only [isWhitespace, Bool.or_eq_false_iff, Bool.and_eq_false_iff, decide_eq_false_iff_not,
      beq_eq_false_iff_ne]
    omega
  · rintro rfl
    exact absurd hdigit (by decide)

/-- The reader of date headers takes commas for spaces. -/
theorem tokens_date {w d mo y : String} (hw : IsToken w) (hd : IsToken d) (hmo : IsToken mo)
    (hy : IsToken y) (rest : List Char) :
    ∃ more, splitWhitespace (String.ofList ((w.toList ++ ',' :: ' ' :: (d.toList ++
        ' ' :: (mo.toList ++ ' ' :: (y.toList ++ ' ' :: rest)))).map fun c =>
          if c = ',' then ' ' else c)) = w :: d :: mo :: y :: more := by
  have hself {s : String} (hs : IsToken s) :
      s.toList.map (fun c => if c = ',' then ' ' else c) = s.toList :=
    (List.map_congr_left fun c hc => if_neg (hs.2 c hc).2).trans (List.map_id _)
  have hspace : (if ' ' = ',' then ' ' else ' ') = ' ' := by decide
  have hblank {s : String} (hs : IsToken s) : ∀ c ∈ s.toList, isWhitespace c = false :=
    fun c hc => (hs.2 c hc).1
  refine ⟨splitWhitespace (String.ofList (rest.map fun c => if c = ',' then ' ' else c)), ?_⟩
  rw [List.map_append, List.map_cons, List.map_cons, List.map_append, List.map_cons, List.map_append,
    List.map_cons, List.map_append, List.map_cons, hself hw, hself hd, hself hmo, hself hy, if_pos rfl,
    hspace, splitWhitespace_cons (hblank hw) hw.1, splitWhitespace_space,
    splitWhitespace_cons (hblank hd) hd.1, splitWhitespace_cons (hblank hmo) hmo.1,
    splitWhitespace_cons (hblank hy) hy.1]
  simp only [String.ofList_toList]

theorem year_lt_of_number {date : Date} (hyear : 0 ≤ date.year)
    (h : (date.number - 719528) * 86400 ≤ 18446744073709551) : date.year < 2 ^ 63 := by
  let t : DateTime := ⟨date, 0, 0, 0, true, 0, 0, hyear, by omega, by omega, by omega, by omega,
    by omega⟩
  have hmoment : t.fields.moment = (date.number - 719528) * 86400 + 0 * 3600 + 0 * 60 + 0 :=
    t.fields_moment
  exact t.year_lt_of_moment (by omega)

/-- The date that a message is made with is read back as the day it was made on. -/
theorem parseDateYmd_formatRfc5322Date {ms : ℕ} (hms : ms < 2 ^ 64) :
    parseDateYmd (formatRfc5322Date ms) = some (ymdFromMs ms) := by
  obtain ⟨date, hnumber, hyear, hymd⟩ := exists_ymdFromMs ms
  have hday := date.day_pos
  have hday' := date.day_le_31
  have hend : date.year < 2 ^ 63 := year_lt_of_number hyear (by omega)
  have hmonth : monthNum (months.getD (date.month - 1).toNat "") = some date.month :=
    monthNum_of_eqIgnoreAsciiCase date.month_pos date.month_le (by rw [eqIgnoreAsciiCase_iff])
  have hmonthText : IsToken (months.getD (date.month - 1).toNat "") := by
    have hlt : (date.month - 1).toNat < months.length := by
      have hpos := date.month_pos
      have hle := date.month_le
      have hlength : months.length = 12 := rfl
      omega
    rw [List.getD_eq_getElem?_getD, List.getElem?_eq_getElem hlt, Option.getD_some]
    exact (by unfold IsToken; decide : ∀ s ∈ months, IsToken s) _ (List.getElem_mem hlt)
  have hweekday : ∀ s ∈ weekdays, IsToken s ∧ monthNum s = none ∧ parseI64 s = none := by
    unfold IsToken
    decide +kernel
  obtain ⟨hweekText, hweekMonth, hweekNum⟩ := hweekday _ (weekdayText_mem ms)
  obtain ⟨more, htokens⟩ := tokens_date hweekText (isToken_padded 2 date.day) hmonthText
    (isToken_padded 4 date.year) ((clockText ms).toList ++ ['0'])
  unfold parseDateYmd
  rw [formatRfc5322Date_eq hymd, htokens, hymd]
  simp only [List.head?_cons, Option.bind_eq_bind, Option.bind_some, hweekMonth, hweekNum,
    Option.isNone_none, Bool.and_self, if_true, List.tail_cons, List.getElem?_cons_zero,
    List.getElem?_cons_succ, hmonth]
  rw [parseI64_padded (by omega) (by omega), parseI64_padded hyear hend]
  rfl

end Sent

section Programs
variable (lowercase : String → String) (views : Views) (c : SearchCtx) (saved : List ℕ)

theorem matchesText_withSearch :
    (views.withSearch lowercase).matchesText = matchesKey lowercase := rfl

/-- The keys that are answered by reading the message. -/
def readsText : SearchKey → Bool
  | .sender _ | .recipient _ | .cc _ | .bcc _ | .subject _ | .header _ _ | .body _ | .text _ => true
  | .before _ | .on _ | .since _ | .sentBefore _ | .sentOn _ | .sentSince _ => true
  | _ => false

theorem evalSaved_withSearch {key : SearchKey} (h : readsText key = true) :
    evalSaved (views.withSearch lowercase) c saved key = matchesKey lowercase key c.msg := by
  cases key <;> first
    | rw [evalSaved, matchesText_withSearch]
    | exact absurd h Bool.false_ne_true

/-- For every day of the calendar, however its month is spelt: BEFORE finds what arrived before its
first moment, SINCE what arrived from then on, and ON what arrived in its 24 hours. A date that cannot
be read finds nothing, in any of the six keys. -/
theorem search_by_day (date : Date) (hyear : 0 ≤ date.year) (hend : date.year < 2 ^ 63) {mon : String}
    (hmon : eqIgnoreAsciiCase (months.getD (date.month - 1).toNat "") mon = true) {d : String}
    (hd : d = searchDate date.day.toNat mon date.year.toNat) :
    (evalSaved (views.withSearch lowercase) c saved (.before d) = true ↔
      (c.msg.internalDate : ℤ) < midnight date) ∧
    (evalSaved (views.withSearch lowercase) c saved (.since d) = true ↔
      midnight date ≤ c.msg.internalDate) ∧
    (evalSaved (views.withSearch lowercase) c saved (.on d) = true ↔
      midnight date ≤ c.msg.internalDate ∧ (c.msg.internalDate : ℤ) < midnight date + 86400000) ∧
    ∀ d', parseImapDate d' = none →
      ∀ key ∈ [SearchKey.before d', .on d', .since d', .sentBefore d', .sentOn d', .sentSince d'],
        evalSaved (views.withSearch lowercase) c saved key = false := by
  have hday := date.day_pos
  have hday' := date.day_le_31
  have hparsed : parseImapDate d = some (((date.year.toNat : ℕ) : ℤ), date.month,
      ((date.day.toNat : ℕ) : ℤ)) :=
    hd ▸ parseImapDate_searchDate (by omega) (by omega) date.month_pos date.month_le hmon
  rw [Int.toNat_of_nonneg hyear, Int.toNat_of_nonneg (by omega)] at hparsed
  obtain ⟨hbefore, hon, hsince⟩ := @cmpInternalDate_iff date c.msg d hparsed
  rw [evalSaved_withSearch lowercase views c saved rfl, evalSaved_withSearch lowercase views c saved
    rfl, evalSaved_withSearch lowercase views c saved rfl]
  refine ⟨hbefore, hsince, hon, fun d' hd' key hkey => ?_⟩
  have hnone (f : ℤ × ℤ × ℤ → ℤ × ℤ × ℤ → Bool) :
      cmpInternalDate c.msg d' f = false ∧ cmpSentDate c.msg d' f = false := by
    unfold cmpInternalDate cmpSentDate
    rw [hd']
    exact ⟨rfl, rfl⟩
  simp only [List.mem_cons, List.not_mem_nil, or_false] at hkey
  rcases hkey with rfl | rfl | rfl | rfl | rfl | rfl
  all_goals rw [evalSaved_withSearch lowercase views c saved rfl]
  · exact (hnone dateLt).1
  · exact (hnone (· == ·)).1
  · exact (hnone fun a b => !dateLt a b).1
  · exact (hnone dateLt).2
  · exact (hnone (· == ·)).2
  · exact (hnone fun a b => !dateLt a b).2

/-- What arrived at moment 0 arrived on the first day of 1970. -/
theorem search_by_day_first :
    evalSaved (Views.blank.withSearch String.toLower) ⟨1, 1, 1, 1, Message.new 1 [] 0 1 []⟩ []
      (.on "1-JAN-1970") = true := by
  let first : Date := ⟨1970, 1, 1, by decide, by decide, by decide, by decide⟩
  have hmidnight : midnight first = 0 := by decide
  have hmon : eqIgnoreAsciiCase (months.getD (first.month - 1).toNat "") "JAN" = true :=
    eqIgnoreAsciiCase_iff.mpr (by decide)
  have htext : "1-JAN-1970" = searchDate first.day.toNat "JAN" first.year.toNat := by decide
  have hon := (search_by_day String.toLower Views.blank ⟨1, 1, 1, 1, Message.new 1 [] 0 1 []⟩ []
    first (by decide) (by decide) hmon htext).2.2.1
  rw [hmidnight] at hon
  exact hon.mpr (by decide)

end Programs

section Delivered

/-- A payload that is filed is found under its UID, rendered and dated as it was delivered. -/
theorem deliverMote_stored {render : Payload → ℕ → Bytes} {s s' : MemoryStore} {payload : Payload}
    {mailbox : String} {ts uid : ℕ} (hs : s.WellFormed)
    (h : s.deliverMote render payload mailbox ts = (s', .stored uid)) :
    ∃ mb m, s'.mailbox mailbox = some mb ∧ mb.byUid uid = some m ∧ m.raw = render payload ts ∧
      m.internalDate = ts := by
  obtain ⟨calls, hpath⟩ := (editedTo_deliverMote render s payload mailbox ts).leads
  have hs' := hpath.wellFormed hs
  rw [h] at hs'
  unfold MemoryStore.deliverMote at h
  dsimp only at h
  by_cases hsensitive : payload.headers.sensitive = some true
  · rw [if_pos hsensitive] at h
    cases h
  · rw [if_neg hsensitive] at h
    cases hmut : s.mailboxMut mailbox with
    | none =>
      rw [hmut] at h
      cases h
    | some p =>
      obtain ⟨mb, write⟩ := p
      obtain ⟨-, rfl⟩ := MemoryStore.mailboxMut_eq_some (s := s) hmut
      rw [hmut] at h
      obtain ⟨rfl, huid⟩ := Prod.mk.inj h
      obtain rfl : mb.uidNext = uid := Delivery.stored.inj huid
      have hmb : (s.put mailbox (mb.append (render payload ts) [.recent] ts).2).mailbox mailbox =
          some (mb.append (render payload ts) [.recent] ts).2 := by
        rw [MemoryStore.mailbox_put, if_pos rfl]
      have hinvariant := Mailbox.invariant_of_ledger (hs'.ledgers mailbox _ hmb)
      have hlast : (mb.append (render payload ts) [.recent] ts).2.messages[mb.messages.length]? =
          some (Message.new mb.uidNext [.recent] ts (mb.highestModseq + 1) (render payload ts)) :=
        List.getElem?_concat_length
      have hindex := (hinvariant.indexOfUid_eq_some_iff mb.uidNext mb.messages.length).mpr
        (by rw [hlast]; rfl)
      refine ⟨_, Message.new mb.uidNext [.recent] ts (mb.highestModseq + 1) (render payload ts), hmb,
        ?_, rfl, rfl⟩
      unfold Mailbox.byUid
      rw [hindex, Option.bind_some, hlast]

variable (blake3 : Bytes → Digest)

/-- No two names that are written are the same to a reader that ignores case. -/
theorem eqIgnoreAsciiCase_written : ∀ wanted ∈ ["Date", "Content-Transfer-Encoding", "Content-Type",
      "Subject"], ∀ name ∈ ["From", "References", "Date", "Subject", "Message-ID", "MIME-Version",
      "Content-Type", "Content-Transfer-Encoding"],
    eqIgnoreAsciiCase name wanted = decide (name = wanted) := by
  have hlower : ∀ wanted ∈ ["Date", "Content-Transfer-Encoding", "Content-Type", "Subject"],
      ∀ name ∈ ["From", "References", "Date", "Subject", "Message-ID", "MIME-Version",
        "Content-Type", "Content-Transfer-Encoding"],
      (name.toList.map Char.toLower = wanted.toList.map Char.toLower ↔ name = wanted) := by
    decide
  intro wanted hwanted name hname
  rw [Bool.eq_iff_iff, eqIgnoreAsciiCase_iff, decide_eq_true_iff]
  exact hlower wanted hwanted name hname

/-- The fields that searches read, in a message made for a payload. -/
theorem header_rendered {payload : Payload} (h : rawHeadersExt payload.headers = none) (ts : ℕ) :
    let p := ParsedMessage.parse (renderRfc5322 blake3 payload ts)
    p.header "Date" = some (formatRfc5322Date ts) ∧
    p.header "Content-Transfer-Encoding" = some "8bit" ∧
    headerVal p.headers "Content-Type" = some (trim (sanitizeHeaderValue
      (payload.headers.mime.getD "text/plain; charset=utf-8"))) ∧
    ∃ subject, p.header "Subject" = some subject ∧
      ∀ sent, sanitizeHeaderValue (payload.headers.subject.getD "") = sent →
        ¬IsPrintable sent ∨ ReadsAsWritten sent → decodeEncodedWords subject = sent := by
  obtain ⟨subject, hheaders, hdecoded⟩ := headers_rendered blake3 h ts
  intro p
  have hval (name : String) : p.header name = headerVal p.headers name := rfl
  have hnames := eqIgnoreAsciiCase_written
  simp only [List.forall_mem_cons, List.not_mem_nil, false_implies, implies_true, and_true] at hnames
  rw [hval, hval, hval, hheaders]
  refine ⟨?_, ?_, ?_, subject, ?_, hdecoded⟩
  all_goals
    cases payload.headers.thread <;>
      simp [headerVal_cons, hnames]

/-- What stands after a body, where it does not end a line. -/
def lineEnd (body : Bytes) : String := if body.getLast? = some 10 then "" else "\r\n"

theorem utf8_lineEnd (body : Bytes) :
    utf8 (lineEnd body) = if body.getLast? = some 10 then [] else utf8 "\r\n" := by
  unfold lineEnd
  split_ifs <;> decide

/-- The text of a body is shown as it was sent. -/
theorem decodedBodyText_rendered {payload : Payload} (h : rawHeadersExt payload.headers = none)
    (hmime : payload.headers.mime = none) {text : String} (hbody : payload.body = utf8 text) (ts : ℕ) :
    (ParsedMessage.parse (renderRfc5322 blake3 payload ts)).decodedBodyText =
      (text ++ lineEnd payload.body, false) := by
  obtain ⟨-, hencoding, htype, -⟩ := header_rendered blake3 h ts
  have hraw : (ParsedMessage.parse (renderRfc5322 blake3 payload ts)).body =
      utf8 (text ++ lineEnd payload.body) := by
    rw [ParsedMessage.body_parse, (splitHeaders_renderRfc5322 blake3 h ts).2, utf8_append,
      utf8_lineEnd, hbody]
  have hplain : decodeTransferEncoding (utf8 (text ++ lineEnd payload.body)) "8bit" =
      utf8 (text ++ lineEnd payload.body) := by
    have hlower : (trim "8bit").toLower = "8bit" := toLower_of_toList (by decide)
    unfold decodeTransferEncoding
    rw [hlower]
    rfl
  have hcharset : ((parseContentType (trim (sanitizeHeaderValue "text/plain; charset=utf-8"))).2.2.find?
      fun kv => kv.1 = "charset").map Prod.snd = some "utf-8" := by decide +kernel
  have hutf8 : (String.ofList (trimMatches '"' (trim "utf-8").toList)).toLower = "utf-8" := by
    decide +kernel
  unfold ParsedMessage.decodedBodyText ParsedMessage.transferEncoding contentType
  rw [hencoding, htype, hmime, hraw]
  dsimp only [Option.getD_some, Option.getD_none]
  rw [hplain, hcharset]
  unfold decodeCharset
  rw [Option.getD_some, hutf8, if_pos (by decide), fromUtf8_utf8]

/-- A payload that is delivered is found by what it holds: SUBJECT looks in the subject that was sent,
BODY in the text that was sent, and the day it was sent on is the day it arrived on. -/
theorem delivered_mote_found {r : Renderers} {s s' : MemoryStore} {payload : Payload}
    {mailbox : String} {ts uid : ℕ} (hs : Reachable r s)
    (hext : rawHeadersExt payload.headers = none) (hts : ts < 2 ^ 64)
    (h : s.deliverMote (renderRfc5322 blake3) payload mailbox ts = (s', .stored uid)) :
    ∃ mb m, s'.mailbox mailbox = some mb ∧ mb.byUid uid = some m ∧
      ∀ (lowercase : String → String) (views : Views) (c : SearchCtx) (saved : List ℕ), c.msg = m →
        let found := evalSaved (views.withSearch lowercase) c saved
        (∀ d, found (.sentBefore d) = found (.before d) ∧ found (.sentOn d) = found (.on d) ∧
          found (.sentSince d) = found (.since d)) ∧
        (∀ sent needle, sanitizeHeaderValue (payload.headers.subject.getD "") = sent →
          ¬IsPrintable sent ∨ ReadsAsWritten sent →
          found (.subject needle) = icontains lowercase sent needle) ∧
        ∀ text needle, payload.headers.mime = none → payload.body = utf8 text →
          found (.body needle) = icontains lowercase (text ++ lineEnd payload.body) needle := by
  obtain ⟨mb, m, hmb, hm, hraw, hdate⟩ := deliverMote_stored hs.wellFormed h
  refine ⟨mb, m, hmb, hm, fun lowercase views c saved hc => ?_⟩
  have hkey (key : SearchKey) (hreads : readsText key = true) :
      evalSaved (views.withSearch lowercase) c saved key = matchesKey lowercase key m :=
    hc ▸ evalSaved_withSearch lowercase views c saved hreads
  obtain ⟨hsentDate, -, -, subject, hsubject, hdecoded⟩ := header_rendered blake3 hext ts
  rw [← hraw] at hsentDate hsubject
  have hsame (d : String) (f : ℤ × ℤ × ℤ → ℤ × ℤ × ℤ → Bool) :
      cmpSentDate m d f = cmpInternalDate m d f := by
    unfold cmpSentDate cmpInternalDate
    rw [hsentDate, Option.bind_some, parseRfc5322Day, parseDateYmd_formatRfc5322Date hts,
      Option.getD_some, hdate]
  refine ⟨fun d => ⟨?_, ?_, ?_⟩, fun sent needle hsent hshape => ?_,
    fun text needle hmime hbody => ?_⟩
  · exact (hkey (.sentBefore d) rfl).trans ((hsame d dateLt).trans (hkey (.before d) rfl).symm)
  · exact (hkey (.sentOn d) rfl).trans ((hsame d (· == ·)).trans (hkey (.on d) rfl).symm)
  · exact (hkey (.sentSince d) rfl).trans ((hsame d fun a b => !dateLt a b).trans
      (hkey (.since d) rfl).symm)
  · have hmatches : matchesKey lowercase (.subject needle) m =
        hdrContains lowercase (ParsedMessage.parse m.raw) "Subject" needle := rfl
    rw [hkey (.subject needle) rfl, hmatches, hdrContains, hsubject, Option.map_some, Option.getD_some,
      hdecoded sent hsent hshape]
  · have hmatches : matchesKey lowercase (.body needle) m =
        bodyContains lowercase (ParsedMessage.parse m.raw) needle := rfl
    rw [hkey (.body needle) rfl, hmatches, bodyContains, hraw, decodedBodyText_rendered blake3 hext hmime hbody]

/-- The first payload delivered, with a subject that is not ASCII. -/
theorem delivered_mote_found_greeting :
    ∃ s' mb m, MemoryStore.new.deliverMote (renderRfc5322 fun _ => ⟨List.replicate 32 0, rfl⟩) greeting
        "INBOX" 5 = (s', .stored 1) ∧ s'.mailbox "INBOX" = some mb ∧ mb.byUid 1 = some m ∧
      evalSaved (Views.blank.withSearch id) ⟨1, 1, 1, 1, m⟩ [] (.subject "ü") = true ∧
      evalSaved (Views.blank.withSearch id) ⟨1, 1, 1, 1, m⟩ [] (.body "ho") = false := by
  obtain ⟨mb, m, hmb, hm, hfound⟩ := @delivered_mote_found (fun _ => ⟨List.replicate 32 0, rfl⟩)
    .blank _ _ greeting "INBOX" 5 1 (reachable_new _) rfl (by decide) rfl
  obtain ⟨-, hsubject, hbody⟩ := hfound id Views.blank ⟨1, 1, 1, 1, m⟩ [] rfl
  have hnot : ¬IsPrintable "Grüße" := fun hprintable =>
    absurd (hprintable 'ü' (by decide)) (by decide)
  refine ⟨_, mb, m, rfl, hmb, hm, ?_, ?_⟩
  · rw [hsubject "Grüße" "ü" (by decide) (.inl hnot)]
    decide
  · rw [hbody "hi" "ho" rfl rfl]
    decide

end Delivered
end Dmtap.Mail.Imap
