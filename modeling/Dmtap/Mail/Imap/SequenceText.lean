import Dmtap.Mail.Imap.Expunge
import Dmtap.Mail.Imap.SequenceGrammar

/-! Numbers written as a sequence set, in runs. The reader of sequence sets finds the same numbers
again, and the scan for runs stays within 32 bits. -/
namespace Dmtap.Mail.Imap
open Lib

section Checked

/-- The scan of a run with 32-bit numbers, or nothing where the number after the end of the run
does not fit. It is computed only when the list goes on. -/
def takeRunChecked : ℕ → List ℕ → Option (ℕ × List ℕ)
  | hi, [] => some (hi, [])
  | hi, n :: l =>
    if 2 ^ 32 ≤ hi + 1 then none
    else if n = hi + 1 then takeRunChecked n l
    else some (hi, n :: l)

def runsChecked : ℕ → List ℕ → Option (List (ℕ × ℕ))
  | 0, _ => some []
  | _, [] => some []
  | fuel + 1, lo :: l => do
    let (hi, rest) ← takeRunChecked lo l
    let later ← runsChecked fuel rest
    some ((lo, hi) :: later)

/-- Below a later 32-bit number there is room for one more. -/
theorem takeRunChecked_eq {hi : ℕ} {l : List ℕ} (hasc : (hi :: l).Pairwise (· < ·))
    (hfit : ∀ n ∈ l, n < 2 ^ 32) : takeRunChecked hi l = some (takeRun hi l) := by
  induction l generalizing hi with
  | nil => rfl
  | cons n l ih =>
    obtain ⟨hhi, htail⟩ := List.pairwise_cons.mp hasc
    have hlt := hhi n List.mem_cons_self
    have hn := hfit n List.mem_cons_self
    unfold takeRunChecked takeRun
    rw [if_neg (by omega)]
    by_cases hnext : n = hi + 1
    · rw [if_pos hnext, if_pos hnext]
      exact ih htail fun m hm => hfit m (List.mem_cons_of_mem n hm)
    · rw [if_neg hnext, if_neg hnext]

theorem takeRun_suffix (lo : ℕ) (l : List ℕ) : (takeRun lo l).2 <:+ l := by
  obtain ⟨k, hl, -⟩ := takeRun_spec lo l
  exact ⟨_, hl.symm⟩

theorem runsChecked_eq (fuel : ℕ) {l : List ℕ} (hasc : l.Pairwise (· < ·))
    (hfit : ∀ n ∈ l, n < 2 ^ 32) : runsChecked fuel l = some (runs fuel l) := by
  induction fuel generalizing l with
  | zero => rfl
  | succ fuel ih =>
    cases l with
    | nil => rfl
    | cons lo l =>
      have hrest := takeRun_suffix lo l
      have htail := (List.pairwise_cons.mp hasc).2
      have hfit' : ∀ n ∈ l, n < 2 ^ 32 := fun n hn => hfit n (List.mem_cons_of_mem lo hn)
      have hlater := ih (htail.sublist hrest.sublist) fun n hn => hfit' n (hrest.subset hn)
      have hunfold : runsChecked (fuel + 1) (lo :: l) = (takeRunChecked lo l).bind fun r =>
        (runsChecked fuel r.2).bind fun later => some ((lo, r.1) :: later) := rfl
      rw [hunfold, takeRunChecked_eq hasc hfit', Option.bind_some, hlater]
      rfl

end Checked

section Texts

/-- The ends of a range in decimal digits, or its only number. -/
def rangeText (r : ℕ × ℕ) : List Char :=
  if r.1 = r.2 then Nat.toDigits 10 r.1 else Nat.toDigits 10 r.1 ++ ':' :: Nat.toDigits 10 r.2

def rangesText (ranges : List (ℕ × ℕ)) : String :=
  String.ofList ([','].intercalate (ranges.map rangeText))

theorem toSequenceSet_eq (uids : List ℕ) :
    toSequenceSet uids = rangesText (runs uids.length uids) := by
  unfold toSequenceSet rangesText joinWith
  rw [← String.toList_inj, String.toList_intercalate, List.map_map]
  have hitem : String.toList ∘ (fun r : ℕ × ℕ =>
      if r.1 = r.2 then toString r.1 else toString r.1 ++ ":" ++ toString r.2) = rangeText := by
    funext r
    unfold rangeText
    by_cases h : r.1 = r.2
    · simp [h]
    · simp [h]
  rw [hitem]
  exact String.toList_ofList.symm

theorem rangeText_ne_nil (r : ℕ × ℕ) : rangeText r ≠ [] := by
  unfold rangeText
  split_ifs
  · exact Nat.toDigits_ne_nil
  · simp

theorem comma_notMem_rangeText (r : ℕ × ℕ) : ',' ∉ rangeText r := by
  have hdigits := notMem_toDigits (c := ',') (by decide)
  unfold rangeText
  split_ifs
  · exact hdigits r.1
  · simp [hdigits r.1, hdigits r.2]

theorem colon_mem_rangeText_iff (r : ℕ × ℕ) : ':' ∈ rangeText r ↔ r.1 ≠ r.2 := by
  have hdigits := notMem_toDigits (c := ':') (by decide)
  unfold rangeText
  by_cases h : r.1 = r.2
  · simp [h, hdigits r.2]
  · simp [h]

theorem rangeText_injective : Function.Injective rangeText := by
  intro r s h
  have hdigits := notMem_toDigits (c := ':') (by decide)
  have hends : r.1 ≠ r.2 ↔ s.1 ≠ s.2 := by
    rw [← colon_mem_rangeText_iff, ← colon_mem_rangeText_iff, h]
  unfold rangeText at h
  by_cases hr : r.1 = r.2
  · have hs : s.1 = s.2 := by
      by_contra hne
      exact hends.mpr hne hr
    rw [if_pos hr, if_pos hs] at h
    have hlo := toDigits_injective h
    exact Prod.ext hlo (by rw [← hr, ← hs, hlo])
  · rw [if_neg hr, if_neg (hends.mp hr)] at h
    obtain ⟨hlo, -, hhi⟩ := (List.append_cons_inj_of_notMem (hdigits r.1) (hdigits r.2)).mp h
    exact Prod.ext (toDigits_injective hlo) (toDigits_injective hhi)

theorem splitOn_ranges {ranges : List (ℕ × ℕ)} (hne : ranges ≠ []) :
    ([','].intercalate (ranges.map rangeText)).splitOn ',' = ranges.map rangeText := by
  refine List.splitOn_intercalate ',' ?_ (by simpa using hne)
  intro item hitem
  obtain ⟨r, -, rfl⟩ := List.mem_map.mp hitem
  exact comma_notMem_rangeText r

theorem rangesText_eq_empty_iff {ranges : List (ℕ × ℕ)} : rangesText ranges = "" ↔ ranges = [] := by
  constructor
  · intro h
    by_contra hne
    have hsplit := splitOn_ranges hne
    have hnil : [','].intercalate (ranges.map rangeText) = [] := by
      rwa [rangesText, ← String.toList_inj, String.toList_ofList] at h
    rw [hnil] at hsplit
    have hmem : [] ∈ ranges.map rangeText := by
      rw [← hsplit]
      exact List.mem_cons_self
    obtain ⟨r, -, hr⟩ := List.mem_map.mp hmem
    exact rangeText_ne_nil r hr
  · rintro rfl
    rfl

/-- Different ranges have different texts. -/
theorem rangesText_injective : Function.Injective rangesText := by
  intro ranges ranges' h
  by_cases hnil : ranges = []
  · have hempty : rangesText ranges' = "" := by rw [← h, hnil]; rfl
    rw [hnil, rangesText_eq_empty_iff.mp hempty]
  · have hnil' : ranges' ≠ [] := by
      intro hempty
      rw [hempty] at h
      exact hnil (rangesText_eq_empty_iff.mp h)
    have htexts := String.ofList_injective h
    have hsplit := splitOn_ranges hnil
    rw [htexts, splitOn_ranges hnil'] at hsplit
    exact (List.map_injective_iff.mpr rangeText_injective hsplit).symm

end Texts

section Written

theorem decimal_toDigits (n : ℕ) : decimal (Nat.toDigits 10 n) = n := foldl_toDigits n

/-- No leading zero, by the digits in front of the last one. -/
theorem head?_toDigits {n : ℕ} (h : 0 < n) : (Nat.toDigits 10 n).head? ≠ some '0' := by
  induction n using Nat.strong_induction_on with
  | _ n ih =>
    by_cases hn : n < 10
    · rw [Nat.toDigits_of_lt_base hn, List.head?_cons]
      intro hzero
      have hvalue := Nat.toNat_digitChar_sub_48_of_lt_ten hn
      rw [Option.some.inj hzero] at hvalue
      have hn0 : n = 0 := hvalue.symm
      omega
    · rw [Nat.toDigits_of_base_le (by omega) (by omega),
        List.head?_append_of_ne_nil _ Nat.toDigits_ne_nil]
      exact ih (n / 10) (by omega) (by omega)

theorem isNumber_toDigits {n : ℕ} (hpos : 0 < n) (hfit : n < 2 ^ 32) :
    IsNumber (Nat.toDigits 10 n) := by
  refine ⟨Nat.toDigits_ne_nil, fun c hc => isDigit_of_mem_toDigits hc, ?_, ?_⟩
  · rw [decimal_toDigits]
    exact hpos
  · rw [decimal_toDigits]
    omega

theorem seqNumber_toDigits {n : ℕ} (hpos : 0 < n) (hfit : n < 2 ^ 32) :
    SeqNumber (Nat.toDigits 10 n) (.num n) := by
  have hread := SeqNumber.num (isNumber_toDigits hpos hfit) (head?_toDigits hpos)
  rwa [decimal_toDigits] at hread

theorem seqItem_rangeText {r : ℕ × ℕ} (hlo : 0 < r.1 ∧ r.1 < 2 ^ 32) (hhi : 0 < r.2 ∧ r.2 < 2 ^ 32) :
    SeqItem (rangeText r) (.num r.1, .num r.2) := by
  have hfirst := seqNumber_toDigits hlo.1 hlo.2
  unfold rangeText
  by_cases h : r.1 = r.2
  · rw [if_pos h, ← h]
    exact .number hfirst
  · rw [if_neg h]
    exact .range hfirst (seqNumber_toDigits hhi.1 hhi.2)

theorem runs_le {fuel : ℕ} {l : List ℕ} : ∀ r ∈ runs fuel l, r.1 ≤ r.2 := by
  induction fuel generalizing l with
  | zero => simp [runs]
  | succ fuel ih =>
    cases l with
    | nil => simp [runs]
    | cons lo l =>
      obtain ⟨k, -, hhi⟩ := takeRun_spec lo l
      have hruns : runs (fuel + 1) (lo :: l) =
          (lo, (takeRun lo l).1) :: runs fuel (takeRun lo l).2 := rfl
      rw [hruns, List.forall_mem_cons]
      exact ⟨by omega, ih⟩

/-- The ends of a run are numbers of the list. -/
theorem runs_ends {l : List ℕ} {r : ℕ × ℕ} (hr : r ∈ runs l.length l) : r.1 ∈ l ∧ r.2 ∈ l := by
  have hle := runs_le r hr
  have hmem := mem_runs (Nat.le_refl l.length)
  exact ⟨(hmem r.1).mp ⟨r, hr, Nat.le_refl _, hle⟩, (hmem r.2).mp ⟨r, hr, hle, Nat.le_refl _⟩⟩

theorem runs_ne_nil {l : List ℕ} (h : l ≠ []) : runs l.length l ≠ [] := by
  obtain ⟨lo, l, rfl⟩ := List.exists_cons_of_ne_nil h
  exact List.cons_ne_nil _ _

/-- What is printed is a sequence set of the grammar. -/
theorem lists_toSequenceSet {uids : List ℕ} (hne : uids ≠ [])
    (h : ∀ n ∈ uids, 0 < n ∧ n < 2 ^ 32) : Lists (toSequenceSet uids)
      ⟨(runs uids.length uids).map fun r => (.num r.1, .num r.2), false⟩ := by
  rw [toSequenceSet_eq]
  refine .ranges (by simpa using runs_ne_nil hne) ?_
  rw [List.forall₂_map_left_iff, List.forall₂_map_right_iff, List.forall₂_same]
  intro r hr
  obtain ⟨hlo, hhi⟩ := runs_ends hr
  exact seqItem_rangeText (h r.1 hlo) (h r.2 hhi)

/-- A text that is read as a sequence set of exactly these numbers, whatever the largest is. -/
def ReadsAs (s : String) (values : List ℕ) : Prop :=
  ∃ set, SequenceSet.parse s = some set ∧
    ∀ n largest, set.contains n largest = true ↔ n ∈ values

theorem readsAs_toSequenceSet {uids : List ℕ} (hne : uids ≠ [])
    (h : ∀ n ∈ uids, 0 < n ∧ n < 2 ^ 32) : ReadsAs (toSequenceSet uids) uids := by
  refine ⟨_, (lists_toSequenceSet hne h).read, fun n largest => ?_⟩
  rw [contains_iff_inRange, ← mem_runs (Nat.le_refl _) n]
  simp only [List.mem_map, exists_exists_and_eq_and]
  refine exists_congr fun r => and_congr_right fun hr => ?_
  have hle := runs_le r hr
  unfold InRange
  dsimp only [Point.resolve]
  rw [min_eq_left hle, max_eq_right hle]

/-- A text that lists ranges, and the numbers in them. -/
def Renders (s : String) (values : Set ℕ) : Prop :=
  ∃ ranges, s = rangesText ranges ∧ ∀ n, n ∈ values ↔ ∃ r ∈ ranges, r.1 ≤ n ∧ n ≤ r.2

theorem renders_toSequenceSet_iff (uids : List ℕ) (values : Set ℕ) :
    Renders (toSequenceSet uids) values ↔ values = {n | n ∈ uids} := by
  have hruns := mem_runs (Nat.le_refl uids.length)
  constructor
  · rintro ⟨ranges, htext, hvalues⟩
    rw [toSequenceSet_eq] at htext
    have hranges := rangesText_injective htext
    ext n
    rw [hvalues n, ← hranges, hruns n]
    exact Iff.rfl
  · rintro rfl
    exact ⟨_, toSequenceSet_eq uids, fun n => (hruns n).symm⟩

end Written

section RoundTrip

def toSequenceSetChecked (uids : List ℕ) : Option String :=
  (runsChecked uids.length uids).map rangesText

def toSequenceSetOfChecked (ids : List ℕ) : Option String :=
  toSequenceSetChecked (ids.insertionSort (· ≤ ·)).dedup

theorem toSequenceSetChecked_eq {uids : List ℕ} (hasc : uids.Pairwise (· < ·))
    (hfit : ∀ n ∈ uids, n < 2 ^ 32) : toSequenceSetChecked uids = some (toSequenceSet uids) := by
  rw [toSequenceSetChecked, runsChecked_eq _ hasc hfit, Option.map_some, toSequenceSet_eq]

/-- The numbers written are read back, and no step needs more than 32 bits. -/
theorem toSequenceSet_roundTrip :
    (∀ uids : List ℕ, uids.Pairwise (· < ·) → (∀ n ∈ uids, 0 < n ∧ n < 2 ^ 32) →
      toSequenceSetChecked uids = some (toSequenceSet uids) ∧
        (uids ≠ [] → ReadsAs (toSequenceSet uids) uids)) ∧
    ∀ ids : List ℕ, (∀ n ∈ ids, n < 2 ^ 32) →
      toSequenceSetOfChecked ids = some (toSequenceSetOf ids) ∧
        (∀ values, Renders (toSequenceSetOf ids) values ↔ values = {n | n ∈ ids}) ∧
          (ids ≠ [] → (∀ n ∈ ids, 0 < n) → ReadsAs (toSequenceSetOf ids) ids) := by
  constructor
  · intro uids hasc h
    exact ⟨toSequenceSetChecked_eq hasc fun n hn => (h n hn).2,
      fun hne => readsAs_toSequenceSet hne h⟩
  · intro ids hfit
    have hasc := pairwise_dedup_insertionSort ids
    have hset : {n | n ∈ (ids.insertionSort (· ≤ ·)).dedup} = {n | n ∈ ids} :=
      Set.ext fun n => mem_dedup_insertionSort
    refine ⟨toSequenceSetChecked_eq hasc fun n hn => hfit n (mem_dedup_insertionSort.mp hn), ?_, ?_⟩
    · intro values
      rw [← hset]
      exact renders_toSequenceSet_iff _ values
    · intro hne hpos
      obtain ⟨first, hfirst⟩ := List.exists_mem_of_ne_nil ids hne
      have hne' := List.ne_nil_of_mem (mem_dedup_insertionSort.mpr hfirst)
      obtain ⟨set, hset, hcontains⟩ := readsAs_toSequenceSet hne' fun n hn =>
        ⟨hpos n (mem_dedup_insertionSort.mp hn), hfit n (mem_dedup_insertionSort.mp hn)⟩
      exact ⟨set, hset, fun n largest => (hcontains n largest).trans mem_dedup_insertionSort⟩

theorem toSequenceSet_roundTrip_top :
    (toSequenceSetChecked [1, 2, 3, 4294967294, 4294967295] =
        some (toSequenceSet [1, 2, 3, 4294967294, 4294967295]) ∧
      ReadsAs (toSequenceSet [1, 2, 3, 4294967294, 4294967295])
        [1, 2, 3, 4294967294, 4294967295]) ∧
      ReadsAs (toSequenceSetOf [8, 3, 3, 4]) [8, 3, 3, 4] := by
  have hsorted := toSequenceSet_roundTrip.1 [1, 2, 3, 4294967294, 4294967295] (by decide) (by decide)
  have hids := toSequenceSet_roundTrip.2 [8, 3, 3, 4] (by decide)
  exact ⟨⟨hsorted.1, hsorted.2 (by decide)⟩, hids.2.2 (by decide) (by decide)⟩

end RoundTrip

end Dmtap.Mail.Imap
