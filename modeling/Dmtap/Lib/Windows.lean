import Mathlib.Data.List.Basic
import Mathlib.Tactic.SplitIfs

/-! A limit per window. A window opens at the first call after the one before it is over, so the
resets are a window apart, and an interval as long as a window meets at most two windows. -/
namespace Dmtap.Lib

structure Window where
  start : ℕ
  used : ℕ

namespace Window

/-- A call and what became of it. -/
structure Call where
  now : ℕ
  reset : Bool
  admitted : Bool

section Calls
variable (limit width : ℕ)

def expired (w : Window) (now : ℕ) : Bool := width ≤ now - w.start

def refill (w : Window) (now : ℕ) : Window := if w.expired width now then ⟨now, 0⟩ else w

def call (w : Window) (now : ℕ) : Bool × Window :=
  let w := w.refill width now
  if limit ≤ w.used then (false, w) else (true, ⟨w.start, w.used + 1⟩)

/-- The calls of a run. -/
def calls (w : Window) : List ℕ → List Call
  | [] => []
  | now :: times =>
    ⟨now, w.expired width now, (w.call limit width now).1⟩ :: calls (w.call limit width now).2 times

/-- The window after a run. -/
def after (w : Window) (times : List ℕ) : Window :=
  times.foldl (fun w now => (w.call limit width now).2) w

end Calls

variable {limit width : ℕ} {w : Window} {now s : ℕ} {times : List ℕ}

theorem call_cases (limit width : ℕ) (w : Window) (now : ℕ) :
    ((w.refill width now).used < limit ∧ w.call limit width now =
      (true, ⟨(w.refill width now).start, (w.refill width now).used + 1⟩)) ∨
    (limit ≤ (w.refill width now).used ∧ w.call limit width now = (false, w.refill width now)) := by
  unfold call
  dsimp only
  split_ifs with h
  · exact Or.inr ⟨h, rfl⟩
  · exact Or.inl ⟨Nat.lt_of_not_le h, rfl⟩

theorem refill_of_expired (h : w.expired width now = true) : w.refill width now = ⟨now, 0⟩ := by
  rw [refill, if_pos h]

theorem refill_of_not_expired (h : w.expired width now = false) : w.refill width now = w := by
  rw [refill, if_neg (by simp [h])]

theorem used_refill_le (hw : w.used ≤ limit) : (w.refill width now).used ≤ limit := by
  unfold refill
  split_ifs
  · exact Nat.zero_le _
  · exact hw

theorem used_call_le (hw : w.used ≤ limit) : (w.call limit width now).2.used ≤ limit := by
  rcases call_cases limit width w now with ⟨hlt, hcall⟩ | ⟨-, hcall⟩
  · rw [hcall]
    exact hlt
  · rw [hcall]
    exact used_refill_le hw

theorem start_call : (w.call limit width now).2.start = (w.refill width now).start := by
  rcases call_cases limit width w now with ⟨-, hcall⟩ | ⟨-, hcall⟩
  · rw [hcall]
  · rw [hcall]

theorem used_after_le (hw : w.used ≤ limit) : (w.after limit width times).used ≤ limit := by
  induction times generalizing w with
  | nil => exact hw
  | cons now times ih => exact ih (used_call_le hw)

theorem now_mem {c : Call} (h : c ∈ w.calls limit width times) : c.now ∈ times := by
  induction times generalizing w with
  | nil => cases h
  | cons now times ih =>
    rcases List.mem_cons.mp h with rfl | h
    · exact List.mem_cons_self
    · exact List.mem_cons_of_mem _ (ih h)

/-- Splitting the calls of a run is splitting its times. -/
theorem calls_eq_append {front back : List Call} (h : w.calls limit width times = front ++ back) :
    ∃ t₁ t₂, times = t₁ ++ t₂ ∧ front = w.calls limit width t₁ ∧
      back = (w.after limit width t₁).calls limit width t₂ := by
  induction front generalizing w times with
  | nil => exact ⟨[], times, rfl, rfl, h.symm⟩
  | cons c front ih =>
    cases times with
    | nil => cases h
    | cons now times =>
      obtain ⟨rfl, hrest⟩ := List.cons.inj h
      obtain ⟨t₁, t₂, rfl, rfl, rfl⟩ := ih hrest
      exact ⟨now :: t₁, t₂, rfl, rfl, rfl⟩

/-- Without a reset, what is admitted was left in the window, by induction on the calls. -/
theorem admitted_add_used_le (hw : w.used ≤ limit)
    (h : ∀ c ∈ w.calls limit width times, c.reset = false) :
    ((w.calls limit width times).filter Call.admitted).length + w.used ≤ limit := by
  induction times generalizing w with
  | nil => simpa [calls] using hw
  | cons now times ih =>
    have hfirst := refill_of_not_expired (h _ List.mem_cons_self)
    have hrest := ih (@used_call_le limit _ w now hw) fun c hc => h c (List.mem_cons_of_mem _ hc)
    rw [calls]
    rcases call_cases limit width w now with ⟨-, hcall⟩ | ⟨-, hcall⟩
    · rw [hcall, hfirst] at hrest ⊢
      rw [List.filter_cons_of_pos rfl, List.length_cons]
      dsimp only at hrest ⊢
      omega
    · rw [hcall, hfirst] at hrest ⊢
      rw [List.filter_cons_of_neg Bool.false_ne_true]
      exact hrest

/-- From one reset up to the next at most `limit` calls are admitted. -/
theorem admitted_between_resets_le (hw : w.used ≤ limit) {front part back : List Call}
    (h : w.calls limit width times = front ++ part ++ back)
    (hreset : ∀ c ∈ part.tail, c.reset = false) : (part.filter Call.admitted).length ≤ limit := by
  rw [List.append_assoc] at h
  obtain ⟨t₁, t₂, rfl, rfl, hback⟩ := calls_eq_append h
  obtain ⟨t₂, t₃, rfl, rfl, rfl⟩ := calls_eq_append hback.symm
  have hw' : (w.after limit width t₁).used ≤ limit := used_after_le hw
  generalize w.after limit width t₁ = w at hw' hreset
  cases t₂ with
  | nil => exact Nat.zero_le _
  | cons now t₂ =>
    have hrest := admitted_add_used_le (@used_call_le limit _ w now hw') hreset
    rw [calls]
    rcases call_cases limit width w now with ⟨-, hcall⟩ | ⟨-, hcall⟩
    · rw [hcall] at hrest ⊢
      rw [List.filter_cons_of_pos rfl, List.length_cons]
      dsimp only at hrest ⊢
      omega
    · rw [hcall] at hrest ⊢
      rw [List.filter_cons_of_neg Bool.false_ne_true]
      omega

/-- Admitted in the half-open interval of a window's length that starts at `s`. -/
def Call.within (width s : ℕ) (c : Call) : Bool := c.admitted && (s ≤ c.now && c.now < s + width)

theorem filter_within_eq_nil (h : ∀ t ∈ times, t < s ∨ s + width ≤ t) :
    (w.calls limit width times).filter (Call.within width s) = [] := by
  refine List.filter_eq_nil_iff.mpr fun c hc hwithin => ?_
  simp only [Call.within, Bool.and_eq_true, decide_eq_true_eq] at hwithin
  rcases h c.now (now_mem hc) with hlt | hle
  · omega
  · omega

/-- One call adds to the calls within the interval at most what it takes from the window. -/
theorem length_filter_within_calls_cons :
    ((w.calls limit width (now :: times)).filter (Call.within width s)).length +
        (w.refill width now).used ≤
      (((w.call limit width now).2.calls limit width times).filter (Call.within width s)).length +
        (w.call limit width now).2.used := by
  rw [calls]
  rcases call_cases limit width w now with ⟨-, hcall⟩ | ⟨-, hcall⟩
  · rw [hcall]
    have hlength := List.length_filter_le (Call.within width s)
      [⟨now, w.expired width now, true⟩]
    rw [← List.singleton_append, List.filter_append, List.length_append]
    rw [List.length_singleton] at hlength
    dsimp only
    omega
  · have hnot : ¬ Call.within width s ⟨now, w.expired width now, false⟩ = true :=
      Bool.false_ne_true
    refine Nat.le_of_eq ?_
    rw [hcall, List.filter_cons_of_neg hnot]

theorem pairwise_start_call (h : (w.start :: now :: times).Pairwise (· ≤ ·)) :
    ((w.call limit width now).2.start :: times).Pairwise (· ≤ ·) := by
  rw [start_call]
  unfold refill
  split_ifs
  · exact (List.pairwise_cons.mp h).2
  · exact h.sublist ((List.sublist_cons_self now times).cons_cons w.start)

/-- In a window that opened within the interval there is no later one before its end. -/
theorem within_add_used_le (hw : w.used ≤ limit) (hs : s ≤ w.start)
    (htimes : (w.start :: times).Pairwise (· ≤ ·)) :
    ((w.calls limit width times).filter (Call.within width s)).length + w.used ≤ limit := by
  induction times generalizing w with
  | nil => simpa [calls] using hw
  | cons now times ih =>
    obtain ⟨hstart, hnow⟩ := List.pairwise_cons.mp htimes
    have hle := hstart now List.mem_cons_self
    cases hexpired : w.expired width now with
    | true =>
      have hover : s + width ≤ now := by
        have hwidth := of_decide_eq_true hexpired
        omega
      have hlater : ∀ t ∈ now :: times, s + width ≤ t := by
        intro t ht
        rcases List.mem_cons.mp ht with rfl | ht
        · exact hover
        · exact Nat.le_trans hover ((List.pairwise_cons.mp hnow).1 t ht)
      rw [filter_within_eq_nil fun t ht => Or.inr (hlater t ht)]
      simpa using hw
    | false =>
      have hfirst := refill_of_not_expired hexpired
      have hstart' : s ≤ (w.call limit width now).2.start := by
        rw [start_call, hfirst]
        exact hs
      have hrest := ih (used_call_le hw) hstart' (pairwise_start_call htimes)
      have hcons := @length_filter_within_calls_cons limit width w now s times
      rw [hfirst] at hcons
      omega

/-- Calls that all lie behind the start of the interval see the window that was open before it and
at most one more. -/
theorem within_add_used_le_two_mul (hw : w.used ≤ limit) (hs : ∀ t ∈ times, s ≤ t)
    (htimes : (w.start :: times).Pairwise (· ≤ ·)) :
    ((w.calls limit width times).filter (Call.within width s)).length + w.used ≤ 2 * limit := by
  induction times generalizing w with
  | nil =>
    rw [calls, List.filter_nil, List.length_nil]
    omega
  | cons now times ih =>
    have hcons := @length_filter_within_calls_cons limit width w now s times
    cases hexpired : w.expired width now with
    | true =>
      have hfirst := refill_of_expired hexpired
      have hstart : s ≤ (w.call limit width now).2.start := by
        rw [start_call, hfirst]
        exact hs now List.mem_cons_self
      have hrest := @within_add_used_le limit width _ s times (used_call_le hw) hstart
        (pairwise_start_call htimes)
      rw [hfirst] at hcons
      dsimp only at hcons
      omega
    | false =>
      have hfirst := refill_of_not_expired hexpired
      have hrest := ih (w := (w.call limit width now).2) (used_call_le hw) (fun t ht =>
        hs t (List.mem_cons_of_mem _ ht)) (pairwise_start_call htimes)
      rw [hfirst] at hcons
      omega

/-- In any half-open interval of a window's length at most `2 * limit` calls are admitted. -/
theorem within_le_two_mul (hw : w.used ≤ limit) (htimes : (w.start :: times).Pairwise (· ≤ ·))
    (s : ℕ) : ((w.calls limit width times).filter (Call.within width s)).length ≤ 2 * limit := by
  induction times generalizing w with
  | nil => exact Nat.zero_le _
  | cons now times ih =>
    by_cases hnow : s ≤ now
    · have hall : ∀ t ∈ now :: times, s ≤ t := by
        intro t ht
        rcases List.mem_cons.mp ht with rfl | ht
        · exact hnow
        · exact Nat.le_trans hnow
            ((List.pairwise_cons.mp (List.pairwise_cons.mp htimes).2).1 t ht)
      have hle := @within_add_used_le_two_mul limit width w s (now :: times) hw hall htimes
      omega
    · have hrest := ih (w := (w.call limit width now).2) (used_call_le hw) (pairwise_start_call htimes)
      have hnot : ¬ Call.within width s
          ⟨now, w.expired width now, (w.call limit width now).1⟩ = true := by
        simp [Call.within, hnow]
      rw [calls, List.filter_cons_of_neg hnot]
      exact hrest

end Window
end Dmtap.Lib
