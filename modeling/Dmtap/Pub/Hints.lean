import Dmtap.Lib.Windows
import Dmtap.Lib.Word
import Dmtap.Pub.Objects

/-! The budget a subscriber has for hints. It is a window limit in machine words that never come
near their largest values. -/
namespace Dmtap.Pub
open Dmtap.Lib

structure HintBudget where
  maxPerWindow : UInt32
  windowMs : UInt64
  windowStart : UInt64
  used : UInt32
  deriving DecidableEq

namespace HintBudget

def new (maxPerWindow : UInt32) (windowMs now : UInt64) : HintBudget :=
  ⟨maxPerWindow, windowMs, now, 0⟩

/-- Whether the window has rolled over. -/
def expired (b : HintBudget) (now : UInt64) : Bool :=
  b.windowMs ≤ Word.saturatingSub now b.windowStart

/-- Start a fresh window where the last one is over. -/
def refresh (b : HintBudget) (now : UInt64) : HintBudget :=
  if b.expired now then { b with windowStart := now, used := 0 } else b

def admitHint (b : HintBudget) (now : UInt64) : Except PubError Unit × HintBudget :=
  let b := b.refresh now
  if b.maxPerWindow ≤ b.used then (.error .hintRateLimited, b)
  else (.ok (), { b with used := b.used + 1 })

/-- The calls of a run: their times, whether they opened a window and whether they were admitted. -/
def calls (b : HintBudget) : List UInt64 → List Window.Call
  | [] => []
  | now :: times =>
    ⟨now.toNat, b.expired now, (b.admitHint now).1.isOk⟩ :: calls (b.admitHint now).2 times

/-- The budget after a run. -/
def after (b : HintBudget) (times : List UInt64) : HintBudget :=
  times.foldl (fun b now => (b.admitHint now).2) b

def window (b : HintBudget) : Window := ⟨b.windowStart.toNat, b.used.toNat⟩

section Steps
variable (b : HintBudget) (now : UInt64)

theorem expired_eq : b.expired now = b.window.expired b.windowMs.toNat now.toNat := by
  have hsub : (Word.saturatingSub now b.windowStart).toNat = now.toNat - b.windowStart.toNat :=
    Word.toNat_saturatingSub now b.windowStart
  unfold expired Window.expired
  rw [decide_eq_decide, UInt64.le_iff_toNat_le, hsub]
  rfl

theorem refresh_cases : (b.expired now = false ∧ b.refresh now = b) ∨
    (b.expired now = true ∧ b.refresh now = { b with windowStart := now, used := 0 }) := by
  unfold refresh
  cases b.expired now with
  | true => exact Or.inr ⟨rfl, rfl⟩
  | false => exact Or.inl ⟨rfl, rfl⟩

theorem window_refresh :
    (b.refresh now).window = b.window.refill b.windowMs.toNat now.toNat := by
  unfold Window.refill
  rw [← expired_eq]
  rcases b.refresh_cases now with ⟨hexpired, hfresh⟩ | ⟨hexpired, hfresh⟩
  · rw [hexpired, hfresh]
    rfl
  · rw [hexpired, hfresh]
    rfl

theorem refresh_config :
    (b.refresh now).maxPerWindow = b.maxPerWindow ∧ (b.refresh now).windowMs = b.windowMs := by
  rcases b.refresh_cases now with ⟨-, hfresh⟩ | ⟨-, hfresh⟩
  · rw [hfresh]
    exact ⟨rfl, rfl⟩
  · rw [hfresh]
    exact ⟨rfl, rfl⟩

/-- What a call does: it is refused, or it counts one up from below the maximum. -/
theorem admitHint_cases :
    ((b.refresh now).used.toNat < b.maxPerWindow.toNat ∧ b.admitHint now =
      (.ok (), { b.refresh now with used := (b.refresh now).used + 1 })) ∨
    (b.maxPerWindow.toNat ≤ (b.refresh now).used.toNat ∧
      b.admitHint now = (.error .hintRateLimited, b.refresh now)) := by
  unfold admitHint
  dsimp only
  rw [← (b.refresh_config now).1]
  split_ifs with h
  · exact Or.inr ⟨UInt32.le_iff_toNat_le.mp h, rfl⟩
  · exact Or.inl ⟨UInt32.lt_iff_toNat_lt.mp (UInt32.not_le.mp h), rfl⟩

theorem toNat_used_succ {n limit : UInt32} (h : n.toNat < limit.toNat) :
    (n + 1).toNat = n.toNat + 1 := by
  have hlimit := limit.toNat_lt
  rw [UInt32.toNat_add]
  refine Nat.mod_eq_of_lt ?_
  change n.toNat + 1 < 2 ^ 32
  omega

/-- A call of the budget is a call of the window limit. -/
theorem admitHint_spec :
    (b.admitHint now).1.isOk =
      (b.window.call b.maxPerWindow.toNat b.windowMs.toNat now.toNat).1 ∧
    (b.admitHint now).2.window =
      (b.window.call b.maxPerWindow.toNat b.windowMs.toNat now.toNat).2 ∧
    (b.admitHint now).2.maxPerWindow = b.maxPerWindow ∧
    (b.admitHint now).2.windowMs = b.windowMs := by
  obtain ⟨hmax, hms⟩ := b.refresh_config now
  unfold Window.call
  rw [← window_refresh]
  rcases b.admitHint_cases now with ⟨hlt, hcall⟩ | ⟨hle, hcall⟩
  · have hnot : ¬ b.maxPerWindow.toNat ≤ (b.refresh now).window.used := Nat.not_le_of_lt hlt
    rw [hcall]
    dsimp only
    rw [if_neg hnot]
    refine ⟨rfl, ?_, hmax, hms⟩
    change Window.mk _ ((b.refresh now).used + 1).toNat = _
    rw [toNat_used_succ hlt]
    rfl
  · have hfull : b.maxPerWindow.toNat ≤ (b.refresh now).window.used := hle
    rw [hcall]
    dsimp only
    rw [if_pos hfull]
    exact ⟨rfl, rfl, hmax, hms⟩

/-- A refused call only refreshes the budget. -/
theorem admitHint_refused {e : PubError} (h : (b.admitHint now).1 = .error e) :
    (b.admitHint now).2 = b.refresh now := by
  rcases b.admitHint_cases now with ⟨-, hcall⟩ | ⟨-, hcall⟩
  · rw [hcall] at h
    cases h
  · rw [hcall]

end Steps

section Runs
variable {b : HintBudget}

theorem calls_eq (times : List UInt64) :
    b.calls times = b.window.calls b.maxPerWindow.toNat b.windowMs.toNat
      (times.map UInt64.toNat) := by
  induction times generalizing b with
  | nil => rfl
  | cons now times ih =>
    obtain ⟨hok, hwindow, hmax, hms⟩ := b.admitHint_spec now
    have hrest := @ih (b.admitHint now).2
    rw [hmax, hms, hwindow] at hrest
    rw [calls, List.map_cons, Window.calls, hok, expired_eq, hrest]

/-- The count of every reached budget is within the maximum, and the configuration is kept. -/
theorem after_spec (times : List UInt64) (hb : b.used.toNat ≤ b.maxPerWindow.toNat) :
    (b.after times).maxPerWindow = b.maxPerWindow ∧ (b.after times).windowMs = b.windowMs ∧
      (b.after times).used.toNat ≤ b.maxPerWindow.toNat := by
  induction times generalizing b with
  | nil => exact ⟨rfl, rfl, hb⟩
  | cons now times ih =>
    obtain ⟨-, hwindow, hmax, hms⟩ := b.admitHint_spec now
    have hle := @Window.used_call_le b.maxPerWindow.toNat b.windowMs.toNat b.window now.toNat hb
    rw [← hwindow, ← hmax] at hle
    have hrest := ih hle
    rw [hmax, hms] at hrest
    exact hrest

/-- Whatever the calls of a run: an interval of a window's length admits at most twice the
maximum, a window at most the maximum, a refused call at most starts a fresh window, and the count
never exceeds the maximum and is the number of hints the window has admitted. -/
theorem new_bounds (max : UInt32) (windowMs start : UInt64) (times : List UInt64)
    (htimes : (start :: times).Pairwise (· ≤ ·)) :
    (∀ s, (((new max windowMs start).calls times).filter
      (Window.Call.within windowMs.toNat s)).length ≤ 2 * max.toNat) ∧
    (∀ front part back, (new max windowMs start).calls times = front ++ part ++ back →
      (∀ c ∈ part.tail, c.reset = false) →
      (part.filter Window.Call.admitted).length ≤ max.toNat) ∧
    (∀ now e, (((new max windowMs start).after times).admitHint now).1 = .error e →
      (((new max windowMs start).after times).admitHint now).2 =
          (new max windowMs start).after times ∨
        ((new max windowMs start).after times).expired now = true ∧
          (((new max windowMs start).after times).admitHint now).2 =
            { (new max windowMs start).after times with windowStart := now, used := 0 }) ∧
    ((new max windowMs start).after times).used.toNat ≤ max.toNat ∧
    ∀ now, (((new max windowMs start).after times).admitHint now).1 = .ok () →
      (((new max windowMs start).after times).admitHint now).2.used.toNat =
        (((new max windowMs start).after times).refresh now).used.toNat + 1 := by
  have hzero : (new max windowMs start).used.toNat ≤ (new max windowMs start).maxPerWindow.toNat :=
    Nat.zero_le _
  have hcalls := @calls_eq (new max windowMs start) times
  have hsorted : ((new max windowMs start).window.start :: times.map UInt64.toNat).Pairwise
      (· ≤ ·) := by
    have hmap : ((start :: times).map UInt64.toNat).Pairwise (· ≤ ·) :=
      List.pairwise_map.mpr (htimes.imp fun h => UInt64.le_iff_toNat_le.mp h)
    exact hmap
  refine ⟨fun s => ?_, fun front part back hsplit hreset => ?_, fun now e h => ?_,
    (after_spec times hzero).2.2, fun now h => ?_⟩
  · rw [hcalls]
    exact Window.within_le_two_mul hzero hsorted s
  · rw [hcalls] at hsplit
    exact Window.admitted_between_resets_le hzero hsplit hreset
  · rw [admitHint_refused _ now h]
    rcases refresh_cases ((new max windowMs start).after times) now with ⟨-, hsame⟩ | hfresh
    · exact Or.inl hsame
    · exact Or.inr hfresh
  · rcases admitHint_cases ((new max windowMs start).after times) now with
      ⟨hlt, hcall⟩ | ⟨-, hcall⟩
    · rw [hcall]
      exact toNat_used_succ hlt
    · rw [hcall] at h
      cases h

theorem new_bounds_burst :
    (((new 2 1000 0).calls [0, 999, 1000, 1001, 1002]).filter
      (Window.Call.within 1000 999)).length ≤ 4 :=
  (new_bounds 2 1000 0 [0, 999, 1000, 1001, 1002] (by decide)).1 999

end Runs
end HintBudget
end Dmtap.Pub
