import Dmtap.Lib.Overflow
import Dmtap.Lib.Word
import Dmtap.Mote.Build

/-! What a recipient lets a sender push and fetch: the cap on pushed bytes, the term of a pinned file,
and the privacy tier below which nothing is accepted. -/
namespace Dmtap.Mote
open Dmtap.Lib

section Tiers

inductive Tier
  | «private»
  | fast
  deriving DecidableEq, Repr

def Tier.privacyRank : Tier → UInt8
  | .private => 1
  | .fast => 0

inductive TierEnforcementError
  | downgradeRefused
  deriving DecidableEq, Repr

def TierEnforcementError.code : TierEnforcementError → UInt16
  | .downgradeRefused => 0x0310

/-- The offered tier, unless it is weaker than the required one. -/
def tierEnforce (required offered : Tier) : Except TierEnforcementError Tier :=
  if offered.privacyRank < required.privacyRank then .error .downgradeRefused else .ok offered

end Tiers

/-- A pinned file expires at its term; nothing else does. -/
def Durability.checkRetention (d : Durability) (nowUnixSecs : UInt64) : Except MoteError Unit :=
  match d.class, d.retention with
  | .pinned, some term => if term ≤ nowUnixSecs then .error .fileRetentionExpired else .ok ()
  | _, _ => .ok ()

def checkFileAvailable (anyHolderReachable : Bool) : Except MoteError Unit :=
  if anyHolderReachable then .ok () else .error .fileUnavailable

/-- The bytes that one sender has pushed, and the most that it may push. -/
structure InboundSpool where
  used : UInt64
  cap : UInt64
  deriving DecidableEq

def spoolAdmit (used incoming cap : UInt64) : Except MoteError Unit :=
  match checkedAdd used incoming with
  | some total => if total ≤ cap then .ok () else .error .spoolOverflow
  | none => .error .spoolOverflow

namespace InboundSpool

def new (cap : UInt64) : InboundSpool := ⟨0, cap⟩

def remaining (s : InboundSpool) : UInt64 := Word.saturatingSub s.cap s.used

/-- `InboundSpool::admit` -/
def admitIncoming (s : InboundSpool) (incoming : UInt64) : Except MoteError Unit × InboundSpool :=
  match checkedAdd s.used incoming with
  | some total =>
    if total ≤ s.cap then (.ok (), { s with used := total }) else (.error .spoolOverflow, s)
  | none => (.error .spoolOverflow, s)

/-- The spool after a run of pushes. -/
def after (s : InboundSpool) (pushes : List UInt64) : InboundSpool :=
  pushes.foldl (fun s n => (s.admitIncoming n).2) s

/-- The bytes of those pushes of a run that are taken. -/
def taken (s : InboundSpool) : List UInt64 → ℕ
  | [] => 0
  | n :: pushes =>
    (if (s.admitIncoming n).1.isOk then n.toNat else 0) + taken (s.admitIncoming n).2 pushes

variable (s : InboundSpool) (n : UInt64)

/-- A push is taken if and only if it fits below the cap, as an exact sum. -/
theorem admitIncoming_cases : (s.used.toNat + n.toNat ≤ s.cap.toNat ∧
      s.admitIncoming n = (.ok (), { s with used := s.used + n }) ∧
      (s.used + n).toNat = s.used.toNat + n.toNat) ∨
    (s.cap.toNat < s.used.toNat + n.toNat ∧ s.admitIncoming n = (.error .spoolOverflow, s)) := by
  have hcap := s.cap.toNat_lt
  unfold admitIncoming
  by_cases hfits : s.used.toNat + n.toNat < 2 ^ 64
  · have htotal := toNat_add_of_lt hfits
    rw [checkedAdd_of_lt hfits]
    dsimp only
    by_cases hle : s.used + n ≤ s.cap
    · have hle' := UInt64.le_iff_toNat_le.mp hle
      rw [htotal] at hle'
      rw [if_pos hle]
      exact Or.inl ⟨hle', rfl, htotal⟩
    · have hlt := UInt64.lt_iff_toNat_lt.mp (UInt64.not_le.mp hle)
      rw [htotal] at hlt
      rw [if_neg hle]
      exact Or.inr ⟨hlt, rfl⟩
  · have hnone := checkedAdd_eq_none_iff.mpr (Nat.not_lt.mp hfits)
    rw [hnone]
    exact Or.inr ⟨by omega, rfl⟩

theorem spoolAdmit_eq : spoolAdmit s.used n s.cap = (s.admitIncoming n).1 := by
  unfold spoolAdmit admitIncoming
  cases checkedAdd s.used n with
  | none => rfl
  | some total =>
    dsimp only
    split_ifs with hle
    · rfl
    · rfl

theorem cap_admitIncoming : (s.admitIncoming n).2.cap = s.cap := by
  rcases s.admitIncoming_cases n with ⟨-, hstep, -⟩ | ⟨-, hstep⟩
  · rw [hstep]
  · rw [hstep]

theorem cap_after (pushes : List UInt64) : (s.after pushes).cap = s.cap := by
  induction pushes generalizing s with
  | nil => rfl
  | cons n pushes ih =>
    change ((s.admitIncoming n).2.after pushes).cap = s.cap
    rw [ih, cap_admitIncoming]

/-- A run adds up what it takes, and never goes over the cap. -/
theorem used_after (pushes : List UInt64) (h : s.used.toNat ≤ s.cap.toNat) :
    (s.after pushes).used.toNat = s.used.toNat + s.taken pushes ∧
      (s.after pushes).used.toNat ≤ s.cap.toNat := by
  induction pushes generalizing s with
  | nil => exact ⟨rfl, h⟩
  | cons n pushes ih =>
    change ((s.admitIncoming n).2.after pushes).used.toNat = s.used.toNat + s.taken (n :: pushes) ∧
      ((s.admitIncoming n).2.after pushes).used.toNat ≤ s.cap.toNat
    rcases s.admitIncoming_cases n with ⟨hle, hstep, htotal⟩ | ⟨-, hstep⟩
    · have hnext : (s.admitIncoming n).2.used.toNat ≤ (s.admitIncoming n).2.cap.toNat := by
        rw [hstep, htotal]
        exact hle
      obtain ⟨hsum, hcap⟩ := ih _ hnext
      rw [cap_admitIncoming] at hcap
      refine ⟨?_, hcap⟩
      rw [hsum, taken, hstep]
      change (s.used + n).toNat + _ = s.used.toNat + (n.toNat + _)
      rw [htotal, Nat.add_assoc]
    · obtain ⟨hsum, hcap⟩ := ih s h
      rw [hstep]
      refine ⟨?_, hcap⟩
      rw [hsum, taken, hstep]
      change _ = s.used.toNat + (0 + _)
      rw [Nat.zero_add]

/-- A sender fills at most its cap: after any run of pushes of any sizes the spool holds exactly what
was taken, and the next push is taken if and only if it fits into what remains. -/
theorem spool_never_overruns (cap : UInt64) (pushes : List UInt64) (n : UInt64) :
    ((new cap).after pushes).used.toNat = (new cap).taken pushes ∧
    (new cap).taken pushes ≤ cap.toNat ∧
    ((new cap).after pushes).remaining.toNat = cap.toNat - (new cap).taken pushes ∧
    (((new cap).after pushes).admitIncoming n).1 = spoolAdmit ((new cap).after pushes).used n cap ∧
    ((((new cap).after pushes).admitIncoming n).1 = .ok () ↔
      (new cap).taken pushes + n.toNat ≤ cap.toNat) ∧
    ((((new cap).after pushes).admitIncoming n).1 ≠ .ok () →
      (((new cap).after pushes).admitIncoming n).2 = (new cap).after pushes) := by
  have hstart : (new cap).used.toNat ≤ (new cap).cap.toNat := Nat.zero_le _
  obtain ⟨hused, hle⟩ := used_after (new cap) pushes hstart
  have hcap : ((new cap).after pushes).cap = cap := cap_after (new cap) pushes
  have hzero : (new cap).used.toNat = 0 := rfl
  rw [hzero, Nat.zero_add] at hused
  generalize (new cap).after pushes = s at *
  refine ⟨hused, hused ▸ hle, ?_, ?_, ?_, ?_⟩
  · have hsub := Word.toNat_saturatingSub s.cap s.used
    rw [hcap] at hsub
    rw [← hused, remaining, hcap]
    exact hsub
  · rw [← spoolAdmit_eq, hcap]
  · rw [← hused]
    rcases s.admitIncoming_cases n with ⟨hfits, hstep, -⟩ | ⟨hover, hstep⟩
    · rw [hcap] at hfits
      rw [hstep]
      exact iff_of_true rfl hfits
    · rw [hcap] at hover
      rw [hstep]
      exact iff_of_false (by simp) (Nat.not_le.mpr hover)
  · intro hrefused
    rcases s.admitIncoming_cases n with ⟨-, hstep, -⟩ | ⟨-, hstep⟩
    · rw [hstep] at hrefused
      exact absurd rfl hrefused
    · rw [hstep]

end InboundSpool
end Dmtap.Mote
