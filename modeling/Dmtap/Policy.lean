import Dmtap.Id
import Dmtap.Lib.OnceOnly

/-! What a recipient decides about a message before acting on it: whether it has the message already,
whether its clock fits, whether it is still wanted, and whether its sender is the one pinned. -/
namespace Dmtap.Policy
open Dmtap.Lib

/-- The tolerated skew of clocks, 120 seconds. -/
def skewToleranceMs : UInt64 := 120000

inductive PolicyError
  | duplicateId
  | timestampOutOfSkew
  | expiredMote
  | fromPinMismatch
  deriving DecidableEq, Repr

def PolicyError.code : PolicyError → UInt16
  | .duplicateId => 0x020E
  | .timestampOutOfSkew => 0x020C
  | .expiredMote => 0x020B
  | .fromPinMismatch => 0x0209

section Predicates

def isDuplicate (seen : Finset Bytes) (id : ContentId) : Bool := decide (id.bytes ∈ seen)

def absDiff (a b : UInt64) : UInt64 := if a < b then b - a else a - b

def withinSkew (senderTs receiverNow toleranceMs : UInt64) : Bool :=
  absDiff senderTs receiverNow ≤ toleranceMs

/-- No expiry is never over. -/
def isExpired (expires : Option UInt64) (now : UInt64) : Bool :=
  match expires with
  | some e => e < now
  | none => false

/-- A first contact pins the key that is seen; afterwards only that key is allowed. -/
def repinAllowed (pinned : Option Bytes) (observed : Bytes) : Bool :=
  match pinned with
  | none => true
  | some k => k == observed

theorem toNat_absDiff (a b : UInt64) :
    ((absDiff a b).toNat : ℤ) = |(a.toNat : ℤ) - (b.toNat : ℤ)| := by
  unfold absDiff
  split_ifs with hlt
  · have hlt' : a.toNat < b.toNat := UInt64.lt_iff_toNat_lt.mp hlt
    rw [UInt64.toNat_sub_of_le _ _ (UInt64.le_iff_toNat_le.mpr hlt'.le), abs_of_nonpos (by omega)]
    omega
  · have hle : b.toNat ≤ a.toNat := by
      rw [UInt64.lt_iff_toNat_lt] at hlt
      omega
    rw [UInt64.toNat_sub_of_le _ _ (UInt64.le_iff_toNat_le.mpr hle), abs_of_nonneg (by omega)]
    omega

/-- The difference of the clocks is taken without wrapping around. -/
theorem withinSkew_iff (senderTs receiverNow toleranceMs : UInt64) :
    withinSkew senderTs receiverNow toleranceMs = true ↔
      |(senderTs.toNat : ℤ) - receiverNow.toNat| ≤ toleranceMs.toNat := by
  have hdiff := toNat_absDiff senderTs receiverNow
  rw [withinSkew, decide_eq_true_iff, UInt64.le_iff_toNat_le, ← hdiff]
  omega

end Predicates

/-- What the recipient keeps: the messages it has, and the tolerated skew. -/
structure CallerPolicy where
  seen : Finset Bytes
  toleranceMs : UInt64

namespace CallerPolicy

def new : CallerPolicy := ⟨∅, skewToleranceMs⟩

def withToleranceMs (p : CallerPolicy) (toleranceMs : UInt64) : CallerPolicy :=
  { p with toleranceMs := toleranceMs }

def checkDuplicate (p : CallerPolicy) (id : ContentId) : Except PolicyError Unit :=
  if isDuplicate p.seen id then .error .duplicateId else .ok ()

def checkAndRecord (p : CallerPolicy) (id : ContentId) : Except PolicyError Unit × CallerPolicy :=
  if id.bytes ∈ p.seen then (.error .duplicateId, p)
  else (.ok (), { p with seen := insert id.bytes p.seen })

def checkSkew (p : CallerPolicy) (senderTs now : UInt64) : Except PolicyError Unit :=
  if withinSkew senderTs now p.toleranceMs then .ok () else .error .timestampOutOfSkew

def checkExpiry (expires : Option UInt64) (now : UInt64) : Except PolicyError Unit :=
  if isExpired expires now then .error .expiredMote else .ok ()

def checkRepin (pinned : Option Bytes) (observed : Bytes) : Except PolicyError Unit :=
  if repinAllowed pinned observed then .ok () else .error .fromPinMismatch

/-- The messages that the policy records, as a gate over the bytes of their ids. -/
def messages : Gate CallerPolicy ContentId PolicyError Unit Bytes where
  seen := CallerPolicy.seen
  key := fun id => some id.bytes
  call := checkAndRecord

theorem messages_admitsOnce : messages.AdmitsOnce where
  isOk_iff := by
    intro p id
    change (p.checkAndRecord id).1.isOk = true ↔ ∃ k, some id.bytes = some k ∧ k ∉ p.seen
    unfold checkAndRecord
    by_cases hid : id.bytes ∈ p.seen
    · simp [hid, Except.isOk, Except.toBool]
    · simp [hid, Except.isOk, Except.toBool]
  mem_seen := by
    intro p id k
    change k ∈ (p.checkAndRecord id).2.seen ↔ k ∈ p.seen ∨ some id.bytes = some k
    unfold checkAndRecord
    by_cases hid : id.bytes ∈ p.seen
    · simp only [hid, if_true, Option.some.injEq]
      constructor
      · exact Or.inl
      · rintro (hk | rfl)
        · exact hk
        · exact hid
    · simp only [hid, if_false, Finset.mem_insert, Option.some.injEq]
      rw [or_comm, eq_comm]

/-- A recipient takes every message once: after any run an id is refused if and only if it has been
presented before, and asking alone gives the same answer as asking and recording. -/
theorem messages_once (pre : List ContentId) (id : ContentId) :
    (checkAndRecord (messages.run .new pre) id).1 =
      (if id ∈ pre then .error .duplicateId else .ok ()) ∧
    checkDuplicate (messages.run .new pre) id = (checkAndRecord (messages.run .new pre) id).1 ∧
    (messages.admitted .new pre).Nodup ∧
    ∀ k, k ∈ messages.admitted .new pre ↔ ⟨k⟩ ∈ pre := by
  have hpresented (k : Bytes) : k ∈ messages.presented pre ↔ ⟨k⟩ ∈ pre := by
    rw [Gate.presented, List.mem_filterMap]
    constructor
    · rintro ⟨id', hid', hkey⟩
      obtain rfl : id'.bytes = k := Option.some.inj hkey
      exact hid'
    · exact fun hk => ⟨⟨k⟩, hk, rfl⟩
  have hseen : id.bytes ∈ (messages.run .new pre).seen ↔ id ∈ pre := by
    have hrun := messages_admitsOnce.mem_seen_run .new pre id.bytes
    rw [hpresented] at hrun
    refine hrun.trans ?_
    simp [messages, new]
  refine ⟨?_, ?_, messages_admitsOnce.nodup_admitted _ _, fun k => ?_⟩
  · unfold checkAndRecord
    by_cases hid : id ∈ pre
    · rw [if_pos (hseen.mpr hid), if_pos hid]
    · rw [if_neg fun h => hid (hseen.mp h), if_neg hid]
  · unfold checkDuplicate checkAndRecord isDuplicate
    by_cases hid : id.bytes ∈ (messages.run .new pre).seen
    · simp [hid]
    · simp [hid]
  · have hadmitted := messages_admitsOnce.mem_admitted .new pre k
    rw [hpresented] at hadmitted
    refine hadmitted.trans ?_
    simp [messages, new]

end CallerPolicy
end Dmtap.Policy
