import Dmtap.Identity.Keys
import Dmtap.Identity.Recovery
import Dmtap.Lib.Tally
import Mathlib.Data.List.Chain

/-! Changes of a recovery policy. A change that weakens recovery needs a quorum of guardians, no
quorum of vetoes and a waiting time; whether it weakens is judged against the earlier versions. -/
namespace Dmtap
open Dmtap.Lib Dmtap.Cbor

/-- 72 hours. -/
def recoveryVetoWindowMs : UInt64 := 72 * 60 * 60 * 1000

def recoveryApprovalDs : Bytes := utf8 "DMTAP-v0/recovery-approval" ++ [0]

def recoveryVetoDs : Bytes := utf8 "DMTAP-v0/recovery-veto" ++ [0]

inductive RecoveryGuardError
  | weakeningUnquorumed
  | vetoWindowActive
  | vetoed
  | incompleteHistory
  | staleRollback
  deriving DecidableEq, Repr

/-- A guardian's signature over the content address of a proposed policy. -/
structure GuardianApproval where
  guardian : Bytes
  sig : Bytes
  deriving DecidableEq, Repr

deriving instance DecidableEq for RecoveryMethod

section Quorum
variable (E : Ed25519) (guardians : List Bytes) (ds preimage : Bytes)

/-- The loop of `countQuorum`: the guardians counted so far. -/
def countQuorumFrom (counted : List Bytes) : List GuardianApproval → List Bytes
  | [] => counted
  | s :: sigs =>
    if s.guardian ∉ guardians then countQuorumFrom counted sigs
    else if s.guardian ∈ counted then countQuorumFrom counted sigs
    else if E.verifyDomain s.guardian ds preimage s.sig = .ok () then
      countQuorumFrom (counted ++ [s.guardian]) sigs
    else countQuorumFrom counted sigs

def countQuorum (sigs : List GuardianApproval) : ℕ :=
  (countQuorumFrom E guardians ds preimage [] sigs).length

end Quorum

def predicateCount : MethodPredicate → UInt32
  | .phrase => 1
  | .ik => 1
  | .devices n => n.toUInt32
  | .guardians n => n.toUInt32

/-- The easiest predicate defines the bar; an empty threshold has the bar 0. -/
def thresholdMin (t : Threshold) : UInt32 := ((t.anyOf.map predicateCount).min?).getD 0

/-- The candidate is of the same kind and not narrowed. -/
def methodAtLeastAsStrong : RecoveryMethod → RecoveryMethod → Bool
  | .phrase a, .phrase b => a = b
  | .device ka la, .device kb lb => la = lb ∧ ka = kb
  | .social pg pt, .social cg ct => pt ≤ ct ∧ pg.all (· ∈ cg)
  | _, _ => false

def recoveryChangeIsWeakening (prev next : RecoveryPolicy) : Bool :=
  (prev.methods.any fun pm => !next.methods.any fun nm => methodAtLeastAsStrong pm nm) ||
    thresholdMin next.recoverThreshold < thresholdMin prev.recoverThreshold ||
    thresholdMin next.rotateThreshold < thresholdMin prev.rotateThreshold

/-- Bringing back a method that an earlier version had and the last one has not is weakening. -/
def recoveryChangeIsWeakeningVsHistory (history : List RecoveryPolicy) (next : RecoveryPolicy) :
    Bool :=
  match history.getLast? with
  | none => false
  | some prev =>
    if recoveryChangeIsWeakening prev next then true
    else
      let evicted := (history.flatMap RecoveryPolicy.methods).filter
        fun m => !prev.methods.any fun pm => pm = m
      next.methods.any fun nm => evicted.any fun em => em = nm

section Authorize
variable (E : Ed25519) (blake3 : Bytes → Digest)

/-- The pairs of neighbours that `verifyPolicyChain` looks at. -/
def verifyPolicyLinks (a : RecoveryPolicy) : List RecoveryPolicy → Except RecoveryGuardError Unit
  | [] => .ok ()
  | b :: history =>
    if b.prev ≠ some (a.contentId blake3) ∨ b.version ≤ a.version then .error .incompleteHistory
    else verifyPolicyLinks b history

def verifyPolicyChain : List RecoveryPolicy → Except RecoveryGuardError Unit
  | [] => .error .incompleteHistory
  | first :: history =>
    if first.prev.isSome then .error .incompleteHistory else verifyPolicyLinks blake3 first history

def saturatingAdd (a b : UInt64) : UInt64 := .ofNat (min (a.toNat + b.toNat) (2 ^ 64 - 1))

def authorizeRecoveryChange (history : List RecoveryPolicy) (next : RecoveryPolicy)
    (guardians : List Bytes) (approvals vetoes : List GuardianApproval)
    (announcedAt now : UInt64) : Except RecoveryGuardError Unit := do
  verifyPolicyChain blake3 history
  match history.getLast? with
  | none => .error .incompleteHistory
  | some prev =>
    if recoveryChangeIsWeakeningVsHistory history next = false then .ok ()
    else
      let preimage := (next.contentId blake3).bytes
      let approveQ :=
        UInt32.ofNat (countQuorum E guardians recoveryApprovalDs preimage approvals)
      let majorityMin := UInt32.ofNat guardians.length / 2 + 1
      let policyMin := thresholdMin prev.rotateThreshold
      let required := max majorityMin policyMin
      if approveQ < required then .error .weakeningUnquorumed
      else
        let vetoQ := countQuorum E guardians recoveryVetoDs preimage vetoes
        if guardians.length < vetoQ * 2 then .error .vetoed
        else if now < saturatingAdd announcedAt recoveryVetoWindowMs then .error .vetoWindowActive
        else .ok ()

end Authorize

/-- A concrete secret that can take part in recovery, whatever method carries it. -/
inductive Factor
  | phrase (key : Bytes)
  | device (key : Bytes)
  | guardian (key : Bytes)
  deriving DecidableEq, Repr

def RecoveryMethod.factors : RecoveryMethod → List Factor
  | .phrase recoveryKey => [.phrase recoveryKey]
  | .device deviceKey _ => [.device deviceKey]
  | .social guardians _ => guardians.map .guardian

/-- The factors that a policy version names. -/
def RecoveryPolicy.factors (p : RecoveryPolicy) : List Factor :=
  p.methods.flatMap RecoveryMethod.factors

section Weakening
variable {prev next : RecoveryPolicy}

theorem thresholdMin_le {t : Threshold} {q : MethodPredicate} (hq : q ∈ t.anyOf) :
    thresholdMin t ≤ predicateCount q := by
  unfold thresholdMin
  have hmem : predicateCount q ∈ t.anyOf.map predicateCount := List.mem_map_of_mem hq
  cases h : (t.anyOf.map predicateCount).min? with
  | none =>
    rw [List.min?_eq_none_iff.mp h] at hmem
    cases hmem
  | some m => exact (List.le_min?_iff h).mp (UInt32.le_refl m) _ hmem

theorem factors_of_atLeastAsStrong {pm nm : RecoveryMethod}
    (h : methodAtLeastAsStrong pm nm = true) : ∀ f ∈ pm.factors, f ∈ nm.factors := by
  unfold methodAtLeastAsStrong at h
  split at h
  · have heq := of_decide_eq_true h
    rw [heq]
    exact fun f hf => hf
  · have heq := of_decide_eq_true h
    rw [heq.2]
    exact fun f hf => hf
  · rename_i pg pt cg ct
    have hall : ∀ g ∈ pg, g ∈ cg := by simpa using (of_decide_eq_true h).2
    intro f hf
    obtain ⟨g, hg, rfl⟩ := List.mem_map.mp hf
    exact List.mem_map_of_mem (hall g hg)
  · cases h

theorem recoveryChangeIsWeakening_eq_false :
    recoveryChangeIsWeakening prev next = false ↔
      (∀ pm ∈ prev.methods, ∃ nm ∈ next.methods, methodAtLeastAsStrong pm nm = true) ∧
        thresholdMin prev.recoverThreshold ≤ thresholdMin next.recoverThreshold ∧
        thresholdMin prev.rotateThreshold ≤ thresholdMin next.rotateThreshold := by
  unfold recoveryChangeIsWeakening
  rw [Bool.or_eq_false_iff, Bool.or_eq_false_iff, and_assoc]
  refine and_congr ?_ (and_congr ?_ ?_)
  · simp
  · simp [UInt32.not_lt]
  · simp [UInt32.not_lt]

/-- What a change keeps that is not classified as weakening. The bars are compared over all
kinds at once. -/
theorem not_weakening_keeps (prev next : RecoveryPolicy)
    (h : recoveryChangeIsWeakening prev next = false) :
    (∀ f ∈ prev.factors, f ∈ next.factors) ∧
      (∀ pg pt, .social pg pt ∈ prev.methods →
        ∃ cg ct, .social cg ct ∈ next.methods ∧ pt ≤ ct ∧ ∀ g ∈ pg, g ∈ cg) ∧
      ∀ bar ∈ [RecoveryPolicy.recoverThreshold, RecoveryPolicy.rotateThreshold],
        thresholdMin (bar prev) ≤ thresholdMin (bar next) ∧
          ∀ q ∈ (bar next).anyOf, thresholdMin (bar prev) ≤ predicateCount q := by
  obtain ⟨hmethods, hrecover, hrotate⟩ := recoveryChangeIsWeakening_eq_false.mp h
  have hclauses : ∀ {t t' : Threshold}, thresholdMin t ≤ thresholdMin t' →
      ∀ q ∈ t'.anyOf, thresholdMin t ≤ predicateCount q :=
    fun hle q hq => UInt32.le_trans hle (thresholdMin_le hq)
  refine ⟨?_, ?_, ?_⟩
  · intro f hf
    obtain ⟨pm, hpm, hfm⟩ := List.mem_flatMap.mp hf
    obtain ⟨nm, hnm, hstrong⟩ := hmethods pm hpm
    exact List.mem_flatMap.mpr ⟨nm, hnm, factors_of_atLeastAsStrong hstrong f hfm⟩
  · intro pg pt hpm
    obtain ⟨nm, hnm, hstrong⟩ := hmethods _ hpm
    cases nm with
    | social cg ct =>
      have hkept : pt ≤ ct ∧ ∀ g ∈ pg, g ∈ cg := by simpa [methodAtLeastAsStrong] using hstrong
      exact ⟨cg, ct, hnm, hkept⟩
    | _ => cases hstrong
  · intro bar hbar
    rcases List.mem_pair.mp hbar with rfl | rfl
    · exact ⟨hrecover, hclauses hrecover⟩
    · exact ⟨hrotate, hclauses hrotate⟩

/-- Every kind of the earlier clauses is kept with a least count that is not lower. -/
def KindsKept (t t' : Threshold) : Prop :=
  ∀ p ∈ t.anyOf, (∃ q ∈ t'.anyOf, q.method = p.method) ∧
    ∀ q ∈ t'.anyOf, q.method = p.method → ∃ p' ∈ t.anyOf, p'.method = p.method ∧ p'.count ≤ q.count

/-- What a change has to keep for recovery not to be weaker after it. -/
structure KeepsRecovery (prev next : RecoveryPolicy) : Prop where
  factors : ∀ f ∈ prev.factors, f ∈ next.factors
  social : ∀ pg pt, .social pg pt ∈ prev.methods →
    ∃ cg ct, .social cg ct ∈ next.methods ∧ pt ≤ ct ∧ ∀ g ∈ pg, g ∈ cg
  recover : KindsKept prev.recoverThreshold next.recoverThreshold
  rotate : KindsKept prev.rotateThreshold next.rotateThreshold

/-- No kind of the earlier clauses is left out. -/
def KindsPresent (t t' : Threshold) : Prop :=
  ∀ p ∈ t.anyOf, ∃ q ∈ t'.anyOf, q.method = p.method

/-- The clause asks for less than the earlier clauses of its kind, and an earlier clause of
another kind asked for no more. -/
structure HiddenBehind (t : Threshold) (q : MethodPredicate) : Prop where
  known : ∃ p ∈ t.anyOf, p.method = q.method
  lower : ∀ p ∈ t.anyOf, p.method = q.method → q.count < p.count
  cover : ∃ r ∈ t.anyOf, r.method ≠ q.method ∧ r.count ≤ q.count

instance (t : Threshold) (q : MethodPredicate) : Decidable (HiddenBehind t q) :=
  decidable_of_iff
    ((∃ p ∈ t.anyOf, p.method = q.method) ∧
      (∀ p ∈ t.anyOf, p.method = q.method → q.count < p.count) ∧
      ∃ r ∈ t.anyOf, r.method ≠ q.method ∧ r.count ≤ q.count)
    ⟨fun h => ⟨h.1, h.2.1, h.2.2⟩, fun h => ⟨h.known, h.lower, h.cover⟩⟩

theorem predicateCount_eq (p : MethodPredicate) : predicateCount p = p.count.toUInt32 := by
  cases p <;> rfl

theorem exists_predicateCount_eq_thresholdMin {t : Threshold} {p : MethodPredicate}
    (hp : p ∈ t.anyOf) : ∃ r ∈ t.anyOf, predicateCount r = thresholdMin t := by
  unfold thresholdMin
  cases h : (t.anyOf.map predicateCount).min? with
  | none =>
    rw [List.map_eq_nil_iff.mp (List.min?_eq_none_iff.mp h)] at hp
    cases hp
  | some m =>
    obtain ⟨r, hr, hrm⟩ := List.mem_map.mp (List.min?_mem h)
    exact ⟨r, hr, hrm⟩

/-- A bar that is not lowered leaves two ways for a kind to get cheaper: its clauses go, or one
of them hides behind a clause of another kind. -/
theorem kindsKept_iff {t t' : Threshold} (h : ∀ q ∈ t'.anyOf, thresholdMin t ≤ predicateCount q) :
    KindsKept t t' ↔ KindsPresent t t' ∧ ∀ q ∈ t'.anyOf, ¬ HiddenBehind t q := by
  constructor
  · refine fun hkept => ⟨fun p hp => (hkept p hp).1, fun q hq hhidden => ?_⟩
    obtain ⟨p, hp, hkind⟩ := hhidden.known
    obtain ⟨p', hp', hkind', hle⟩ := (hkept p hp).2 q hq hkind.symm
    exact UInt8.not_lt.mpr hle (hhidden.lower p' hp' (hkind'.trans hkind))
  · rintro ⟨hpresent, hhidden⟩ p hp
    refine ⟨hpresent p hp, fun q hq hkind => ?_⟩
    by_contra hnone
    have hlower : ∀ p' ∈ t.anyOf, p'.method = q.method → q.count < p'.count :=
      fun p' hp' hkind' => UInt8.not_le.mp fun hle => hnone ⟨p', hp', hkind'.trans hkind, hle⟩
    -- The clause that sets the bar asks for no more than `q`, so it is not of the kind of `q`.
    obtain ⟨r, hr, hbar⟩ := exists_predicateCount_eq_thresholdMin hp
    have hle : r.count ≤ q.count := by
      have hcount := h q hq
      rw [← hbar, predicateCount_eq, predicateCount_eq] at hcount
      simpa [UInt32.le_iff_toNat_le, UInt8.le_iff_toNat_le] using hcount
    have hother : r.method ≠ q.method :=
      fun hsame => UInt8.not_lt.mpr hle (hlower r hr hsame)
    exact hhidden q hq ⟨⟨p, hp, hkind.symm⟩, hlower, r, hr, hother, hle⟩

/-- A change that is not classified as weakening keeps recovery exactly when in both thresholds
no kind is left out and no clause hides behind one of another kind. -/
theorem no_silent_weakening_iff (prev next : RecoveryPolicy)
    (h : recoveryChangeIsWeakening prev next = false) :
    KeepsRecovery prev next ↔
      ∀ bar ∈ [RecoveryPolicy.recoverThreshold, RecoveryPolicy.rotateThreshold],
        KindsPresent (bar prev) (bar next) ∧
          ∀ q ∈ (bar next).anyOf, ¬ HiddenBehind (bar prev) q := by
  obtain ⟨hfactors, hsocial, hbars⟩ := not_weakening_keeps prev next h
  have hkinds : ∀ bar ∈ [RecoveryPolicy.recoverThreshold, RecoveryPolicy.rotateThreshold],
      KindsKept (bar prev) (bar next) ↔ KindsPresent (bar prev) (bar next) ∧
        ∀ q ∈ (bar next).anyOf, ¬ HiddenBehind (bar prev) q :=
    fun bar hbar => kindsKept_iff (hbars bar hbar).2
  constructor
  · intro hkeeps bar hbar
    refine (hkinds bar hbar).mp ?_
    rcases List.mem_pair.mp hbar with rfl | rfl
    · exact hkeeps.recover
    · exact hkeeps.rotate
  · intro hall
    have hkept := fun bar hbar => (hkinds bar hbar).mpr (hall bar hbar)
    exact ⟨hfactors, hsocial, hkept _ List.mem_cons_self,
      hkept _ (List.mem_cons_of_mem _ List.mem_cons_self)⟩

/-- A policy with one phrase to recover with, rotated by `n` guardians or the identity key. -/
def guardedPolicy (n : UInt8) (version : UInt64) : RecoveryPolicy where
  suite := .classical
  ik := [7]
  version := version
  methods := [.phrase [1]]
  recoverThreshold := ⟨[.phrase]⟩
  rotateThreshold := ⟨[.guardians n, .ik]⟩
  prev := none
  ts := 0
  sig := []

/-- More guardians are no weakening, fewer would hide behind the identity key. -/
theorem no_silent_weakening_iff_guarded :
    KeepsRecovery (guardedPolicy 2 1) (guardedPolicy 3 2) ∧
      ¬ KeepsRecovery (guardedPolicy 3 1) (guardedPolicy 1 2) := by
  constructor
  · refine (no_silent_weakening_iff (guardedPolicy 2 1) (guardedPolicy 3 2) (by decide)).mpr ?_
    intro bar hbar
    rcases List.mem_pair.mp hbar with rfl | rfl
    · exact ⟨by unfold KindsPresent; decide, by decide⟩
    · exact ⟨by unfold KindsPresent; decide, by decide⟩
  · intro hkeeps
    have hall := (no_silent_weakening_iff (guardedPolicy 3 1) (guardedPolicy 1 2) (by decide)).mp
      hkeeps _ (List.mem_cons_of_mem _ List.mem_cons_self)
    exact hall.2 (.guardians 1) (by decide) (by decide)

/-- The count of guardians falls from 3 to 1 behind the cheaper clause for the identity key. -/
theorem weakening_missed_behind_ik :
    recoveryChangeIsWeakening (guardedPolicy 3 1) (guardedPolicy 1 2) = false ∧
      ¬ KindsKept (guardedPolicy 3 1).rotateThreshold (guardedPolicy 1 2).rotateThreshold := by
  unfold KindsKept
  decide

end Weakening

section Eviction

/-- The factor `f` was named once, not by the last version any more, and is named again. -/
structure Readmits (history : List RecoveryPolicy) (last next : RecoveryPolicy) (f : Factor) :
    Prop where
  last_eq : history.getLast? = some last
  earlier : ∃ p ∈ history, f ∈ p.factors
  gone : f ∉ last.factors
  back : f ∈ next.factors

variable {history : List RecoveryPolicy} {last next : RecoveryPolicy}

theorem weakeningVsHistory_eq_true (hlast : history.getLast? = some last) :
    recoveryChangeIsWeakeningVsHistory history next = true ↔
      recoveryChangeIsWeakening last next = true ∨
        ∃ m ∈ next.methods, m ∉ last.methods ∧ ∃ p ∈ history, m ∈ p.methods := by
  have hgone : ∀ m, (!last.methods.any fun pm => decide (pm = m)) = true ↔ m ∉ last.methods := by
    intro m
    rw [Bool.not_eq_true', ← Bool.not_eq_true, List.any_eq_true]
    simp
  unfold recoveryChangeIsWeakeningVsHistory
  rw [hlast]
  dsimp only
  split_ifs with hweak
  · simp [hweak]
  · simp only [hweak, Bool.false_eq_true, false_or, List.any_eq_true, List.mem_filter,
      List.mem_flatMap]
    constructor
    · rintro ⟨nm, hnm, em, ⟨hem, hnot⟩, heq⟩
      obtain rfl : em = nm := of_decide_eq_true heq
      exact ⟨em, hnm, (hgone em).mp hnot, hem⟩
    · rintro ⟨m, hm, hnot, hem⟩
      exact ⟨m, hm, m, ⟨hem, (hgone m).mpr hnot⟩, by simp⟩

/-- A phrase is its key, so it cannot come back in another wrapping. -/
theorem phrase_readmission_weakens {k : Bytes} (h : Readmits history last next (.phrase k)) :
    recoveryChangeIsWeakeningVsHistory history next = true := by
  have hmem : ∀ p : RecoveryPolicy, Factor.phrase k ∈ p.factors ↔ .phrase k ∈ p.methods := by
    intro p
    unfold RecoveryPolicy.factors
    rw [List.mem_flatMap]
    constructor
    · rintro ⟨m, hm, hk⟩
      cases m with
      | phrase key =>
        obtain rfl : k = key := by simpa [RecoveryMethod.factors] using hk
        exact hm
      | device key label => simp [RecoveryMethod.factors] at hk
      | social guardians threshold => simp [RecoveryMethod.factors] at hk
    · intro hm
      exact ⟨_, hm, List.mem_singleton_self _⟩
  rw [weakeningVsHistory_eq_true h.last_eq]
  obtain ⟨p, hp, hearlier⟩ := h.earlier
  exact Or.inr ⟨.phrase k, (hmem next).mp h.back, fun hm => h.gone ((hmem last).mpr hm),
    p, hp, (hmem p).mp hearlier⟩

/-- A factor that comes back is noticed when a whole method comes back unchanged, label,
guardians and threshold included, or when the change weakens the last version itself. -/
theorem readmission_weakens_iff (history : List RecoveryPolicy) (last next : RecoveryPolicy)
    (f : Factor) (h : Readmits history last next f) :
    recoveryChangeIsWeakeningVsHistory history next = true ↔
      recoveryChangeIsWeakening last next = true ∨
        ∃ m ∈ next.methods, m ∉ last.methods ∧ ∃ p ∈ history, m ∈ p.methods :=
  weakeningVsHistory_eq_true h.last_eq

/-- A policy with these methods. -/
def policyOf (methods : List RecoveryMethod) (version : UInt64) : RecoveryPolicy :=
  { guardedPolicy 2 version with methods := methods }

def phonePolicies : List RecoveryPolicy :=
  [policyOf [.phrase [1], .device [9] "phone"] 1, policyOf [.phrase [1]] 2]

theorem readmission_weakens_iff_same_label :
    recoveryChangeIsWeakeningVsHistory phonePolicies
      (policyOf [.phrase [1], .device [9] "phone"] 3) = true := by
  have hreadmits : Readmits phonePolicies (policyOf [.phrase [1]] 2)
      (policyOf [.phrase [1], .device [9] "phone"] 3) (.device [9]) :=
    ⟨rfl, ⟨_, List.mem_cons_self, by decide⟩, by decide, by decide⟩
  refine (readmission_weakens_iff _ _ _ _ hreadmits).mpr (Or.inr ⟨.device [9] "phone", by decide, ?_⟩)
  exact ⟨by decide, _, List.mem_cons_self, by decide⟩

/-- The evicted device comes back under another label. -/
theorem readmission_missed_other_label :
    Readmits phonePolicies (policyOf [.phrase [1]] 2)
        (policyOf [.phrase [1], .device [9] "tablet"] 3) (.device [9]) ∧
      recoveryChangeIsWeakeningVsHistory phonePolicies
        (policyOf [.phrase [1], .device [9] "tablet"] 3) = false := by
  constructor
  · exact ⟨rfl, ⟨_, List.mem_cons_self, by decide⟩, by decide, by decide⟩
  · decide

end Eviction

section Chain
variable (blake3 : Bytes → Digest)

/-- The version `b` names `a` as its predecessor and has a higher number. -/
structure Supersedes (a b : RecoveryPolicy) : Prop where
  prev : b.prev = some (a.contentId blake3)
  version : a.version < b.version

/-- A complete chain of policy versions, from the one that names no predecessor. -/
structure PolicyChain (history : List RecoveryPolicy) : Prop where
  genesis : ∃ first, history.head? = some first ∧ first.prev = none
  linked : history.IsChain (Supersedes blake3)

variable {blake3} {history : List RecoveryPolicy}

theorem verifyPolicyLinks_eq_ok {a : RecoveryPolicy} :
    verifyPolicyLinks blake3 a history = .ok () ↔ (a :: history).IsChain (Supersedes blake3) := by
  induction history generalizing a with
  | nil => simp [verifyPolicyLinks]
  | cons b history ih =>
    rw [List.isChain_cons_cons, ← ih, verifyPolicyLinks]
    split_ifs with h
    · have hnot : ¬ Supersedes blake3 a b := by
        intro hab
        rcases h with h | h
        · exact h hab.prev
        · exact UInt64.not_lt.mpr h hab.version
      simp [hnot]
    · rw [not_or, not_not, UInt64.not_le] at h
      have hab : Supersedes blake3 a b := ⟨h.1, h.2⟩
      simp [hab]

theorem verifyPolicyChain_eq_ok :
    verifyPolicyChain blake3 history = .ok () ↔ PolicyChain blake3 history := by
  cases history with
  | nil =>
    refine iff_of_false (by simp [verifyPolicyChain]) ?_
    rintro ⟨⟨first, hfirst, -⟩, -⟩
    cases hfirst
  | cons first history =>
    rw [verifyPolicyChain]
    cases hprev : first.prev with
    | none =>
      rw [if_neg (by simp), verifyPolicyLinks_eq_ok]
      constructor
      · intro h
        exact ⟨⟨first, rfl, hprev⟩, h⟩
      · intro h
        exact h.linked
    | some id =>
      refine iff_of_false (by simp) ?_
      rintro ⟨⟨f, hf, hnone⟩, -⟩
      obtain rfl : first = f := Option.some.inj hf
      rw [hprev] at hnone
      cases hnone

/-- One more version completes a chain exactly when it supersedes the last one. -/
theorem PolicyChain.snoc_iff {last next : RecoveryPolicy} (h : PolicyChain blake3 history)
    (hlast : history.getLast? = some last) :
    PolicyChain blake3 (history ++ [next]) ↔ Supersedes blake3 last next := by
  obtain ⟨⟨first, hfirst, hprev⟩, hlinked⟩ := h
  have hhead : (history ++ [next]).head? = some first := by
    rw [List.head?_append, hfirst]
    rfl
  have hchain : (history ++ [next]).IsChain (Supersedes blake3) ↔ Supersedes blake3 last next := by
    rw [List.isChain_append]
    simp [hlinked, hlast]
  constructor
  · intro hall
    exact hchain.mp hall.linked
  · intro hab
    exact ⟨⟨first, hhead, hprev⟩, hchain.mpr hab⟩

end Chain

section Tally
variable {E : Ed25519} {guardians : List Bytes} {ds preimage : Bytes}

/-- The signature is by a guardian and verifies. -/
def GuardianApproval.Counts (E : Ed25519) (guardians : List Bytes) (ds preimage : Bytes)
    (s : GuardianApproval) : Prop :=
  s.guardian ∈ guardians ∧ E.verifyDomain s.guardian ds preimage s.sig = .ok ()

instance : DecidablePred (GuardianApproval.Counts E guardians ds preimage) := fun s =>
  inferInstanceAs (Decidable (s.guardian ∈ guardians ∧ _ = _))

/-- The guardians with at least one signature that verifies. -/
def signers (E : Ed25519) (guardians : List Bytes) (ds preimage : Bytes)
    (sigs : List GuardianApproval) : Finset Bytes :=
  guardians.toFinset.filter fun g => ∃ s ∈ sigs, s.guardian = g ∧ s.Counts E guardians ds preimage

theorem mem_signers {sigs : List GuardianApproval} {g : Bytes} :
    g ∈ signers E guardians ds preimage sigs ↔
      ∃ s ∈ sigs, s.guardian = g ∧ s.Counts E guardians ds preimage := by
  unfold signers
  rw [Finset.mem_filter, List.mem_toFinset, and_iff_right_iff_imp]
  rintro ⟨s, -, rfl, hs⟩
  exact hs.1

theorem card_signers_le (sigs : List GuardianApproval) :
    (signers E guardians ds preimage sigs).card ≤ guardians.length :=
  (Finset.card_filter_le _ _).trans guardians.toFinset_card_le

private theorem countQuorumFrom_eq_tally (counted : List Bytes) (sigs : List GuardianApproval) :
    countQuorumFrom E guardians ds preimage counted sigs =
      tally GuardianApproval.guardian (fun s => s.Counts E guardians ds preimage) counted sigs := by
  induction sigs generalizing counted with
  | nil => rfl
  | cons s sigs ih =>
    unfold countQuorumFrom tally GuardianApproval.Counts
    by_cases hg : s.guardian ∈ guardians
    · simp [hg, ih, GuardianApproval.Counts]
    · simp [hg, ih, GuardianApproval.Counts]

theorem countQuorum_eq_card (sigs : List GuardianApproval) :
    countQuorum E guardians ds preimage sigs = (signers E guardians ds preimage sigs).card := by
  unfold countQuorum
  rw [countQuorumFrom_eq_tally]
  apply length_tally
  intro g
  simp [mem_signers]

/-- The lists differ by order, by repetitions and by entries that do not count. -/
def SameVotes (E : Ed25519) (guardians : List Bytes) (ds preimage : Bytes)
    (sigs sigs' : List GuardianApproval) : Prop :=
  ∀ s : GuardianApproval, s.Counts E guardians ds preimage → (s ∈ sigs ↔ s ∈ sigs')

theorem signers_congr {sigs sigs' : List GuardianApproval}
    (h : SameVotes E guardians ds preimage sigs sigs') :
    signers E guardians ds preimage sigs = signers E guardians ds preimage sigs' := by
  ext g
  rw [mem_signers, mem_signers]
  constructor
  · rintro ⟨s, hs, hg, hc⟩
    exact ⟨s, (h s hc).mp hs, hg, hc⟩
  · rintro ⟨s, hs, hg, hc⟩
    exact ⟨s, (h s hc).mpr hs, hg, hc⟩

end Tally

section Authorized
variable {E : Ed25519} {blake3 : Bytes → Digest} {history : List RecoveryPolicy}
  {next : RecoveryPolicy} {guardians : List Bytes} {approvals vetoes : List GuardianApproval}
  {announcedAt now : UInt64}

/-- Those whose approval, or whose veto, of the change counts. -/
def approvers (E : Ed25519) (blake3 : Bytes → Digest) (next : RecoveryPolicy)
    (guardians : List Bytes) (approvals : List GuardianApproval) : Finset Bytes :=
  signers E guardians recoveryApprovalDs (next.contentId blake3).bytes approvals

def vetoers (E : Ed25519) (blake3 : Bytes → Digest) (next : RecoveryPolicy)
    (guardians : List Bytes) (vetoes : List GuardianApproval) : Finset Bytes :=
  signers E guardians recoveryVetoDs (next.contentId blake3).bytes vetoes

/-- What a weakening change needs besides a complete history that ends with `prev`. -/
structure Quorate (E : Ed25519) (blake3 : Bytes → Digest) (prev next : RecoveryPolicy)
    (guardians : List Bytes) (approvals vetoes : List GuardianApproval)
    (announcedAt now : UInt64) : Prop where
  approved : max (guardians.length / 2 + 1) (thresholdMin prev.rotateThreshold).toNat ≤
    (approvers E blake3 next guardians approvals).card
  unvetoed : (vetoers E blake3 next guardians vetoes).card ≤ guardians.length / 2
  elapsed : min (announcedAt.toNat + 72 * 60 * 60 * 1000) (2 ^ 64 - 1) ≤ now.toNat

theorem toNat_saturatingAdd (a b : UInt64) :
    (saturatingAdd a b).toNat = min (a.toNat + b.toNat) (2 ^ 64 - 1) := by
  unfold saturatingAdd
  apply UInt64.toNat_ofNat_of_lt
  have hle := min_le_right (a.toNat + b.toNat) (2 ^ 64 - 1)
  change _ < 2 ^ 64
  omega

private theorem uint32_max_le_iff {a b c : UInt32} : max a b ≤ c ↔ a ≤ c ∧ b ≤ c := by
  change (if a ≤ b then b else a) ≤ c ↔ _
  split_ifs with hab
  · exact ⟨fun h => ⟨UInt32.le_trans hab h, h⟩, fun h => h.2⟩
  · exact ⟨fun h => ⟨h, UInt32.le_trans (UInt32.le_of_lt (UInt32.not_le.mp hab)) h⟩, fun h => h.1⟩

/-- Nothing wraps in the 32-bit comparison below 2^32 guardians. -/
theorem approved_iff (hn : guardians.length < 2 ^ 32) (m : UInt32) {k : ℕ}
    (hk : k ≤ guardians.length) :
    ¬ UInt32.ofNat k < max (UInt32.ofNat guardians.length / 2 + 1) m ↔
      max (guardians.length / 2 + 1) m.toNat ≤ k := by
  have hkNat : (UInt32.ofNat k).toNat = k := UInt32.toNat_ofNat_of_lt (hk.trans_lt hn)
  have hnNat : (UInt32.ofNat guardians.length).toNat = guardians.length :=
    UInt32.toNat_ofNat_of_lt hn
  have hmajority : (UInt32.ofNat guardians.length / 2 + 1).toNat = guardians.length / 2 + 1 := by
    rw [UInt32.toNat_add, UInt32.toNat_div, hnNat]
    change (guardians.length / 2 + 1) % 2 ^ 32 = _
    omega
  rw [UInt32.not_lt, uint32_max_le_iff, UInt32.le_iff_toNat_le, UInt32.le_iff_toNat_le, hkNat,
    hmajority, max_le_iff]

/-- The three checks on a weakening change, as the source computes them. -/
theorem quorate_iff (hn : guardians.length < 2 ^ 32) {prev : RecoveryPolicy} :
    Quorate E blake3 prev next guardians approvals vetoes announcedAt now ↔
      ¬ UInt32.ofNat (countQuorum E guardians recoveryApprovalDs (next.contentId blake3).bytes
          approvals) <
        max (UInt32.ofNat guardians.length / 2 + 1) (thresholdMin prev.rotateThreshold) ∧
      ¬ guardians.length <
        countQuorum E guardians recoveryVetoDs (next.contentId blake3).bytes vetoes * 2 ∧
      ¬ now < saturatingAdd announcedAt recoveryVetoWindowMs := by
  have helapsed : ¬ now < saturatingAdd announcedAt recoveryVetoWindowMs ↔
      min (announcedAt.toNat + 72 * 60 * 60 * 1000) (2 ^ 64 - 1) ≤ now.toNat := by
    rw [UInt64.not_lt, UInt64.le_iff_toNat_le, toNat_saturatingAdd]
    rfl
  rw [countQuorum_eq_card, countQuorum_eq_card, approved_iff hn _ (card_signers_le approvals),
    helapsed, not_lt, ← Nat.le_div_iff_mul_le (by decide : 0 < 2)]
  constructor
  · intro h
    exact ⟨h.approved, h.unvetoed, h.elapsed⟩
  · rintro ⟨happroved, hunvetoed, helapsed⟩
    exact ⟨happroved, hunvetoed, helapsed⟩

theorem authorizeRecoveryChange_eq_ok (hn : guardians.length < 2 ^ 32) :
    authorizeRecoveryChange E blake3 history next guardians approvals vetoes announcedAt now =
        .ok () ↔
      PolicyChain blake3 history ∧ ∃ prev, history.getLast? = some prev ∧
        (recoveryChangeIsWeakeningVsHistory history next = true →
          Quorate E blake3 prev next guardians approvals vetoes announcedAt now) := by
  unfold authorizeRecoveryChange
  rw [except_check_bind_eq_ok, verifyPolicyChain_eq_ok]
  refine and_congr_right fun _ => ?_
  cases hlast : history.getLast? with
  | none => simp
  | some prev =>
    simp only [Option.some.injEq, exists_eq_left', quorate_iff hn]
    cases hweak : recoveryChangeIsWeakeningVsHistory history next with
    | false => simp
    | true =>
      rw [if_neg (by simp)]
      split_ifs with hunquorumed hvetoed hwindow
      · simp [hunquorumed]
      · simp [hvetoed]
      · simp [hwindow]
      · simp [hunquorumed, hvetoed, hwindow]

end Authorized

section Main
variable (E : Ed25519) (blake3 : Bytes → Digest) (history : List RecoveryPolicy)
  (next : RecoveryPolicy) (guardians : List Bytes) (approvals vetoes : List GuardianApproval)
  (announcedAt now : UInt64)

/-- The exact condition for a weakening change, and that the order of the signatures, repeated
ones and ones that do not count have no influence on it. -/
theorem weakening_authorized_iff (hn : guardians.length < 2 ^ 32)
    (hweak : recoveryChangeIsWeakeningVsHistory history next = true) :
    (authorizeRecoveryChange E blake3 history next guardians approvals vetoes announcedAt now =
        .ok () ↔
      PolicyChain blake3 history ∧ ∃ prev, history.getLast? = some prev ∧
        Quorate E blake3 prev next guardians approvals vetoes announcedAt now) ∧
      ∀ approvals' vetoes',
        SameVotes E guardians recoveryApprovalDs (next.contentId blake3).bytes
            approvals approvals' →
          SameVotes E guardians recoveryVetoDs (next.contentId blake3).bytes vetoes vetoes' →
            approvers E blake3 next guardians approvals' =
                approvers E blake3 next guardians approvals ∧
              vetoers E blake3 next guardians vetoes' = vetoers E blake3 next guardians vetoes ∧
              authorizeRecoveryChange E blake3 history next guardians approvals' vetoes'
                  announcedAt now =
                authorizeRecoveryChange E blake3 history next guardians approvals vetoes
                  announcedAt now := by
  constructor
  · rw [authorizeRecoveryChange_eq_ok hn]
    simp [hweak]
  · intro approvals' vetoes' happrovals hvetoes
    have happrovers := signers_congr happrovals
    have hvetoers := signers_congr hvetoes
    refine ⟨happrovers.symm, hvetoers.symm, ?_⟩
    unfold authorizeRecoveryChange
    simp only [countQuorum_eq_card, happrovers, hvetoers]

/-- The candidate itself is never compared with the version it should supersede. -/
theorem authorized_chain_complete_iff
    (h : authorizeRecoveryChange E blake3 history next guardians approvals vetoes announcedAt now =
      .ok ()) :
    PolicyChain blake3 (history ++ [next]) ↔
      ∃ last, history.getLast? = some last ∧ Supersedes blake3 last next := by
  obtain ⟨hverify, h⟩ := except_check_bind_eq_ok.mp h
  have hchain := verifyPolicyChain_eq_ok.mp hverify
  cases hlast : history.getLast? with
  | none =>
    rw [hlast] at h
    cases h
  | some last =>
    rw [hchain.snoc_iff hlast]
    simp

end Main

section OneGuardian

/-- The Ed25519 public key of the seed `03…03`. -/
def guardianKey : Bytes :=
  toBe 32 0xed4928c628d1c2c6eae90338905995612959273a5c63f93636c14614ac8737d1

def phoneGenesis : RecoveryPolicy := policyOf [.phrase [1], .device [9] "phone"] 1

/-- The BLAKE3 digest of the first version. -/
def phoneDigest : Digest :=
  ⟨toBe 32 0x044388e61d6b16af15eb21be06fee43fe0af3e893005017d514ce7ba20ac89d1, length_toBe _ _⟩

/-- The second version evicts the phone. -/
def phoneEvicted : RecoveryPolicy :=
  { policyOf [.phrase [1]] 2 with prev := some ⟨mhBlake3 :: phoneDigest.val⟩ }

def evictedDigest : Digest :=
  ⟨toBe 32 0x0764aa7f2391ec055c383b744e1b86049f0dfcfced98fdddd95b18881e8d9ccd, length_toBe _ _⟩

/-- BLAKE3 as far as these two versions need it. -/
def policyDigests (b : Bytes) : Digest :=
  if b = phoneGenesis.detCbor then phoneDigest else evictedDigest

def evictionApproval : GuardianApproval where
  guardian := guardianKey
  sig := toBe 32 0xf17290242df2452e0877af42772e0c2521ee4987ebad6bd857c65b76dbccd7e0 ++
    toBe 32 0x211be17b0239c8a358967a3a49747edfd27816993999de681383c1c8307c7404

/-- Ed25519 as far as this approval needs it. -/
def oneApproval : Ed25519 where
  publicKey := fun _ => guardianKey
  sign := fun _ _ => evictionApproval.sig
  isPoint := fun pk => pk = guardianKey
  verifyStrict := fun pk msg sig =>
    pk = guardianKey ∧ msg = recoveryApprovalDs ++ mhBlake3 :: evictedDigest.val ∧
      sig = evictionApproval.sig

/-- The eviction, approved by the only guardian and 72 hours old. -/
def authorizeEviction : Except RecoveryGuardError Unit :=
  authorizeRecoveryChange oneApproval policyDigests [phoneGenesis] phoneEvicted [guardianKey]
    [evictionApproval] [] 0 259200000

private theorem authorizeEviction_eq_ok : authorizeEviction = .ok () := by
  decide +kernel

theorem weakening_authorized_iff_one_guardian :
    PolicyChain policyDigests [phoneGenesis] ∧
      (approvers oneApproval policyDigests phoneEvicted [guardianKey]
        [evictionApproval, evictionApproval]) =
        approvers oneApproval policyDigests phoneEvicted [guardianKey] [evictionApproval] := by
  have hmain := weakening_authorized_iff oneApproval policyDigests [phoneGenesis] phoneEvicted
    [guardianKey] [evictionApproval] [] 0 259200000 (by decide) (by decide)
  refine ⟨(hmain.1.mp authorizeEviction_eq_ok).1, ?_⟩
  have htwice := hmain.2 [evictionApproval, evictionApproval] [] (fun s _ => by simp)
    (fun s _ => Iff.rfl)
  exact htwice.1

theorem authorized_chain_complete_iff_one_guardian :
    PolicyChain policyDigests [phoneGenesis, phoneEvicted] := by
  have hmain := authorized_chain_complete_iff oneApproval policyDigests [phoneGenesis] phoneEvicted
    [guardianKey] [evictionApproval] [] 0 259200000 authorizeEviction_eq_ok
  exact hmain.mpr ⟨phoneGenesis, rfl, by decide, by decide⟩

/-- A detached candidate with an old number is authorized. -/
theorem detached_candidate_authorized :
    authorizeRecoveryChange oneApproval policyDigests [phoneGenesis]
        (policyOf [.phrase [1], .device [9] "phone"] 0) [] [] [] 0 0 = .ok () ∧
      ¬ PolicyChain policyDigests
        ([phoneGenesis] ++ [policyOf [.phrase [1], .device [9] "phone"] 0]) := by
  constructor
  · decide
  · intro h
    have hlink := (List.isChain_cons_cons.mp h.linked).1
    exact absurd hlink.version (by decide)

end OneGuardian
end Dmtap
