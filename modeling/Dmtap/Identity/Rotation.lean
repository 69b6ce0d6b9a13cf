import Dmtap.Identity.RecoveryGuard

/-! Authorization of a new root key. Against a published policy the rotation needs a quorum of
guardians, or the waiting time without a quorum of vetoes. -/
namespace Dmtap
open Dmtap.Lib Dmtap.Cbor

def keyRotationQuorumDs : Bytes := utf8 "DMTAP-v0/key-rotation-quorum" ++ [0]

def keyRotationVetoDs : Bytes := utf8 "DMTAP-v0/key-rotation-veto" ++ [0]

inductive KeyRotationError
  | unauthorized
  deriving DecidableEq, Repr

/-- The guardian lists of the social methods, one after the other. -/
def policyGuardians (policy : RecoveryPolicy) : List Bytes :=
  policy.methods.flatMap fun m =>
    match m with
    | .social guardians _ => guardians
    | _ => []

/-- A strict majority of `n`, or the bar that the policy sets if that is higher. -/
def requiredRotateQuorum (policy : RecoveryPolicy) (n : ℕ) : UInt32 :=
  let majorityMin := UInt32.ofNat n / 2 + 1
  max majorityMin (thresholdMin policy.rotateThreshold)

section Authorize
variable (E : Ed25519)

def keyRotationIsQuorumBacked (rotation : KeyRotation) (policy : RecoveryPolicy)
    (approvals : List GuardianApproval) : Bool :=
  if rotation.rotateQuorum.isNone then false
  else
    let guardians := policyGuardians policy
    let q := countQuorum E guardians keyRotationQuorumDs rotation.quorumBody approvals
    requiredRotateQuorum policy guardians.length ≤ UInt32.ofNat q

/-- A rotation that claims no quorum waits for vetoes; they are counted by distinct guardians and
compared with the length of the guardian lists. -/
def authorizeKeyRotation (rotation : KeyRotation) (policy : Option RecoveryPolicy)
    (approvals vetoes : List GuardianApproval) (announcedAt now : UInt64) :
    Except KeyRotationError Unit :=
  match policy with
  | none => .ok ()
  | some policy =>
    if keyRotationIsQuorumBacked E rotation policy approvals then .ok ()
    else if rotation.rotateQuorum.isNone then
      let guardians := policyGuardians policy
      let vetoQ := countQuorum E guardians keyRotationVetoDs rotation.quorumBody vetoes
      let vetoed := guardians.length < vetoQ * 2
      if ¬ vetoed ∧ saturatingAdd announcedAt recoveryVetoWindowMs ≤ now then .ok ()
      else .error .unauthorized
    else .error .unauthorized

end Authorize

section Veto
variable {E : Ed25519} {rotation : KeyRotation} {policy : RecoveryPolicy}
  {approvals vetoes : List GuardianApproval} {announcedAt now : UInt64}

/-- Every guardian that the policy names has a veto in the list that verifies. -/
def AllVeto (E : Ed25519) (rotation : KeyRotation) (policy : RecoveryPolicy)
    (vetoes : List GuardianApproval) : Prop :=
  ∀ g ∈ policyGuardians policy, ∃ s ∈ vetoes, s.guardian = g ∧
    E.verifyDomain g keyRotationVetoDs rotation.quorumBody s.sig = .ok ()

/-- The waiting route is the only one that a rotation without a quorum signature has. -/
theorem authorizeKeyRotation_eq_ok (hbare : rotation.rotateQuorum = none) :
    authorizeKeyRotation E rotation (some policy) approvals vetoes announcedAt now = .ok () ↔
      (signers E (policyGuardians policy) keyRotationVetoDs rotation.quorumBody vetoes).card * 2 ≤
          (policyGuardians policy).length ∧
        saturatingAdd announcedAt recoveryVetoWindowMs ≤ now := by
  have hbacked : keyRotationIsQuorumBacked E rotation policy approvals = false := by
    simp [keyRotationIsQuorumBacked, hbare]
  unfold authorizeKeyRotation
  dsimp only
  simp only [hbacked, hbare, countQuorum_eq_card, not_lt, Bool.false_eq_true, if_false,
    Option.isNone_none, if_true]
  split_ifs with h
  · exact iff_of_true rfl h
  · exact iff_of_false (fun herr => by cases herr) h

/-- Any other outcome than authorized is the one error. -/
theorem authorizeKeyRotation_ne_ok {p : Option RecoveryPolicy} :
    authorizeKeyRotation E rotation p approvals vetoes announcedAt now ≠ .ok () ↔
      authorizeKeyRotation E rotation p approvals vetoes announcedAt now =
        .error .unauthorized := by
  cases h : authorizeKeyRotation E rotation p approvals vetoes announcedAt now with
  | ok u => simp
  | error e =>
    cases e
    simp

theorem AllVeto.signers_eq (h : AllVeto E rotation policy vetoes) :
    signers E (policyGuardians policy) keyRotationVetoDs rotation.quorumBody vetoes =
      (policyGuardians policy).toFinset := by
  ext g
  rw [mem_signers, List.mem_toFinset]
  constructor
  · rintro ⟨s, -, rfl, hcounts⟩
    exact hcounts.1
  · intro hg
    obtain ⟨s, hs, hkey, hsig⟩ := h g hg
    have hcounts : s.Counts E (policyGuardians policy) keyRotationVetoDs rotation.quorumBody := by
      rw [← hkey] at hg hsig
      exact ⟨hg, hsig⟩
    exact ⟨s, hs, hkey, hcounts⟩

/-- With all guardians against it a rotation is stopped at all times exactly when the policy
names more distinct guardians than half of its guardian entries. -/
theorem all_veto_stops_iff (E : Ed25519) (rotation : KeyRotation) (policy : RecoveryPolicy)
    (vetoes : List GuardianApproval) (hbare : rotation.rotateQuorum = none)
    (hall : AllVeto E rotation policy vetoes) :
    (∀ approvals announcedAt now,
        authorizeKeyRotation E rotation (some policy) approvals vetoes announcedAt now =
          .error .unauthorized) ↔
      (policyGuardians policy).length < (policyGuardians policy).toFinset.card * 2 := by
  have hok : ∀ {approvals announcedAt now},
      authorizeKeyRotation E rotation (some policy) approvals vetoes announcedAt now = .ok () ↔
        (policyGuardians policy).toFinset.card * 2 ≤ (policyGuardians policy).length ∧
          saturatingAdd announcedAt recoveryVetoWindowMs ≤ now := by
    intro approvals announcedAt now
    rw [authorizeKeyRotation_eq_ok hbare, hall.signers_eq]
  constructor
  · intro h
    have hlast := authorizeKeyRotation_ne_ok.mpr (h [] 0 (saturatingAdd 0 recoveryVetoWindowMs))
    rw [ne_eq, hok] at hlast
    exact not_le.mp fun hle => hlast ⟨hle, UInt64.le_refl _⟩
  · intro hlt approvals announcedAt now
    rw [← authorizeKeyRotation_ne_ok, ne_eq, hok]
    exact fun h => absurd h.1 (not_le.mpr hlt)

end Veto

section OneVeto

/-- A bare rotation from key `7` to key `8`. -/
def bareRotation : KeyRotation where
  suite := .classical
  oldIk := [7]
  newIk := [8]
  reason := "lost"
  ts := 5
  prev := none
  sig := []
  rotateQuorum := none

def rotationVeto : GuardianApproval where
  guardian := guardianKey
  sig := toBe 32 0x11b387ee2acdcba49fb39272bfb95629fb809780056768f619c16ec7ddb3e51f ++
    toBe 32 0x827383cddc2f57f3ced68537e5356e0e8df2042ea80d99b76df0352401f6740d

/-- Ed25519 as far as this veto needs it. -/
def oneVeto : Ed25519 where
  publicKey := fun _ => guardianKey
  sign := fun _ _ => rotationVeto.sig
  isPoint := fun pk => pk = guardianKey
  verifyStrict := fun pk msg sig =>
    pk = guardianKey ∧ msg = keyRotationVetoDs ++ bareRotation.quorumBody ∧ sig = rotationVeto.sig

theorem rotationVeto_verifies : oneVeto.verifyDomain guardianKey keyRotationVetoDs
    bareRotation.quorumBody rotationVeto.sig = .ok () := by
  decide

/-- One guardian, named by each of `n` social methods. -/
def sharedGuardian (n : ℕ) : RecoveryPolicy :=
  policyOf (.phrase [1] :: List.replicate n (.social [guardianKey] 1)) 1

theorem allVeto_sharedGuardian (n : ℕ) :
    AllVeto oneVeto bareRotation (sharedGuardian n) [rotationVeto] := by
  intro g hg
  have hkey : g = guardianKey := by
    obtain ⟨m, hm, hg⟩ := List.mem_flatMap.mp hg
    rcases List.mem_cons.mp hm with rfl | hm
    · cases hg
    · rw [List.eq_of_mem_replicate hm] at hg
      exact List.mem_singleton.mp hg
  rw [hkey]
  exact ⟨rotationVeto, List.mem_singleton_self _, rfl, rotationVeto_verifies⟩

theorem all_veto_stops_iff_one_method :
    authorizeKeyRotation oneVeto bareRotation (some (sharedGuardian 1)) [] [rotationVeto] 0
      259200000 = .error .unauthorized :=
  (all_veto_stops_iff oneVeto bareRotation (sharedGuardian 1) [rotationVeto] rfl
    (allVeto_sharedGuardian 1)).mpr (by decide) [] 0 259200000

/-- Two social methods share their only guardian, whose veto then counts for half. -/
theorem all_veto_ignored_two_methods :
    policyGuardians (sharedGuardian 2) ≠ [] ∧ bareRotation.rotateQuorum = none ∧
      AllVeto oneVeto bareRotation (sharedGuardian 2) [rotationVeto] ∧
      authorizeKeyRotation oneVeto bareRotation (some (sharedGuardian 2)) [] [rotationVeto] 0
        259200000 = .ok () := by
  refine ⟨by decide, rfl, allVeto_sharedGuardian 2, ?_⟩
  decide

end OneVeto
end Dmtap
