import Dmtap.Identity.Keys
import Dmtap.Identity.Recovery

/-! Verification of the identity objects: device certificates, identities against a pinned
predecessor, and recovery policies with the comparison of their two thresholds. -/
namespace Dmtap
open Dmtap.Lib Dmtap.Cbor

def identityDs : Bytes := utf8 "DMTAP-v0/identity" ++ [0]

def deviceCertDs : Bytes := utf8 "DMTAP-v0/device-cert" ++ [0]

def recoveryPolicyDs : Bytes := utf8 "DMTAP-v0/recovery-policy" ++ [0]

/-- A library that takes every signature of the right length. -/
def trusting : Ed25519 where
  publicKey := Subtype.val
  sign := fun _ _ => List.replicate 64 0
  isPoint := fun _ => true
  verifyStrict := fun _ _ _ => true

section Identity
variable (E : Ed25519)

def DeviceCert.verify (c : DeviceCert) : Except IdentityError Unit :=
  if c.suite.isSupported = false then .error (.unsupportedSuite c.suite.asU8)
  else E.verifyDomain c.ik deviceCertDs c.signingBody c.sig

namespace Identity

/-- A declared suite and the signature at its index. -/
def verifySuite (i : Identity) (entry : Suite × Bytes) : Except IdentityError Unit :=
  if entry.1.isSupported = false then .error (.unsupportedSuite entry.1.asU8)
  else
    match i.iks.get? entry.1.asU8 with
    | none => .error (.malformed "missing key for a declared suite")
    | some key => E.verifyDomain key identityDs i.signingBody entry.2

def verifyDevice (i : Identity) (cert : DeviceCert) : Except IdentityError Unit :=
  match i.iks.get? cert.suite.asU8 with
  | none => .error (.malformed "device cert for a suite this identity lacks")
  | some expectedIk =>
    if cert.ik ≠ expectedIk then .error (.malformed "device cert IK != identity IK")
    else cert.verify E

def verifyChain (i : Identity) : Except IdentityError Unit :=
  match i.prev with
  | some _ => if i.version = 0 then .error .brokenChain else .ok ()
  | none => if 0 < i.version then .error .brokenChain else .ok ()

/-- The pin is compared with the predecessor where there are both. -/
def verifyPinned (i : Identity) (pinned : Option ContentId) : Except IdentityError Unit :=
  match pinned, i.prev with
  | some p, some prev => if p ≠ prev then .error .brokenChain else .ok ()
  | _, _ => .ok ()

def verify (i : Identity) (pinned : Option ContentId) : Except IdentityError Unit :=
  if i.suites = [] then .error (.malformed "empty suite set")
  else if i.sig.length ≠ i.suites.length then .error (.malformed "sig count != suite count")
  else do
    (i.suites.zip i.sig).forM (i.verifySuite E)
    i.devices.forM (i.verifyDevice E)
    i.verifyChain
    i.verifyPinned pinned

/-- Every declared suite has a key that verifies its signature, and every device certificate is
signed by and bound to the key of its suite. -/
structure Signed (i : Identity) : Prop where
  suites : i.suites ≠ []
  aligned : i.sig.length = i.suites.length
  signatures : ∀ entry ∈ i.suites.zip i.sig, entry.1.isSupported = true ∧
    ∃ key, i.iks.get? entry.1.asU8 = some key ∧
      E.verifyDomain key identityDs i.signingBody entry.2 = .ok ()
  devices : ∀ cert ∈ i.devices, cert.suite.isSupported = true ∧
    i.iks.get? cert.suite.asU8 = some cert.ik ∧
      E.verifyDomain cert.ik deviceCertDs cert.signingBody cert.sig = .ok ()

variable {E} {i : Identity}

theorem verifySuite_eq_ok {entry : Suite × Bytes} :
    i.verifySuite E entry = .ok () ↔ entry.1.isSupported = true ∧
      ∃ key, i.iks.get? entry.1.asU8 = some key ∧
        E.verifyDomain key identityDs i.signingBody entry.2 = .ok () := by
  unfold verifySuite
  rw [except_guard_eq_ok, Bool.not_eq_false]
  refine and_congr_right fun _ => ?_
  cases i.iks.get? entry.1.asU8 with
  | none => simp
  | some key => simp

theorem verifyDevice_eq_ok {cert : DeviceCert} :
    i.verifyDevice E cert = .ok () ↔ cert.suite.isSupported = true ∧
      i.iks.get? cert.suite.asU8 = some cert.ik ∧
        E.verifyDomain cert.ik deviceCertDs cert.signingBody cert.sig = .ok () := by
  unfold verifyDevice DeviceCert.verify
  cases i.iks.get? cert.suite.asU8 with
  | none => simp
  | some key =>
    rw [except_guard_eq_ok, except_guard_eq_ok, not_not, Bool.not_eq_false, Option.some.injEq]
    constructor
    · rintro ⟨hik, hsuite, hsig⟩
      exact ⟨hsuite, hik.symm, hsig⟩
    · rintro ⟨hsuite, hik, hsig⟩
      exact ⟨hik.symm, hsuite, hsig⟩

theorem verifyChain_eq_ok :
    i.verifyChain = .ok () ↔ (i.version = 0 ↔ i.prev = none) := by
  unfold verifyChain
  cases i.prev with
  | some prev => simp
  | none =>
    have hpos : 0 < i.version ↔ i.version ≠ 0 := UInt64.pos_iff_ne_zero
    simp [hpos]

theorem verifyPinned_eq_ok {pinned : Option ContentId} :
    i.verifyPinned pinned = .ok () ↔
      ∀ p prev, pinned = some p → i.prev = some prev → p = prev := by
  unfold verifyPinned
  cases pinned with
  | none => simp
  | some p =>
    cases i.prev with
    | none => simp
    | some prev =>
      rw [except_guard_eq_ok, not_not]
      simp

theorem verify_eq_ok {pinned : Option ContentId} :
    i.verify E pinned = .ok () ↔ i.Signed E ∧ (i.version = 0 ↔ i.prev = none) ∧
      ∀ p prev, pinned = some p → i.prev = some prev → p = prev := by
  unfold verify
  rw [except_guard_eq_ok, except_guard_eq_ok, not_not, except_check_bind_eq_ok,
    except_check_bind_eq_ok, except_check_bind_eq_ok, forM_eq_ok, forM_eq_ok, verifyChain_eq_ok,
    verifyPinned_eq_ok]
  constructor
  · rintro ⟨hsuites, haligned, hsignatures, hdevices, hchain, hpinned⟩
    refine ⟨⟨hsuites, haligned, fun entry hentry => ?_, fun cert hcert => ?_⟩, hchain, hpinned⟩
    · exact verifySuite_eq_ok.mp (hsignatures entry hentry)
    · exact verifyDevice_eq_ok.mp (hdevices cert hcert)
  · rintro ⟨hsigned, hchain, hpinned⟩
    refine ⟨hsigned.suites, hsigned.aligned, fun entry hentry => ?_, fun cert hcert => ?_, hchain,
      hpinned⟩
    · exact verifySuite_eq_ok.mpr (hsigned.signatures entry hentry)
    · exact verifyDevice_eq_ok.mpr (hsigned.devices cert hcert)

/-- An identity that verifies against a pin is signed and names the pinned version as its
predecessor, unless it is a signed first version, which names none and is accepted under every
pin. -/
theorem pinned_moves_forward_iff (E : Ed25519) (i : Identity) (p : ContentId) :
    (i.verify E (some p) = .ok () → i.prev = some p ∧ 0 < i.version ∧ i.Signed E) ↔
      ¬ (i.version = 0 ∧ i.prev = none ∧ i.Signed E) := by
  rw [verify_eq_ok]
  constructor
  · rintro h ⟨hversion, hprev, hsigned⟩
    have hpinned : ∀ q prev, some p = some q → i.prev = some prev → q = prev := by
      intro q prev _ hsome
      rw [hprev] at hsome
      cases hsome
    obtain ⟨hforward, -, -⟩ := h ⟨hsigned, iff_of_true hversion hprev, hpinned⟩
    rw [hprev] at hforward
    cases hforward
  · rintro h ⟨hsigned, hchain, hpinned⟩
    cases hprev : i.prev with
    | none => exact absurd ⟨hchain.mpr hprev, hprev, hsigned⟩ h
    | some prev =>
      have hversion : i.version ≠ 0 := by
        intro hzero
        rw [hchain.mp hzero] at hprev
        cases hprev
      exact ⟨congrArg some (hpinned p prev rfl hprev).symm, UInt64.pos_iff_ne_zero.mpr hversion,
        hsigned⟩

/-- A first version with one suite and no devices. -/
def firstVersion : Identity where
  suites := [.classical]
  iks := SortedMap.empty.insert 0x01 (List.replicate 32 0)
  version := 0
  devices := []
  keypkgs := { loc := "", id := ⟨[]⟩, suites := none }
  recovery := ⟨[]⟩
  names := []
  prev := none
  ts := 0
  sig := [List.replicate 64 0]

theorem firstVersion_verifies_pinned :
    firstVersion.verify trusting (some ⟨[1]⟩) = .ok () ∧ firstVersion.prev ≠ some ⟨[1]⟩ := by
  decide

end Identity
end Identity

section Thresholds

/-- The kind of factor, whatever the count. -/
def MethodPredicate.kind : MethodPredicate → UInt8
  | phrase => 0
  | devices _ => 1
  | guardians _ => 2
  | ik => 3

/-- Clauses of one kind are compared by their counts; different kinds are not compared. -/
def Threshold.atLeastAsStrongAs (t other : Threshold) : Bool :=
  other.anyOf.all fun p =>
    (t.anyOf.filter fun q => q.kind = p.kind).all fun q => p.count ≤ q.count

def RecoveryPolicy.verify (E : Ed25519) (p : RecoveryPolicy) : Except IdentityError Unit :=
  if p.suite.isSupported = false then .error (.unsupportedSuite p.suite.asU8)
  else if p.rotateThreshold.anyOf = [] then
    .error (.malformed "rotate_threshold must not be empty")
  else if p.rotateThreshold.atLeastAsStrongAs p.recoverThreshold = false then
    .error .recoveryThresholdInvalid
  else E.verifyDomain p.ik recoveryPolicyDs p.signingBody p.sig

/-- Table B: a clause to rotate by that is well formed against the threshold to recover by. -/
def MethodPredicate.WellFormed (recover : Threshold) (q : MethodPredicate) : Prop :=
  q = ik ∨
    ((∃ p ∈ recover.anyOf, p.kind = q.kind) ∧
      ∀ p ∈ recover.anyOf, p.kind = q.kind → p.count ≤ q.count) ∨
    ((∀ p ∈ recover.anyOf, p.kind ≠ q.kind) ∧ 2 ≤ q.count)

/-- A single factor of a kind that the threshold to recover by has no clause for. -/
def MethodPredicate.LoneStranger (recover : Threshold) (q : MethodPredicate) : Prop :=
  q ≠ ik ∧ (∀ p ∈ recover.anyOf, p.kind ≠ q.kind) ∧ q.count < 2

theorem Threshold.atLeastAsStrongAs_eq_true {t other : Threshold} :
    t.atLeastAsStrongAs other = true ↔
      ∀ q ∈ t.anyOf, ∀ p ∈ other.anyOf, p.kind = q.kind → p.count ≤ q.count := by
  unfold atLeastAsStrongAs
  rw [List.all_eq_true]
  constructor
  · intro h q hq p hp hkind
    have hall := List.all_eq_true.mp (h p hp) q
    exact of_decide_eq_true (hall (List.mem_filter.mpr ⟨hq, decide_eq_true hkind.symm⟩))
  · intro h p hp
    rw [List.all_eq_true]
    intro q hq
    obtain ⟨hq, hkind⟩ := List.mem_filter.mp hq
    exact decide_eq_true (h q hq p hp (of_decide_eq_true hkind).symm)

/-- The clauses that pass Table B are those that no clause of their kind outweighs and that are not
lone strangers. -/
theorem MethodPredicate.wellFormed_iff {recover : Threshold} {q : MethodPredicate} :
    q.WellFormed recover ↔
      (∀ p ∈ recover.anyOf, p.kind = q.kind → p.count ≤ q.count) ∧ ¬ q.LoneStranger recover := by
  constructor
  · rintro (rfl | ⟨⟨p, hp, hkind⟩, hcount⟩ | ⟨hother, hcount⟩)
    · refine ⟨fun p _ hkind => ?_, fun h => h.1 rfl⟩
      cases p with
      | phrase => exact absurd hkind (by decide)
      | devices _ => exact absurd (show (1 : UInt8) = 3 from hkind) (by decide)
      | guardians _ => exact absurd (show (2 : UInt8) = 3 from hkind) (by decide)
      | ik => exact UInt8.le_refl 1
    · exact ⟨hcount, fun h => h.2.1 p hp hkind⟩
    · exact ⟨fun p hp hkind => absurd hkind (hother p hp), fun h => UInt8.not_lt.mpr hcount h.2.2⟩
  · rintro ⟨hcount, hlone⟩
    by_cases hik : q = ik
    · exact Or.inl hik
    by_cases hsame : ∃ p ∈ recover.anyOf, p.kind = q.kind
    · exact Or.inr (Or.inl ⟨hsame, hcount⟩)
    · have hother : ∀ p ∈ recover.anyOf, p.kind ≠ q.kind := fun p hp hkind => hsame ⟨p, hp, hkind⟩
      refine Or.inr (Or.inr ⟨hother, UInt8.not_lt.mp fun hlt => hlone ⟨hik, hother, hlt⟩⟩)

theorem RecoveryPolicy.verify_eq_ok {E : Ed25519} {p : RecoveryPolicy} :
    p.verify E = .ok () ↔ p.suite.isSupported = true ∧ p.rotateThreshold.anyOf ≠ [] ∧
      p.rotateThreshold.atLeastAsStrongAs p.recoverThreshold = true ∧
        E.verifyDomain p.ik recoveryPolicyDs p.signingBody p.sig = .ok () := by
  unfold verify
  rw [except_guard_eq_ok, except_guard_eq_ok, except_guard_eq_ok, Bool.not_eq_false,
    Bool.not_eq_false]

/-- A policy with a supported suite and a good signature is judged as Table B judges it exactly
when some clause to rotate by is outweighed by one of its kind, or none is a lone stranger. -/
theorem verify_tabulated_iff {E : Ed25519} {p : RecoveryPolicy}
    (hsuite : p.suite.isSupported = true)
    (hsig : E.verifyDomain p.ik recoveryPolicyDs p.signingBody p.sig = .ok ()) :
    (p.verify E = .ok () ↔ p.rotateThreshold.anyOf ≠ [] ∧
        ∀ q ∈ p.rotateThreshold.anyOf, q.WellFormed p.recoverThreshold) ↔
      (∃ q ∈ p.rotateThreshold.anyOf, ∃ r ∈ p.recoverThreshold.anyOf,
        r.kind = q.kind ∧ q.count < r.count) ∨
      ∀ q ∈ p.rotateThreshold.anyOf, ¬ q.LoneStranger p.recoverThreshold := by
  have hverify : p.verify E = .ok () ↔ p.rotateThreshold.anyOf ≠ [] ∧
      ∀ q ∈ p.rotateThreshold.anyOf, ∀ r ∈ p.recoverThreshold.anyOf,
        r.kind = q.kind → r.count ≤ q.count := by
    rw [RecoveryPolicy.verify_eq_ok, ← Threshold.atLeastAsStrongAs_eq_true]
    exact ⟨fun h => ⟨h.2.1, h.2.2.1⟩, fun h => ⟨hsuite, h.1, h.2, hsig⟩⟩
  rw [hverify]
  constructor
  · intro h
    by_contra hnot
    obtain ⟨hnone, hlone⟩ := not_or.mp hnot
    obtain ⟨q, hq⟩ := not_forall.mp hlone
    obtain ⟨hq, hstranger⟩ := Classical.not_imp.mp hq
    have hcounts : ∀ q ∈ p.rotateThreshold.anyOf, ∀ r ∈ p.recoverThreshold.anyOf,
        r.kind = q.kind → r.count ≤ q.count := by
      intro q hq r hr hkind
      exact UInt8.not_lt.mp fun hlt => hnone ⟨q, hq, r, hr, hkind, hlt⟩
    have hformed := (h.mp ⟨List.ne_nil_of_mem hq, hcounts⟩).2 q hq
    exact hstranger (MethodPredicate.wellFormed_iff.mp hformed).2
  · rintro (⟨q, hq, r, hr, hkind, hlt⟩ | hlone)
    · refine iff_of_false (fun h => ?_) fun h => ?_
      · exact UInt8.not_le.mpr hlt (h.2 q hq r hr hkind)
      · have hcounts := (MethodPredicate.wellFormed_iff.mp (h.2 q hq)).1
        exact UInt8.not_le.mpr hlt (hcounts r hr hkind)
    · refine and_congr_right fun _ => forall₂_congr fun q hq => ?_
      rw [MethodPredicate.wellFormed_iff, and_iff_left (hlone q hq)]

/-- A signed policy recovered by three guardians. -/
def threeGuardians (rotate : MethodPredicate) : RecoveryPolicy where
  suite := .classical
  ik := List.replicate 32 0
  version := 0
  methods := []
  recoverThreshold := ⟨[.guardians 3]⟩
  rotateThreshold := ⟨[rotate]⟩
  prev := none
  ts := 0
  sig := List.replicate 64 0

theorem verify_tabulated_three_guardians :
    (threeGuardians (.guardians 3)).verify trusting = .ok () ↔
      [MethodPredicate.guardians 3] ≠ [] ∧
        ∀ q ∈ [MethodPredicate.guardians 3], q.WellFormed ⟨[.guardians 3]⟩ := by
  have hiff := @verify_tabulated_iff trusting (threeGuardians (.guardians 3)) (by decide)
    (by decide)
  refine hiff.mpr (Or.inr fun q hq hlone => ?_)
  rw [List.mem_singleton.mp hq] at hlone
  exact hlone.2.1 (.guardians 3) List.mem_cons_self rfl

/-- One phrase is enough to rotate a policy that takes three guardians to recover by. -/
theorem lone_phrase_verifies :
    (threeGuardians .phrase).suite.isSupported = true ∧
      trusting.verifyDomain (threeGuardians .phrase).ik recoveryPolicyDs
        (threeGuardians .phrase).signingBody (threeGuardians .phrase).sig = .ok () ∧
      (threeGuardians .phrase).verify trusting = .ok () ∧
      ¬ ∀ q ∈ (threeGuardians .phrase).rotateThreshold.anyOf,
        q.WellFormed (threeGuardians .phrase).recoverThreshold := by
  refine ⟨by decide, by decide, by decide, fun h => ?_⟩
  have hformed := MethodPredicate.wellFormed_iff.mp (h .phrase List.mem_cons_self)
  refine hformed.2 ⟨by decide, fun p hp => ?_, by decide⟩
  rw [List.mem_singleton.mp hp]
  decide

end Thresholds

end Dmtap
