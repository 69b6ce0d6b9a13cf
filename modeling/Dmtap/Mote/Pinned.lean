import Dmtap.Mote.Build

/-! Validation with a suite ratchet. The ratchet files a contact under the sender's key as it stands
in the payload, and a key of one suite is no key of the other. -/
namespace Dmtap.Mote
open Dmtap.Lib Dmtap.Cbor

inductive ValidateError
  | mote (e : MoteError)
  | suite (e : SuiteRatchetError)
  deriving DecidableEq, Repr

section Pinned
variable (C : Primitives)

/-- Validation, then the ratchet on the authenticated sender. A deferred message leaves it alone. -/
def validatePinned (sealer : PayloadSeal Id) (env : Envelope) (ctx : RecipientCtx)
    (ratchet : Option SuiteRatchet) : Except ValidateError Outcome × Option SuiteRatchet :=
  match (validate C sealer env ctx).run, ratchet with
  | .error e, ratchet => (.error (.mote e), ratchet)
  | .ok (.accepted payload), some r =>
    match r.accept payload.sender env.suite with
    | (.error e, r) => (.error (.suite e), some r)
    | (.ok (), r) => (.ok (.accepted payload), some r)
  | .ok outcome, ratchet => (.ok outcome, ratchet)

/-- One message with what its recipient brings to it. -/
structure Delivery where
  sealer : PayloadSeal Id
  env : Envelope
  ctx : RecipientCtx

/-- One call over a ratchet: its result and the ratchet after it. -/
def receive (r : SuiteRatchet) (d : Delivery) : Except ValidateError Outcome × SuiteRatchet :=
  let res := validatePinned C d.sealer d.env d.ctx (some r)
  (res.1, res.2.getD r)

/-- The ratchet after a run of calls. -/
def receiveAll (r : SuiteRatchet) (ds : List Delivery) : SuiteRatchet :=
  ds.foldl (fun r d => (receive C r d).2) r

/-- The message authenticates the payload `p`. -/
def Delivery.Authenticates (d : Delivery) (p : Payload) : Prop :=
  validate C d.sealer d.env d.ctx = pure (.accepted p)

end Pinned

section Steps
variable {C : Primitives} {r : SuiteRatchet} {d : Delivery} {p : Payload} {k : Bytes}

/-- What an authenticated message has been through. -/
theorem Delivery.Authenticates.signed (h : d.Authenticates C p) :
    ∃ hash : Bytes,
      verifySigForSuite C d.env.suite p.sender payloadSigDs hash p.sig = .ok () := by
  unfold Delivery.Authenticates at h
  by_cases hgate : PassesGate C d.env d.ctx
  · rw [validate_of_passesGate hgate] at h
    obtain ⟨pt, -, hauth⟩ := exceptT_bind_eq_pure.mp h
    exact ⟨_, (authenticate_eq_accepted.mp hauth).2.1⟩
  · rw [validate_of_not_passesGate hgate] at h
    cases hg : gate C d.env d.ctx with
    | error e =>
      rw [hg] at h
      cases h
    | ok pass =>
      rw [hg] at h
      cases h

theorem Delivery.Authenticates.length_classical (h : d.Authenticates C p)
    (hsuite : d.env.suite = .classical) : p.sender.length = ed25519PkLen := by
  obtain ⟨hash, hverify⟩ := h.signed
  rw [hsuite] at hverify
  exact (Ed25519.verifyDomain_eq_ok.mp (except_mapError_eq_ok.mp hverify)).1.1

/-- A sender filed under a bare Ed25519 key has used the classical suite. -/
theorem Delivery.Authenticates.suite_of_length (h : d.Authenticates C p)
    (hlength : p.sender.length = ed25519PkLen) : d.env.suite = .classical := by
  obtain ⟨hash, hverify⟩ := h.signed
  cases hsuite : d.env.suite with
  | classical => rfl
  | pqHybrid =>
    rw [hsuite] at hverify
    have hhybrid := length_of_verifyHybridDomain (except_mapError_eq_ok.mp hverify)
    rw [hlength] at hhybrid
    cases hhybrid
  | _ =>
    rw [hsuite] at hverify
    cases hverify

theorem receive_of_authenticates (r : SuiteRatchet) (h : d.Authenticates C p) :
    receive C r d =
      match r.check p.sender d.env.suite with
      | .error e => (.error (.suite e), r)
      | .ok () => (.ok (.accepted p), r.observe p.sender d.env.suite) := by
  have hrun : (validate C d.sealer d.env d.ctx).run = Except.ok (.accepted p) := h
  unfold receive validatePinned
  rw [hrun]
  dsimp only
  unfold SuiteRatchet.accept
  cases r.check p.sender d.env.suite with
  | error e => rfl
  | ok u => rfl

theorem receive_of_above (h : d.Authenticates C p) (habove : r.Above p.sender d.env.suite) :
    receive C r d = (.error (.suite .suiteDowngrade), r) := by
  rw [receive_of_authenticates r h, SuiteRatchet.check_of_above habove]

theorem receive_of_not_above (h : d.Authenticates C p) (habove : ¬ r.Above p.sender d.env.suite) :
    receive C r d = (.ok (.accepted p), r.observe p.sender d.env.suite) := by
  rw [receive_of_authenticates r h, SuiteRatchet.check_of_not_above habove]

/-- A call leaves the ratchet as it is, or accepts an authenticated message and marks its sender. -/
theorem receive_cases (r : SuiteRatchet) (d : Delivery) :
    (receive C r d).2 = r ∨
      ∃ p, d.Authenticates C p ∧ ¬ r.Above p.sender d.env.suite ∧
        (receive C r d).2 = r.observe p.sender d.env.suite := by
  cases hv : validate C d.sealer d.env d.ctx with
  | error e =>
    left
    unfold receive validatePinned
    rw [hv]
    rfl
  | ok outcome =>
    cases outcome with
    | deferred =>
      left
      unfold receive validatePinned
      rw [hv]
      rfl
    | accepted p =>
      have hauth : d.Authenticates C p := hv
      by_cases habove : r.Above p.sender d.env.suite
      · left
        rw [receive_of_above hauth habove]
      · right
        refine ⟨p, hauth, habove, ?_⟩
        rw [receive_of_not_above hauth habove]

/-- No call puts a mark above the classical suite on a bare Ed25519 key, or takes one off. -/
theorem above_receive_iff (hk : k.length = ed25519PkLen) :
    (receive C r d).2.Above k .classical ↔ r.Above k .classical := by
  rcases receive_cases (C := C) r d with hsame | ⟨p, hauth, habove, hobserve⟩
  · rw [hsame]
  · rw [hobserve]
    by_cases hkey : k = p.sender
    · have hsuite := hauth.suite_of_length (by rw [← hkey, hk])
      rw [hsuite] at habove ⊢
      rw [hkey]
      exact iff_of_false (SuiteRatchet.not_above_observe habove) habove
    · exact SuiteRatchet.above_observe_of_ne hkey

theorem above_receiveAll_iff (hk : k.length = ed25519PkLen) (r : SuiteRatchet) (ds : List Delivery) :
    (receiveAll C r ds).Above k .classical ↔ r.Above k .classical := by
  induction ds generalizing r with
  | nil => exact Iff.rfl
  | cons d ds ih => exact (ih (receive C r d).2).trans (above_receive_iff hk)

/-- In a run from `r₀`, a message of the hybrid suite whose sender's Ed25519 part is `k` has been
accepted, and later, over the ratchet `r`, comes the classical message `d` signed with `k`. -/
def DowngradeAttempt (C : Primitives) (r₀ : SuiteRatchet) (ds : List Delivery) (k : Bytes)
    (r : SuiteRatchet) (d : Delivery) : Prop :=
  ∃ before earlier middle after p q, ds = before ++ earlier :: middle ++ d :: after ∧
    r = receiveAll C r₀ (before ++ earlier :: middle) ∧
    (earlier.env.suite = .pqHybrid ∧
      (receive C (receiveAll C r₀ before) earlier).1 = .ok (.accepted p) ∧
      p.sender.take ed25519PkLen = k) ∧
    d.env.suite = .classical ∧ d.Authenticates C q ∧ q.sender = k

/-- A downgrade is refused exactly when the ratchet that the run began with holds a mark above the
classical suite on the bare Ed25519 key. No call ever puts it there. -/
theorem downgrade_refused_iff {r₀ : SuiteRatchet} {ds : List Delivery}
    (h : DowngradeAttempt C r₀ ds k r d) :
    receive C r d = (.error (.suite .suiteDowngrade), r) ↔ r₀.Above k .classical := by
  obtain ⟨before, earlier, middle, after, p, q, -, rfl, -, hsuite, hauth, rfl⟩ := h
  have hlength := hauth.length_classical hsuite
  rw [← above_receiveAll_iff hlength r₀ (before ++ earlier :: middle), ← hsuite]
  constructor
  · intro hrefused
    by_contra habove
    rw [receive_of_not_above hauth habove] at hrefused
    cases congrArg Prod.fst hrefused
  · intro habove
    exact receive_of_above hauth habove

end Steps

section Sample

/-- The note from the same sender after the move to the hybrid suite. -/
def hybridNote : Payload :=
  (draftOf note).signedPayload notePrimitives (hybridSigner notePrimitives ⟨senderSeed, ()⟩)
    (.key recipientKey)

def hybridEnvelope : Envelope :=
  (draftOf note).signedEnvelope notePrimitives .pqHybrid
    (hybridSigner notePrimitives ⟨ephemeralSeed, ()⟩) (.key recipientKey) hybridNote.detCbor

theorem noteEd25519_lawful : notePrimitives.ed25519.Lawful := signedBy_lawful length_noteSignature

theorem deliverable_hybridNote : Deliverable (draftOf note) hybridNote := by
  constructor
  · decide
  · decide
  · decide +kernel
  · intro v hv
    cases hv

/-- The two messages as their recipient gets them, the sender being known. -/
def received (env : Envelope) : Delivery := ⟨transparent, env, ⟨recipientKey, [], true⟩⟩

theorem hybridEnvelope_authenticates :
    (received hybridEnvelope).Authenticates notePrimitives hybridNote.canonical := by
  have hbuild := buildWith_transparent notePrimitives .pqHybrid
    (hybridSigner notePrimitives ⟨senderSeed, ()⟩) (hybridSigner notePrimitives ⟨ephemeralSeed, ()⟩)
    recipientKey (draftOf note) rfl
  have hsender := hybridSigner_verifies noteEd25519_lawful noteMlDsa65_lawful ⟨senderSeed, ()⟩
  have hephemeral := hybridSigner_verifies noteEd25519_lawful noteMlDsa65_lawful ⟨ephemeralSeed, ()⟩
  have hdelivered := delivered_of_buildWith rfl hsender hephemeral transparent_opensFor
    deliverable_hybridNote (by decide +kernel) hbuild
  exact hdelivered.accepted true (Or.inl rfl)

theorem noteEnvelope_authenticates :
    (received noteEnvelope).Authenticates notePrimitives note.canonical := by
  have hsender := classicalSigner_verifies noteEd25519_lawful senderSeed
  have hephemeral := classicalSigner_verifies noteEd25519_lawful ephemeralSeed
  have hdraft : Deliverable (draftOf note) ((draftOf note).signedPayload notePrimitives
      (classicalSigner notePrimitives senderSeed) (.key recipientKey)) := by
    rw [signedPayload_note]
    exact deliverable_note
  have hdelivered := delivered_of_buildWith rfl hsender hephemeral transparent_opensFor hdraft
    (by decide +kernel) buildMote_note
  rw [signedPayload_note] at hdelivered
  exact hdelivered.accepted true (Or.inl rfl)

theorem not_above_new (contact : Bytes) (suite : Suite) : ¬ SuiteRatchet.new.Above contact suite := by
  rintro ⟨floor, hget, -⟩
  cases hget

/-- The hybrid note and then the classical one, over a ratchet that takes the first. -/
theorem downgradeAttempt_notes {r₀ : SuiteRatchet} (h : ¬ r₀.Above hybridNote.sender .pqHybrid) :
    DowngradeAttempt notePrimitives r₀ [received hybridEnvelope, received noteEnvelope] senderKey
      (receiveAll notePrimitives r₀ [received hybridEnvelope]) (received noteEnvelope) := by
  refine ⟨[], received hybridEnvelope, [], [], hybridNote.canonical, note.canonical, rfl, rfl,
    ⟨rfl, ?_, ?_⟩, rfl, noteEnvelope_authenticates, rfl⟩
  · exact congrArg Prod.fst (receive_of_not_above hybridEnvelope_authenticates h)
  · decide

theorem downgrade_refused_iff_marked :
    ∃ r, DowngradeAttempt notePrimitives (SuiteRatchet.new.observe senderKey .pqHybrid)
        [received hybridEnvelope, received noteEnvelope] senderKey r (received noteEnvelope) ∧
      receive notePrimitives r (received noteEnvelope) = (.error (.suite .suiteDowngrade), r) := by
  have hne : hybridNote.sender ≠ senderKey := by decide
  have hclear : ¬ (SuiteRatchet.new.observe senderKey .pqHybrid).Above hybridNote.sender .pqHybrid :=
    (SuiteRatchet.above_observe_of_ne hne).not.mpr (not_above_new hybridNote.sender .pqHybrid)
  have hattempt := downgradeAttempt_notes hclear
  have habove : (SuiteRatchet.new.observe senderKey .pqHybrid).Above senderKey .classical :=
    ⟨2, by decide, by decide⟩
  exact ⟨_, hattempt, (downgrade_refused_iff hattempt).mpr habove⟩

/-- Over a new ratchet the classical note is accepted after the hybrid one. -/
theorem downgrade_accepted :
    ∃ r, DowngradeAttempt notePrimitives SuiteRatchet.new
        [received hybridEnvelope, received noteEnvelope] senderKey r (received noteEnvelope) ∧
      (receive notePrimitives r (received noteEnvelope)).1 = .ok (.accepted note.canonical) := by
  have hattempt := downgradeAttempt_notes (not_above_new hybridNote.sender .pqHybrid)
  refine ⟨_, hattempt, ?_⟩
  have hclear : ¬ (receiveAll notePrimitives SuiteRatchet.new [received hybridEnvelope]).Above
      senderKey .classical :=
    (above_receiveAll_iff rfl _ _).not.mpr (not_above_new senderKey .classical)
  exact congrArg Prod.fst (receive_of_not_above noteEnvelope_authenticates hclear)

end Sample
end Dmtap.Mote
