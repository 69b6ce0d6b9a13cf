import Dmtap.Lib.Checked
import Dmtap.Mote.Preimage
import Dmtap.Pq

/-! What a recipient checks of a message, cheap and anonymous checks first. -/
namespace Dmtap.Mote
open Dmtap.Lib Dmtap.Cbor

inductive MoteError
  | unknownVersion (v : UInt8)
  | unsupportedSuite (b : UInt8)
  | badContentAddress
  | notForUs
  | missingSenderKey
  | badSignature
  | envelopeContextMismatch
  | vouchSubjectMismatch
  | decryptFailed
  | sealFailed
  | badKey
  | fileManifestInvalid
  | fileRetentionExpired
  | fileUnavailable
  | spoolOverflow
  | sizeTierViolation
  | badEncoding (e : CborError)
  deriving DecidableEq, Repr

def moteVersion : UInt8 := 0

/-- The domain tags end in one null byte. -/
def payloadSigDs : Bytes := utf8 "DMTAP-v0/payload" ++ [0]

def envelopeSenderDs : Bytes := utf8 "DMTAP-v0/envelope-sender" ++ [0]

/-- What the message layer takes from the cryptographic libraries. -/
structure Primitives where
  blake3 : Bytes → Digest
  ed25519 : Ed25519
  mlDsa65 : MlDsa65

/-- A way to seal payloads. Its calls may have effects, those of the monad `m`. -/
structure PayloadSeal (m : Type → Type) where
  «seal» : (recipientPub aad plaintext : Bytes) → m (Except MoteError Bytes)
  «open» : (recipientSecret aad ciphertext : Bytes) → m (Except MoteError Bytes)

structure RecipientCtx where
  ourIk : Bytes
  sealSecret : Bytes
  senderIsKnown : Bool

inductive Outcome
  | accepted (payload : Payload)
  | deferred

def DeliveryTag.resolvesToKey (t : DeliveryTag) (ik : Bytes) : Bool :=
  match t with
  | key k => k = ik
  | _ => false

section Validate
variable (C : Primitives)

/-- Every failure to verify is reported as a bad signature. Reserved suites have no verifier. -/
def verifySigForSuite (suite : Suite) (pk domain msg sig : Bytes) : Except MoteError Unit :=
  match suite with
  | .classical => (C.ed25519.verifyDomain pk domain msg sig).mapError fun _ => .badSignature
  | .pqHybrid =>
    (verifyHybridDomain C.ed25519 C.mlDsa65 pk domain msg sig).mapError fun _ => .badSignature
  | .reservedAeadGcm | .reservedAnchorSlhDsa | .reservedHashSha3 =>
    .error (.unsupportedSuite suite.asU8)

def okOr {α : Type} (o : Option α) (e : MoteError) : Except MoteError α :=
  match o with
  | some a => .ok a
  | none => .error e

/-- The steps after decryption: the identity signature over the received context, then the subject
of a vouch. -/
def authenticate (env : Envelope) (pt : Bytes) : Except MoteError Outcome := do
  let payload ← (Payload.fromDetCbor pt).mapError .badEncoding
  let ph := (payload.payloadHash C.blake3 env.kind env.ts env.toTag.detCbor).val
  if !(verifySigForSuite C env.suite payload.sender payloadSigDs ph payload.sig).isOk then
    let phUnbound := (payload.payloadHashUnbound C.blake3).val
    if (verifySigForSuite C env.suite payload.sender payloadSigDs phUnbound payload.sig).isOk then
      throw .envelopeContextMismatch
    else throw .badSignature
  else
    match env.challenge with
    | some (.vouch v) =>
      if payload.sender ≠ v.subject then throw .vouchSubjectMismatch
      else return .accepted payload
    | _ => return .accepted payload

/-- Ordered validation. The ephemeral signature is mandatory, and a cold sender without a challenge
is deferred before anything is decrypted. -/
def validate {m : Type → Type} [Monad m] (sealer : PayloadSeal m) (env : Envelope)
    (ctx : RecipientCtx) : ExceptT MoteError m Outcome :=
  if env.v ≠ moteVersion then throw (.unknownVersion env.v)
  else if !env.suite.moteSupported then throw (.unsupportedSuite env.suite.asU8)
  else if !env.id.verify C.blake3 env.ciphertext then throw .badContentAddress
  else do
    let sig ← checked (okOr env.senderSig .badSignature)
    let eph ← checked (okOr env.senderEph .missingSenderKey)
    let authed := env.senderSigBody
    checked (verifySigForSuite C env.suite eph envelopeSenderDs authed sig)
    if !env.toTag.resolvesToKey ctx.ourIk then throw .notForUs
    else if !ctx.senderIsKnown && env.challenge.isNone then return .deferred
    else do
      let aad := aadBytes env.suite env.kind env.ts env.toTag.detCbor
      let pt ← ExceptT.mk (sealer.open ctx.sealSecret aad env.ciphertext)
      checked (authenticate C env pt)

end Validate

section Gate
variable {C : Primitives} {m : Type → Type} [Monad m] [LawfulMonad m] {α : Type}

/-- The sender's ephemeral signature is there and verifies. -/
def SenderSigned (C : Primitives) (env : Envelope) : Prop :=
  ∃ sig eph, env.senderSig = some sig ∧ env.senderEph = some eph ∧
    verifySigForSuite C env.suite eph envelopeSenderDs env.senderSigBody sig = .ok ()

/-- The envelope is sound and addressed to `ourIk`. -/
structure SoundFor (C : Primitives) (env : Envelope) (ourIk : Bytes) : Prop where
  version : env.v = moteVersion
  suite : env.suite.moteSupported = true
  contentAddress : env.id.verify C.blake3 env.ciphertext = true
  senderSig : SenderSigned C env
  address : env.toTag.resolvesToKey ourIk = true

/-- The envelope passes every check that comes before decryption. -/
structure PassesGate (C : Primitives) (env : Envelope) (ctx : RecipientCtx) : Prop
    extends SoundFor C env ctx.ourIk where
  sender : ctx.senderIsKnown = true ∨ env.challenge.isSome = true

/-- The checks before decryption on their own. The answer is whether to go on; otherwise the message
is deferred. -/
def gate (C : Primitives) (env : Envelope) (ctx : RecipientCtx) : Except MoteError Bool :=
  if env.v ≠ moteVersion then throw (.unknownVersion env.v)
  else if !env.suite.moteSupported then throw (.unsupportedSuite env.suite.asU8)
  else if !env.id.verify C.blake3 env.ciphertext then throw .badContentAddress
  else do
    let sig ← okOr env.senderSig .badSignature
    let eph ← okOr env.senderEph .missingSenderKey
    verifySigForSuite C env.suite eph envelopeSenderDs env.senderSigBody sig
    if !env.toTag.resolvesToKey ctx.ourIk then throw .notForUs
    else return !(!ctx.senderIsKnown && env.challenge.isNone)

/-- Opening and authenticating the payload. -/
def opened (C : Primitives) (sealer : PayloadSeal m) (env : Envelope) (ctx : RecipientCtx) :
    ExceptT MoteError m Outcome := do
  let aad := aadBytes env.suite env.kind env.ts env.toTag.detCbor
  let pt ← ExceptT.mk (sealer.open ctx.sealSecret aad env.ciphertext)
  checked (authenticate C env pt)

theorem okOr_eq_ok {o : Option α} {e : MoteError} {a : α} : okOr o e = .ok a ↔ o = some a := by
  cases o <;> simp [okOr]

theorem gate_eq_ok {env : Envelope} {ctx : RecipientCtx} {pass : Bool} :
    gate C env ctx = .ok pass ↔
      SoundFor C env ctx.ourIk ∧ (ctx.senderIsKnown || env.challenge.isSome) = pass := by
  have hsender : (!(!ctx.senderIsKnown && env.challenge.isNone)) =
      (ctx.senderIsKnown || env.challenge.isSome) := by
    cases ctx.senderIsKnown <;> cases env.challenge <;> rfl
  unfold gate
  rw [hsender]
  constructor
  · intro h
    obtain ⟨hversion, h⟩ := except_guard_eq_ok.mp h
    obtain ⟨hsuite, h⟩ := except_guard_eq_ok.mp h
    obtain ⟨hid, h⟩ := except_guard_eq_ok.mp h
    obtain ⟨sig, hsig, h⟩ := except_bind_eq_ok.mp h
    obtain ⟨eph, heph, h⟩ := except_bind_eq_ok.mp h
    obtain ⟨hverify, h⟩ := except_check_bind_eq_ok.mp h
    obtain ⟨haddress, h⟩ := except_guard_eq_ok.mp h
    refine ⟨?_, Except.ok.inj h⟩
    constructor
    · exact not_not.mp hversion
    · simpa using hsuite
    · simpa using hid
    · exact ⟨sig, eph, okOr_eq_ok.mp hsig, okOr_eq_ok.mp heph, hverify⟩
    · simpa using haddress
  · rintro ⟨h, rfl⟩
    obtain ⟨sig, eph, hsig, heph, hverify⟩ := h.senderSig
    refine except_guard_eq_ok.mpr ⟨not_not.mpr h.version, ?_⟩
    refine except_guard_eq_ok.mpr ⟨by simp [h.suite], ?_⟩
    refine except_guard_eq_ok.mpr ⟨by simp [h.contentAddress], ?_⟩
    refine except_bind_eq_ok.mpr ⟨sig, okOr_eq_ok.mpr hsig, ?_⟩
    refine except_bind_eq_ok.mpr ⟨eph, okOr_eq_ok.mpr heph, ?_⟩
    refine except_check_bind_eq_ok.mpr ⟨hverify, ?_⟩
    exact except_guard_eq_ok.mpr ⟨by simp [h.address], rfl⟩

theorem gate_eq_true {env : Envelope} {ctx : RecipientCtx} :
    gate C env ctx = .ok true ↔ PassesGate C env ctx := by
  rw [gate_eq_ok, Bool.or_eq_true]
  constructor
  · rintro ⟨hsound, hsender⟩
    exact ⟨hsound, hsender⟩
  · intro h
    exact ⟨h.toSoundFor, h.sender⟩

/-- A payload is accepted when it decodes, its signature covers the received context, and a vouch
names its sender. -/
theorem authenticate_eq_accepted {env : Envelope} {pt : Bytes} {p : Payload} :
    authenticate C env pt = .ok (.accepted p) ↔
      Payload.fromDetCbor pt = .ok p ∧
        verifySigForSuite C env.suite p.sender payloadSigDs
          (p.payloadHash C.blake3 env.kind env.ts env.toTag.detCbor).val p.sig = .ok () ∧
        ∀ v, env.challenge = some (.vouch v) → p.sender = v.subject := by
  unfold authenticate
  rw [except_bind_eq_ok]
  constructor
  · rintro ⟨q, hq, h⟩
    have hdecoded := except_mapError_eq_ok.mp hq
    dsimp only at h
    split_ifs at h with hsig hunbound
    have hverify := isOk_iff.mp (by simpa using hsig)
    split at h
    · rename_i v hv
      split_ifs at h with hsubject
      obtain rfl : q = p := Outcome.accepted.inj (Except.ok.inj h)
      refine ⟨hdecoded, hverify, ?_⟩
      intro w hw
      rw [hv] at hw
      have hvw := ChallengeResponse.vouch.inj (Option.some.inj hw)
      rw [← hvw]
      exact not_not.mp hsubject
    · rename_i hno
      obtain rfl : q = p := Outcome.accepted.inj (Except.ok.inj h)
      exact ⟨hdecoded, hverify, fun v hv => absurd hv (hno v)⟩
  · rintro ⟨hdecoded, hverify, hsubject⟩
    refine ⟨p, except_mapError_eq_ok.mpr hdecoded, ?_⟩
    dsimp only
    rw [if_neg (by simp [hverify, Except.isOk, Except.toBool])]
    split
    · rename_i v hv
      rw [if_neg (not_not.mpr (hsubject v hv))]
      rfl
    · rfl

theorem validate_eq_gate (sealer : PayloadSeal m) (env : Envelope) (ctx : RecipientCtx) :
    validate C sealer env ctx =
      (checked (gate C env ctx) >>= fun pass =>
        if pass then opened C sealer env ctx else pure .deferred) := by
  unfold validate gate
  refine guard_eq_checked_bind (guard_eq_checked_bind (guard_eq_checked_bind ?_))
  simp only [checked_bind, bind_assoc]
  refine bind_congr fun sig => bind_congr fun eph => bind_congr fun _ => ?_
  refine guard_eq_checked_bind (Eq.trans ?_ (checked_bind_ok _ _).symm)
  cases !ctx.senderIsKnown && env.challenge.isNone with
  | false => rfl
  | true => rfl

/-- Past the gate, the payload is opened and authenticated. -/
theorem validate_of_passesGate {env : Envelope} {ctx : RecipientCtx} (h : PassesGate C env ctx)
    (sealer : PayloadSeal m) : validate C sealer env ctx = opened C sealer env ctx := by
  rw [validate_eq_gate, gate_eq_true.mpr h, checked_bind_ok]
  rfl

/-- Short of the gate, the result is fixed before the sealer and its secret are looked at. -/
theorem validate_of_not_passesGate {env : Envelope} {ctx : RecipientCtx}
    (h : ¬ PassesGate C env ctx) (sealer : PayloadSeal m) :
    validate C sealer env ctx = checked ((gate C env ctx).map fun _ => .deferred) := by
  rw [validate_eq_gate]
  cases hgate : gate C env ctx with
  | error e => exact checked_bind_error e _
  | ok pass =>
    cases pass with
    | false => exact checked_bind_ok false _
    | true => exact absurd (gate_eq_true.mp hgate) h

/-- A sound message from a cold sender without a challenge is put aside. -/
theorem validate_of_cold {env : Envelope} {ctx : RecipientCtx} (h : SoundFor C env ctx.ourIk)
    (hknown : ctx.senderIsKnown = false) (hchallenge : env.challenge = none)
    (sealer : PayloadSeal m) : validate C sealer env ctx = pure .deferred := by
  have hsender : (ctx.senderIsKnown || env.challenge.isSome) = false := by
    rw [hknown, hchallenge]
    rfl
  rw [validate_eq_gate, gate_eq_ok.mpr ⟨h, hsender⟩, checked_bind_ok]
  rfl

end Gate

section Recording

/-- One call of `open`. -/
structure OpenCall where
  secret : Bytes
  aad : Bytes
  ciphertext : Bytes

/-- A sealer that also writes down how it is asked to open. -/
def recording (sealer : PayloadSeal Id) : PayloadSeal (StateM (List OpenCall)) where
  «seal» recipientPub aad plaintext := pure (sealer.seal recipientPub aad plaintext)
  «open» secret aad ciphertext := do
    modify fun calls => calls ++ [{ secret, aad, ciphertext }]
    return sealer.open secret aad ciphertext

/-- The calls of `open` in the course of a validation. -/
def openCalls (C : Primitives) (sealer : PayloadSeal Id) (env : Envelope) (ctx : RecipientCtx) :
    List OpenCall :=
  ((validate C (recording sealer) env ctx).run.run []).2

theorem passesGate_of_openCalls {C : Primitives} {sealer : PayloadSeal Id} {env : Envelope}
    {ctx : RecipientCtx} (h : openCalls C sealer env ctx ≠ []) : PassesGate C env ctx := by
  by_contra hgate
  unfold openCalls at h
  rw [validate_of_not_passesGate hgate] at h
  exact h rfl

end Recording

theorem DeliveryTag.resolvesToKey_iff {t : DeliveryTag} {ik : Bytes} :
    t.resolvesToKey ik = true ↔ t = .key ik := by
  cases t <;> simp [resolvesToKey]

/-- A message that fails a check before decryption, or is deferred there, is answered without a
look at the sealer or its secret. Whatever is opened has a matching content address and a verified
ephemeral signature, is addressed to us, and comes from a known sender or with a challenge. -/
theorem decryption_gate (C : Primitives) (env : Envelope) (ctx : RecipientCtx) :
    (¬ PassesGate C env ctx → ∃ r : Except MoteError Outcome,
      ∀ (m : Type → Type) [Monad m] [LawfulMonad m] (sealer : PayloadSeal m) (secret : Bytes),
        validate C sealer env { ctx with sealSecret := secret } = checked r) ∧
    ∀ sealer : PayloadSeal Id, openCalls C sealer env ctx ≠ [] →
      env.id.verify C.blake3 env.ciphertext = true ∧ SenderSigned C env ∧
        env.toTag = .key ctx.ourIk ∧ (ctx.senderIsKnown = true ∨ env.challenge.isSome = true) := by
  constructor
  · intro hgate
    refine ⟨(gate C env ctx).map fun _ => .deferred, ?_⟩
    intro m _ _ sealer secret
    have hgate' : ¬ PassesGate C env { ctx with sealSecret := secret } := by
      rw [← gate_eq_true] at hgate ⊢
      exact hgate
    exact validate_of_not_passesGate hgate' sealer
  · intro sealer hcalls
    have hgate := passesGate_of_openCalls hcalls
    have haddress := DeliveryTag.resolvesToKey_iff.mp hgate.address
    exact ⟨hgate.contentAddress, hgate.senderSig, haddress, hgate.sender⟩

section Sample

def senderSeed : IdentityKey := ⟨List.replicate 32 1, rfl⟩

def ephemeralSeed : IdentityKey := ⟨List.replicate 32 2, rfl⟩

def senderKey : Bytes := toBe 32 0x8a88e3dd7409f195fd52db2d3cba5d72ca6709bf1d94121bf3748801b40f6f5c

def ephemeralKey : Bytes :=
  toBe 32 0x8139770ea87d175f56a35466c34c7ecccb8d8a91b4ee37a25df60f5b8fc9b394

def recipientKey : Bytes :=
  toBe 32 0xed4928c628d1c2c6eae90338905995612959273a5c63f93636c14614ac8737d1

/-- A short note with two extension headers, out of order. -/
def note : Payload where
  sender := senderKey
  sig := toBe 32 0x54f694e8f0d6f80d2b002d99a925eee108df0b5004f80b85e49fafe9afe332ae ++
    toBe 32 0x77d4ce60741c67d8e88471dbab8bf3e8f08127706831fc488b659f55ba68f00c
  headers :=
    { thread := none, subject := none, mime := none, cc := [], ext := [("b", .u64 2), ("a", .u64 1)],
      sensitive := none }
  body := utf8 "hi"
  refs := []
  attach := []
  expires := none

def noteTs : UInt64 := 1700000000000

/-- The note in an envelope; its ciphertext is the plaintext. -/
def noteEnvelope : Envelope where
  v := moteVersion
  suite := .classical
  id := ⟨mhBlake3 :: toBe 32 0x5d8614b22e3b22614215ddce628ac5e974dbd098f88017e7bbbc1f6fb6bb01f2⟩
  toTag := .key recipientKey
  epoch := none
  ts := noteTs
  kind := .mail
  keypkg := none
  challenge := none
  ciphertext := note.detCbor
  senderSig := some (toBe 32 0x948d31035db3ee91804fda4bd2e9786a849adfa6bf06b7da335a711899e8b04b ++
    toBe 32 0x204b299707e21be62d31973465aeea66dfb0b2ba183b0aa5d74624049248c106)
  senderEph := some ephemeralKey

/-- BLAKE3 on the two inputs that the note's way takes. -/
def noteBlake3 (b : Bytes) : Digest :=
  if b = note.hashedBytes .mail noteTs (DeliveryTag.key recipientKey).detCbor then
    ⟨toBe 32 0x3a10739c454944b73e11f1294c38a8dce9426941a423048f4f4e56275c6aee65, length_toBe _ _⟩
  else if b = note.detCbor then
    ⟨toBe 32 0x5d8614b22e3b22614215ddce628ac5e974dbd098f88017e7bbbc1f6fb6bb01f2, length_toBe _ _⟩
  else ⟨toBe 32 0, length_toBe _ _⟩

/-- The signatures on the note and on its envelope. -/
def noteSignature (pk msg : Bytes) : Bytes :=
  if pk = senderKey ∧ msg = payloadSigDs ++
      toBe 32 0x3a10739c454944b73e11f1294c38a8dce9426941a423048f4f4e56275c6aee65 then note.sig
  else if pk = ephemeralKey ∧ msg = envelopeSenderDs ++ noteEnvelope.senderSigBody then
    noteEnvelope.senderSig.getD []
  else toBe 64 0

def noteKey (ik : IdentityKey) : Bytes :=
  if ik = senderSeed then senderKey else if ik = ephemeralSeed then ephemeralKey else ik.val

/-- Ed25519 as far as a table of signatures tells it. -/
def signedBy (signature : Bytes → Bytes → Bytes) : Ed25519 where
  publicKey := noteKey
  sign ik msg := signature (noteKey ik) msg
  isPoint _ := true
  verifyStrict pk msg sig := sig = signature pk msg

/-- A stand-in without signatures of its own; the note has none of this kind. -/
def noteMlDsa65 : MlDsa65 where
  SigningKey := Unit
  verifyingKey _ := List.replicate mldsa65PkLen 0
  sign _ _ := List.replicate mldsa65SigLen 0
  isSignature _ := true
  verify _ _ _ := true

def notePrimitives : Primitives := ⟨noteBlake3, signedBy noteSignature, noteMlDsa65⟩

/-- A sealer whose ciphertext is the plaintext. -/
def transparent : PayloadSeal Id where
  «seal» _ _ plaintext := .ok plaintext
  «open» _ _ ciphertext := .ok ciphertext

/-- The note's envelope is opened, and with another version it is not. -/
theorem decryption_gate_note :
    (SenderSigned notePrimitives noteEnvelope ∧
      ∃ call, openCalls notePrimitives transparent noteEnvelope ⟨recipientKey, [], true⟩ = [call]) ∧
    ∃ r, ∀ secret, validate notePrimitives transparent { noteEnvelope with v := 1 }
      ⟨recipientKey, secret, true⟩ = checked r := by
  constructor
  · have hlength : (openCalls notePrimitives transparent noteEnvelope
        ⟨recipientKey, [], true⟩).length = 1 := by
      decide
    have hone := List.length_eq_one_iff.mp hlength
    have hne : openCalls notePrimitives transparent noteEnvelope ⟨recipientKey, [], true⟩ ≠ [] := by
      intro hnil
      rw [hnil] at hlength
      cases hlength
    have hgate := (decryption_gate notePrimitives noteEnvelope ⟨recipientKey, [], true⟩).2
      transparent hne
    exact ⟨hgate.2.1, hone⟩
  · have hversion : ¬ PassesGate notePrimitives { noteEnvelope with v := 1 }
        ⟨recipientKey, [], true⟩ := by
      intro hgate
      cases hgate.version
    obtain ⟨r, hr⟩ := (decryption_gate notePrimitives { noteEnvelope with v := 1 }
      ⟨recipientKey, [], true⟩).1 hversion
    exact ⟨r, fun secret => hr Id transparent secret⟩

end Sample
end Dmtap.Mote
