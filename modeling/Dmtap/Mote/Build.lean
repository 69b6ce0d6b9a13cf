import Dmtap.Mote.Validate

/-! Building messages, and that what is built is delivered. -/
namespace Dmtap.Mote
open Dmtap.Lib Dmtap.Cbor

section Tiers

def inlineTierMax : UInt64 := 64 * 1024

def attachedTierMax : UInt64 := 25 * 1024 * 1024

/-- How a file of some size travels. -/
inductive DeliveryTier
  | inline
  | attached
  | referenced
  deriving DecidableEq, Repr

def DeliveryTier.classify (size : UInt64) : DeliveryTier :=
  if size ≤ inlineTierMax then inline
  else if size ≤ attachedTierMax then attached
  else referenced

def Durability.validate (d : Durability) : Except MoteError Unit :=
  match d.class with
  | .unknown _ => .error .fileManifestInvalid
  | .clusterReplicated =>
    match d.replicas with
    | some n => if 1 ≤ n then .ok () else .error .fileManifestInvalid
    | none => .error .fileManifestInvalid
  | .pinned =>
    match d.retention with
    | some _ => .ok ()
    | none => .error .fileManifestInvalid
  | .originHold | .recipientPinned => .ok ()

def ManifestRef.validateDurability (m : ManifestRef) : Except MoteError Unit :=
  match m.durability, DeliveryTier.classify m.size with
  | none, .referenced => .error .fileManifestInvalid
  | some d, _ => d.validate
  | none, _ => .ok ()

/-- A file is inline or referenced as its size asks, and never both or neither. -/
def Attachment.checkDeliveryTier (a : Attachment) : Except MoteError Unit :=
  match a.inline, a.manifest with
  | some bytes, none =>
    if DeliveryTier.classify a.size ≠ .inline then .error .sizeTierViolation
    else if UInt64.ofNat bytes.length ≠ a.size then .error .sizeTierViolation
    else .ok ()
  | none, some m =>
    if DeliveryTier.classify a.size = .inline then .error .sizeTierViolation
    else m.validateDurability
  | some _, some _ => .error .sizeTierViolation
  | none, none => .error .sizeTierViolation

theorem Durability.decoded_of_validate {d : Durability} (h : d.validate = .ok ()) :
    d.class.Decoded := by
  unfold validate at h
  cases hclass : d.class with
  | unknown b =>
    rw [hclass] at h
    cases h
  | _ => decide

/-- A file that may travel names no unknown durability class. -/
theorem Attachment.classDecoded_of_checkDeliveryTier {a : Attachment}
    (h : a.checkDeliveryTier = .ok ()) : a.ClassDecoded := by
  intro m hm d hd
  have hmanifest : a.manifest = some m := hm
  have hdurability : m.durability = some d := hd
  have hvalid : d.validate = .ok () := by
    unfold checkDeliveryTier at h
    rw [hmanifest] at h
    cases hinline : a.inline with
    | some bytes =>
      rw [hinline] at h
      cases h
    | none =>
      rw [hinline] at h
      obtain ⟨-, hvalid⟩ := except_guard_eq_ok.mp h
      rw [ManifestRef.validateDurability, hdurability] at hvalid
      exact hvalid
  exact Durability.decoded_of_validate hvalid

end Tiers

/-- What a sender supplies. -/
structure MoteDraft where
  kind : Kind
  ts : UInt64
  headers : Headers
  body : Bytes
  refs : List ContentId
  attach : List Attachment
  expires : Option UInt64
  epoch : Option Bytes
  keypkg : Option KeyPackageRef
  challenge : Option ChallengeResponse

/-- A key to sign with: its public half and its signatures. -/
structure Signer where
  publicKey : Bytes
  signDomain : Bytes → Bytes → Bytes

/-- The draft as a payload, not yet signed. -/
def MoteDraft.payload (draft : MoteDraft) (sender : Bytes) : Payload where
  sender
  sig := []
  headers := draft.headers
  body := draft.body
  refs := draft.refs
  attach := draft.attach
  expires := draft.expires

section Build
variable (C : Primitives)

/-- The payload with the sender's signature over it and its context. -/
def MoteDraft.signedPayload (draft : MoteDraft) (sender : Signer) (toTag : DeliveryTag) : Payload :=
  let payload := draft.payload sender.publicKey
  let ph := (payload.payloadHash C.blake3 draft.kind draft.ts toTag.detCbor).val
  { payload with sig := sender.signDomain payloadSigDs ph }

/-- The envelope around a ciphertext, not yet signed. -/
def MoteDraft.envelope (draft : MoteDraft) (suite : Suite) (ephemeral : Signer) (toTag : DeliveryTag)
    (ciphertext : Bytes) : Envelope where
  v := moteVersion
  suite
  id := ContentId.of C.blake3 ciphertext
  toTag
  epoch := draft.epoch
  ts := draft.ts
  kind := draft.kind
  keypkg := draft.keypkg
  challenge := draft.challenge
  ciphertext
  senderSig := none
  senderEph := some ephemeral.publicKey

/-- The envelope with the ephemeral key's signature over it. -/
def MoteDraft.signedEnvelope (draft : MoteDraft) (suite : Suite) (ephemeral : Signer)
    (toTag : DeliveryTag) (ciphertext : Bytes) : Envelope :=
  let env := draft.envelope C suite ephemeral toTag ciphertext
  { env with senderSig := some (ephemeral.signDomain envelopeSenderDs env.senderSigBody) }

/-- The builders' common body: check the attachments, sign, seal, address, sign the envelope. -/
def buildWith {m : Type → Type} [Monad m] (suite : Suite) (sealer : PayloadSeal m)
    (sender ephemeral : Signer) (recipientIk recipientSealPub : Bytes) (draft : MoteDraft) :
    ExceptT MoteError m Envelope := do
  let toTag := DeliveryTag.key recipientIk
  checked (draft.attach.forM Attachment.checkDeliveryTier)
  let payload := draft.signedPayload C sender toTag
  let aad := aadBytes suite draft.kind draft.ts toTag.detCbor
  let ciphertext ← ExceptT.mk (sealer.seal recipientSealPub aad payload.detCbor)
  return draft.signedEnvelope C suite ephemeral toTag ciphertext

def classicalSigner (ik : IdentityKey) : Signer :=
  ⟨C.ed25519.publicKey ik, C.ed25519.signDomain ik⟩

def hybridSigner (k : HybridSigningKey C.mlDsa65) : Signer :=
  ⟨k.publicKey C.ed25519, k.signDomain C.ed25519⟩

def buildMote {m : Type → Type} [Monad m] (sealer : PayloadSeal m)
    (senderIk ephemeral : IdentityKey) (recipientIk recipientSealPub : Bytes) (draft : MoteDraft) :
    ExceptT MoteError m Envelope :=
  buildWith C .classical sealer (classicalSigner C senderIk) (classicalSigner C ephemeral)
    recipientIk recipientSealPub draft

def buildMoteHybrid {m : Type → Type} [Monad m] (sealer : PayloadSeal m)
    (senderHybrid ephemeralHybrid : HybridSigningKey C.mlDsa65)
    (recipientIk recipientSealPub : Bytes) (draft : MoteDraft) : ExceptT MoteError m Envelope :=
  buildWith C .pqHybrid sealer (hybridSigner C senderHybrid) (hybridSigner C ephemeralHybrid)
    recipientIk recipientSealPub draft

end Build

section Delivery
variable {C : Primitives} {suite : Suite} {sealer : PayloadSeal Id} {sender ephemeral : Signer}
  {recipientIk sealPub sealSecret : Bytes} {draft : MoteDraft} {env : Envelope}

/-- Whatever the signer signs verifies under its public key. -/
def Signer.Verifies (C : Primitives) (suite : Suite) (s : Signer) : Prop :=
  ∀ domain msg, verifySigForSuite C suite s.publicKey domain msg (s.signDomain domain msg) = .ok ()

theorem classicalSigner_verifies (hE : C.ed25519.Lawful) (ik : IdentityKey) :
    (classicalSigner C ik).Verifies C .classical := by
  intro domain msg
  have h := hE.verifyDomain_signDomain ik domain msg
  exact except_mapError_eq_ok.mpr h

theorem hybridSigner_verifies (hE : C.ed25519.Lawful) (hD : C.mlDsa65.Lawful)
    (k : HybridSigningKey C.mlDsa65) : (hybridSigner C k).Verifies C .pqHybrid := by
  intro domain msg
  have h := verifyHybridDomain_signDomain hE hD k domain msg
  exact except_mapError_eq_ok.mpr h

/-- The secret opens whatever is sealed to the public key. -/
def OpensFor (sealer : PayloadSeal Id) (sealPub sealSecret : Bytes) : Prop :=
  ∀ aad pt c, sealer.seal sealPub aad pt = .ok c → sealer.open sealSecret aad c = .ok pt

/-- What a builder that returns has done. -/
theorem buildWith_eq_pure
    (h : buildWith C suite sealer sender ephemeral recipientIk sealPub draft = pure env) :
    (∀ a ∈ draft.attach, a.checkDeliveryTier = .ok ()) ∧
      ∃ c, sealer.seal sealPub
          (aadBytes suite draft.kind draft.ts (DeliveryTag.key recipientIk).detCbor)
          (draft.signedPayload C sender (.key recipientIk)).detCbor = .ok c ∧
        env = draft.signedEnvelope C suite ephemeral (.key recipientIk) c := by
  obtain ⟨u, hcheck, h⟩ := exceptT_bind_eq_pure.mp h
  obtain ⟨c, hc, h⟩ := exceptT_bind_eq_pure.mp h
  exact ⟨forM_eq_ok.mp hcheck, c, hc, (Except.ok.inj h).symm⟩

/-- What a builder returns is sound for the recipient it was built for. -/
theorem soundFor_of_buildWith (hsuite : suite.moteSupported = true)
    (hephemeral : ephemeral.Verifies C suite)
    (h : buildWith C suite sealer sender ephemeral recipientIk sealPub draft = pure env) :
    SoundFor C env recipientIk := by
  obtain ⟨-, c, -, rfl⟩ := buildWith_eq_pure h
  constructor
  · rfl
  · exact hsuite
  · exact ContentId.verify_of C.blake3 c
  · exact ⟨_, _, rfl, rfl, hephemeral _ _⟩
  · exact DeliveryTag.resolvesToKey_iff.mpr rfl

/-- What is asked of a draft whose payload is `p`. -/
structure Deliverable (draft : MoteDraft) (p : Payload) : Prop where
  ext : (Cv.textMap p.headers.ext).KeysDistinct
  depth : (Cv.map (Payload.fields true p)).depth ≤ maxNestingDepth
  lengths : (Cv.map (Payload.fields true p)).LengthsFit
  vouch : ∀ v, draft.challenge = some (.vouch v) → v.subject = p.sender

theorem Payload.lengthsFit_ext {p : Payload} (h : (Cv.map (fields true p)).LengthsFit) :
    (Cv.textMap p.headers.ext).LengthsFit := by
  cases hext : p.headers.ext with
  | nil => decide
  | cons e ext =>
    have hheaders : ((3, p.headers.toCv) : UInt64 × Cv) ∈ fields true p := by simp [fields]
    have hfit := Cv.lengthsFit_map.mp ((Cv.lengthsFit_map.mp h).2 _ hheaders)
    have hmem : ((5, .textMap (e :: ext)) : UInt64 × Cv) ∈ p.headers.fields := by
      simp [Headers.fields, Headers.extFields, hext]
    exact hfit.2 _ hmem

/-- The signature binds what the recipient hashes again from the decoded payload. -/
theorem payloadHash_canonical {p : Payload} (h : Deliverable draft p) (kind : Kind) (ts : UInt64)
    (toCbor : Bytes) :
    p.canonical.payloadHash C.blake3 kind ts toCbor = p.payloadHash C.blake3 kind ts toCbor := by
  unfold Payload.payloadHash Payload.hashedBytes
  rw [Payload.signingBody_canonical (Payload.lengthsFit_ext h.lengths) h.ext]

/-- The recipient of a built message authenticates its payload. -/
theorem authenticate_built (hsender : sender.Verifies C suite)
    (hdraft : Deliverable draft (draft.signedPayload C sender (.key recipientIk)))
    (h : buildWith C suite sealer sender ephemeral recipientIk sealPub draft = pure env) :
    authenticate C env (draft.signedPayload C sender (.key recipientIk)).detCbor =
      .ok (.accepted (draft.signedPayload C sender (.key recipientIk)).canonical) := by
  obtain ⟨htiers, c, -, rfl⟩ := buildWith_eq_pure h
  have hclasses : (draft.signedPayload C sender (.key recipientIk)).ClassesDecoded :=
    fun a ha => Attachment.classDecoded_of_checkDeliveryTier (htiers a ha)
  have hdecoded := Payload.fromDetCbor_detCbor hdraft.lengths hdraft.ext hdraft.depth hclasses
  have hhash := payloadHash_canonical (C := C) hdraft draft.kind draft.ts
    (DeliveryTag.key recipientIk).detCbor
  refine authenticate_eq_accepted.mpr ⟨hdecoded, ?_, ?_⟩
  · change verifySigForSuite C suite sender.publicKey payloadSigDs
      ((draft.signedPayload C sender (.key recipientIk)).canonical.payloadHash C.blake3 draft.kind
        draft.ts (DeliveryTag.key recipientIk).detCbor).val
      (draft.signedPayload C sender (.key recipientIk)).sig = .ok ()
    rw [hhash]
    exact hsender _ _
  · intro v hv
    exact (hdraft.vouch v hv).symm

/-- The envelope travels, and the recipient gets the payload `p` as soon as the sender is known or
a challenge comes with it. -/
structure Delivered (C : Primitives) (sealer : PayloadSeal Id) (recipientIk sealSecret : Bytes)
    (p : Payload) (env : Envelope) : Prop where
  decoded : Envelope.fromDetCbor env.detCbor = .ok env
  accepted : ∀ known, known = true ∨ env.challenge.isSome = true →
    validate C sealer env ⟨recipientIk, sealSecret, known⟩ = pure (.accepted p)
  deferred : env.challenge = none →
    validate C sealer env ⟨recipientIk, sealSecret, false⟩ = pure .deferred

/-- Whatever the suite, a built message is delivered. -/
theorem delivered_of_buildWith (hsuite : suite.moteSupported = true)
    (hsender : sender.Verifies C suite) (hephemeral : ephemeral.Verifies C suite)
    (hseal : OpensFor sealer sealPub sealSecret)
    (hdraft : Deliverable draft (draft.signedPayload C sender (.key recipientIk)))
    (hfit : env.toCv.LengthsFit)
    (h : buildWith C suite sealer sender ephemeral recipientIk sealPub draft = pure env) :
    Delivered C sealer recipientIk sealSecret
      (draft.signedPayload C sender (.key recipientIk)).canonical env := by
  have hsound := soundFor_of_buildWith hsuite hephemeral h
  have hauth := authenticate_built hsender hdraft h
  constructor
  · exact Envelope.fromDetCbor_detCbor hfit
  · intro known hknown
    have hgate : PassesGate C env ⟨recipientIk, sealSecret, known⟩ := ⟨hsound, hknown⟩
    obtain ⟨-, c, hc, rfl⟩ := buildWith_eq_pure h
    have hopen := hseal _ _ _ hc
    rw [validate_of_passesGate hgate]
    exact exceptT_bind_eq_pure.mpr ⟨_, hopen, hauth⟩
  · intro hchallenge
    exact validate_of_cold hsound rfl hchallenge sealer

/-- End-to-end delivery for both builders. With keys distinct at every level of the extension
headers, the recipient gets the built payload in canonical form. -/
theorem built_mote_delivered (hE : C.ed25519.Lawful) (hD : C.mlDsa65.Lawful)
    (hseal : OpensFor sealer sealPub sealSecret) (hfit : env.toCv.LengthsFit) :
    (∀ senderIk ephemeral : IdentityKey,
      buildMote C sealer senderIk ephemeral recipientIk sealPub draft = pure env →
      Deliverable draft (draft.signedPayload C (classicalSigner C senderIk) (.key recipientIk)) →
      Delivered C sealer recipientIk sealSecret
        (draft.signedPayload C (classicalSigner C senderIk) (.key recipientIk)).canonical env) ∧
    ∀ senderHybrid ephemeralHybrid : HybridSigningKey C.mlDsa65,
      buildMoteHybrid C sealer senderHybrid ephemeralHybrid recipientIk sealPub draft = pure env →
      Deliverable draft (draft.signedPayload C (hybridSigner C senderHybrid) (.key recipientIk)) →
      Delivered C sealer recipientIk sealSecret
        (draft.signedPayload C (hybridSigner C senderHybrid) (.key recipientIk)).canonical env := by
  constructor
  · intro senderIk ephemeral h hdraft
    have hsender := classicalSigner_verifies hE senderIk
    have hephemeral := classicalSigner_verifies hE ephemeral
    exact delivered_of_buildWith rfl hsender hephemeral hseal hdraft hfit h
  · intro senderHybrid ephemeralHybrid h hdraft
    have hsender := hybridSigner_verifies hE hD senderHybrid
    have hephemeral := hybridSigner_verifies hE hD ephemeralHybrid
    exact delivered_of_buildWith rfl hsender hephemeral hseal hdraft hfit h

end Delivery

section Sample

theorem signedBy_lawful {signature : Bytes → Bytes → Bytes}
    (h : ∀ pk msg, (signature pk msg).length = 64) : (signedBy signature).Lawful := by
  constructor
  · intro ik
    change (noteKey ik).length = 32
    unfold noteKey
    split_ifs
    · rfl
    · rfl
    · exact ik.2
  · intro ik
    rfl
  · intro ik msg
    exact h _ _
  · intro ik msg
    exact decide_eq_true rfl

theorem noteMlDsa65_lawful : noteMlDsa65.Lawful := by
  constructor
  · intro k
    exact List.length_replicate
  · intro k msg
    exact List.length_replicate
  · intro k msg
    rfl
  · intro k msg
    rfl

theorem transparent_opensFor : OpensFor transparent [] [] := by
  intro aad pt c h
  exact congrArg Except.ok (Except.ok.inj h).symm

theorem length_noteSignature (pk msg : Bytes) : (noteSignature pk msg).length = 64 := by
  unfold noteSignature
  split_ifs
  · rfl
  · rfl
  · exact length_toBe _ _

/-- The draft of a payload sent as mail at `noteTs`. -/
def draftOf (p : Payload) : MoteDraft where
  kind := .mail
  ts := noteTs
  headers := p.headers
  body := p.body
  refs := p.refs
  attach := p.attach
  expires := p.expires
  epoch := none
  keypkg := none
  challenge := none

theorem buildWith_transparent (C : Primitives) (suite : Suite) (sender ephemeral : Signer)
    (recipientIk : Bytes) (draft : MoteDraft)
    (hattach : draft.attach.forM Attachment.checkDeliveryTier = .ok ()) :
    buildWith C suite transparent sender ephemeral recipientIk [] draft =
      pure (draft.signedEnvelope C suite ephemeral (.key recipientIk)
        (draft.signedPayload C sender (.key recipientIk)).detCbor) := by
  unfold buildWith
  rw [hattach]
  rfl

/-- A payload's draft is signed into the payload when the signer makes its signature. -/
theorem signedPayload_draftOf {C : Primitives} {s : Signer} {p : Payload}
    (hkey : s.publicKey = p.sender)
    (hsig : ((draftOf p).signedPayload C s (.key recipientKey)).sig = p.sig) :
    (draftOf p).signedPayload C s (.key recipientKey) = p := by
  calc (draftOf p).signedPayload C s (.key recipientKey)
      = { p with
          sender := s.publicKey
          sig := ((draftOf p).signedPayload C s (.key recipientKey)).sig } := rfl
    _ = p := by rw [hsig, hkey]

theorem signedPayload_note : (draftOf note).signedPayload notePrimitives
    (classicalSigner notePrimitives senderSeed) (.key recipientKey) = note :=
  signedPayload_draftOf rfl (by decide)

theorem buildMote_note :
    buildMote notePrimitives transparent senderSeed ephemeralSeed recipientKey [] (draftOf note) =
      pure noteEnvelope := by
  have hbuild := buildWith_transparent notePrimitives .classical
    (classicalSigner notePrimitives senderSeed) (classicalSigner notePrimitives ephemeralSeed)
    recipientKey (draftOf note) rfl
  have henvelope : (draftOf note).signedEnvelope notePrimitives .classical
      (classicalSigner notePrimitives ephemeralSeed) (.key recipientKey) note.detCbor =
      noteEnvelope := by
    rw [MoteDraft.signedEnvelope, Envelope.mk.injEq]
    refine ⟨rfl, rfl, ?_, rfl, rfl, rfl, rfl, rfl, rfl, rfl, ?_, rfl⟩
    · decide
    · decide
  rw [signedPayload_note, henvelope] at hbuild
  exact hbuild

theorem deliverable_note : Deliverable (draftOf note) note := by
  constructor
  · decide
  · decide
  · decide
  · intro v hv
    cases hv

theorem built_mote_delivered_note :
    buildMote notePrimitives transparent senderSeed ephemeralSeed recipientKey [] (draftOf note) =
        pure noteEnvelope ∧
      Delivered notePrimitives transparent recipientKey [] note.canonical noteEnvelope ∧
      note.canonical.headers.ext = [("a", .u64 1), ("b", .u64 2)] := by
  have hdraft : Deliverable (draftOf note) ((draftOf note).signedPayload notePrimitives
      (classicalSigner notePrimitives senderSeed) (.key recipientKey)) := by
    rw [signedPayload_note]
    exact deliverable_note
  have hdelivered := (built_mote_delivered (signedBy_lawful length_noteSignature)
    noteMlDsa65_lawful transparent_opensFor (by decide +kernel)).1 senderSeed ephemeralSeed
    buildMote_note hdraft
  rw [signedPayload_note] at hdelivered
  exact ⟨buildMote_note, hdelivered, by decide⟩

/-- The note with an extension header that holds a map with one key twice. -/
def tangled : Payload :=
  { note with
    sig := toBe 32 0x30af203d18867503b01a29eb2c190b3599dd172973a28578faea49d93c828f3d ++
      toBe 32 0xcdea324da485c65c46f0ace937b095a367ff638f1814eaedadabe9386cb2ae05
    headers := { note.headers with ext := [("a", .map [(1, .u64 0), (1, .u64 1)])] } }

def tangledEnvelope : Envelope :=
  { noteEnvelope with
    id := ⟨mhBlake3 :: toBe 32 0x2ded3530b7af48fcd062bbb9c8f84841464ef48737a7728d510841b5b9636cbe⟩
    ciphertext := tangled.detCbor
    senderSig := some
      (toBe 32 0x3add74674942ecd7c768caec3d5f41328891e6a84af851d0bbc9a62c8ceb9fdc ++
        toBe 32 0x4e2c8076d2e06c2106d5e1907d6685573367198e84f61e28e98e4e84850ab609) }

def tangledBlake3 (b : Bytes) : Digest :=
  if b = tangled.hashedBytes .mail noteTs (DeliveryTag.key recipientKey).detCbor then
    ⟨toBe 32 0xfef1028072bbb2a808c5d00744493056fd6451b67be7524909dc41ab20bc4c19, length_toBe _ _⟩
  else if b = tangled.detCbor then
    ⟨toBe 32 0x2ded3530b7af48fcd062bbb9c8f84841464ef48737a7728d510841b5b9636cbe, length_toBe _ _⟩
  else noteBlake3 b

def tangledSignature (pk msg : Bytes) : Bytes :=
  if pk = senderKey ∧ msg = payloadSigDs ++
      toBe 32 0xfef1028072bbb2a808c5d00744493056fd6451b67be7524909dc41ab20bc4c19 then tangled.sig
  else if pk = ephemeralKey ∧ msg = envelopeSenderDs ++ tangledEnvelope.senderSigBody then
    tangledEnvelope.senderSig.getD []
  else noteSignature pk msg

def tangledPrimitives : Primitives := ⟨tangledBlake3, signedBy tangledSignature, noteMlDsa65⟩

/-- The builder takes a draft whose extension headers repeat a key further down; the recipient does
not accept what comes of it, although the headers' own keys are distinct. -/
theorem tangled_mote_refused :
    (tangledPrimitives.ed25519.Lawful ∧ tangledPrimitives.mlDsa65.Lawful ∧
        OpensFor transparent [] []) ∧
      buildMote tangledPrimitives transparent senderSeed ephemeralSeed recipientKey []
        (draftOf tangled) = pure tangledEnvelope ∧
      (tangled.headers.ext.map Prod.fst).Nodup ∧
      (Cv.map (Payload.fields true tangled)).depth ≤ maxNestingDepth ∧
      validate tangledPrimitives transparent tangledEnvelope ⟨recipientKey, [], true⟩ =
        throw (.badEncoding (.duplicateKey 1)) := by
  have hlength : ∀ pk msg, (tangledSignature pk msg).length = 64 := by
    intro pk msg
    unfold tangledSignature
    split_ifs
    · rfl
    · rfl
    · exact length_noteSignature pk msg
  have hsigned : (draftOf tangled).signedPayload tangledPrimitives
      (classicalSigner tangledPrimitives senderSeed) (.key recipientKey) = tangled :=
    signedPayload_draftOf rfl (by decide)
  have henvelope : (draftOf tangled).signedEnvelope tangledPrimitives .classical
      (classicalSigner tangledPrimitives ephemeralSeed) (.key recipientKey) tangled.detCbor =
      tangledEnvelope := by
    rw [MoteDraft.signedEnvelope, tangledEnvelope, Envelope.mk.injEq]
    refine ⟨rfl, rfl, ?_, rfl, rfl, rfl, rfl, rfl, rfl, rfl, ?_, rfl⟩
    · decide
    · decide
  have hbuild := buildWith_transparent tangledPrimitives .classical
    (classicalSigner tangledPrimitives senderSeed) (classicalSigner tangledPrimitives ephemeralSeed)
    recipientKey (draftOf tangled) rfl
  rw [hsigned, henvelope] at hbuild
  have hrefused : (match (validate tangledPrimitives transparent tangledEnvelope
      ⟨recipientKey, [], true⟩).run with
      | .error e => some e
      | .ok _ => none) = some (MoteError.badEncoding (.duplicateKey 1)) := by
    decide +kernel
  refine ⟨⟨signedBy_lawful hlength, noteMlDsa65_lawful, transparent_opensFor⟩, hbuild,
    by decide, by decide, ?_⟩
  cases hresult : validate tangledPrimitives transparent tangledEnvelope ⟨recipientKey, [], true⟩ with
  | error e =>
    rw [hresult] at hrefused
    exact congrArg Except.error (Option.some.inj hrefused)
  | ok o =>
    rw [hresult] at hrefused
    cases hrefused

end Sample
end Dmtap.Mote
