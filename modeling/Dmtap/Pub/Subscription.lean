import Dmtap.Identity.Transport
import Dmtap.Pub.Fetch

/-! Subscriptions to feeds, their withdrawal, and the hints that a feed has moved. A subscription is
named by what was signed, not by the signature, so a withdrawal reaches every copy. -/
namespace Dmtap.Pub
open Dmtap.Lib Dmtap.Cbor

/-- The domain separators end in a zero byte. -/
def pubSubscriptionDs : Bytes := utf8 "DMTAP-PUB-v0/subscription" ++ [0]

def pubSubscriptionRevokeDs : Bytes := utf8 "DMTAP-PUB-v0/subscription-revoke" ++ [0]

def pubSubscriptionIdDs : Bytes := utf8 "DMTAP-PUB-v0/subscription-id" ++ [0]

def subscriptionNonceMin : ℕ := 16

/-- A topic label as a decoder of hints and subscriptions takes it. -/
def topicLabel (cv : Cv) : Except PubError String := do
  let topic ← (asText cv).mapError .cbor
  validateTopicLabel topic
  return topic

theorem lossless_topicLabel : Lossless topicLabel .text := by
  intro cv t hcv h
  obtain ⟨t', ht', h⟩ := except_bind_eq_ok.mp h
  obtain ⟨-, h⟩ := except_check_bind_eq_ok.mp h
  obtain rfl : t' = t := Except.ok.inj h
  exact lossless_text hcv (except_mapError_eq_ok.mp ht')

theorem topicLabel_norm {topic : String} (h : validateTopicLabel topic = .ok ()) :
    topicLabel (norm (.text topic)) = .ok topic :=
  except_bind_eq_ok.mpr ⟨topic, rfl, except_check_bind_eq_ok.mpr ⟨h, rfl⟩⟩

/-- A subscriber's request for hints about one topic of one feed. -/
structure Subscription where
  v : UInt8
  suite : Suite
  subscriber : Bytes
  feed : Bytes
  topic : String
  issued : UInt64
  expires : UInt64
  nonce : Bytes
  signer : Bytes
  sig : Bytes

namespace Subscription

def fields (includeSig : Bool) (s : Subscription) : Fields :=
  [(1, .u64 s.v.toUInt64), (2, s.suite.toCv), (3, .bytes s.subscriber), (4, .bytes s.feed),
    (5, .text s.topic), (6, .u64 s.issued), (7, .u64 s.expires), (8, .bytes s.nonce),
    (9, .bytes s.signer)] ++ if includeSig then [(10, .bytes s.sig)] else []

def detCbor (s : Subscription) : Bytes := encode (.map (fields true s))

def signingPreimage (s : Subscription) : Bytes := encode (.map (fields false s))

def reader : FieldReader PubError Subscription := do
  let v ← Fields.req 1 asU8
  if v ≠ pubV0 then throw .unsupportedVersion
  else
    let suite ← Fields.req 2 pubSuite
    let subscriber ← Fields.req 3 asBytes
    let feed ← Fields.req 4 asBytes
    let topic ← Fields.req 5 topicLabel
    let issued ← Fields.req 6 asU64
    let expires ← Fields.req 7 asU64
    let nonce ← Fields.req 8 asBytes
    if nonce.length < subscriptionNonceMin then throw (.cbor .typeMismatch)
    else
      let signer ← Fields.req 9 asBytes
      let sig ← Fields.req 10 asBytes
      Fields.denyUnknown
      return { v, suite, subscriber, feed, topic, issued, expires, nonce, signer, sig }

def fromDetCbor : Bytes → Except PubError Subscription := Cbor.fromDetCbor (Fields.read reader)

theorem readsFields : ReadsFields reader (fields true) := by
  apply yields_req lossless_u8
  intro v
  apply Record.yields_guard
  intro _
  apply yields_req lossless_pubSuite
  intro suite
  apply yields_req lossless_bytes
  intro subscriber
  apply yields_req lossless_bytes
  intro feed
  apply yields_req lossless_topicLabel
  intro topic
  apply yields_req lossless_u64
  intro issued
  apply yields_req lossless_u64
  intro expires
  apply yields_req lossless_bytes
  intro nonce
  apply Record.yields_guard
  intro _
  apply yields_req lossless_bytes
  intro signer
  apply yields_req lossless_bytes
  intro sig
  exact Record.yields_deny_pure (by simp [fields])

theorem canonical : Canonical fromDetCbor detCbor := readsFields.lossless.canonical

theorem signsReceived : SignsReceived fromDetCbor signingPreimage (· ≠ 10) :=
  readsFields.signsReceived fun _ => rfl

section Checks
variable {D : Type} (E : Ed25519) (H : Hasher D)

/-- The address of what is signed; the signature is left out. -/
def subscriptionId (s : Subscription) : ContentId :=
  H.address (pubSubscriptionIdDs ++ s.signingPreimage)

def sign (s : Subscription) (signerKey : IdentityKey) : Subscription :=
  { s with sig := E.signDomain signerKey pubSubscriptionDs s.signingPreimage }

def verifySignature (s : Subscription) : Except PubError Unit :=
  if s.v ≠ pubV0 ∨ s.suite.isSupported = false then .error .unsupportedVersion
  else (E.verifyDomain s.signer pubSubscriptionDs s.signingPreimage s.sig).mapError fun _ =>
    .subscriptionSigInvalid

def verify (s : Subscription) : Except PubError Unit := do
  s.verifySignature E
  if s.signer ≠ s.subscriber then .error .subscriptionSigInvalid else .ok ()

def verifyWithCert (s : Subscription) (cert : DeviceCert) : Except PubError Unit := do
  s.verifySignature E
  if s.signer = s.subscriber then .ok ()
  else do
    (cert.verify E).mapError fun _ => PubError.subscriptionSigInvalid
    if cert.ik ≠ s.subscriber ∨ cert.deviceKey ≠ s.signer then .error .subscriptionSigInvalid
    else .ok ()

def checkActive (s : Subscription) (now : UInt64) : Except PubError Unit :=
  if s.expires < now then .error .subscriptionExpired else .ok ()

end Checks

/-- What a decoder asks of a subscription beyond its encoding. -/
structure Decodable (s : Subscription) : Prop where
  version : s.v = pubV0
  suite : s.suite.isSupported = true
  topic : validateTopicLabel s.topic = .ok ()
  nonce : subscriptionNonceMin ≤ s.nonce.length
  fits : (Cv.map (fields true s)).LengthsFit

theorem keysFrom_fields (s : Subscription) :
    KeysFrom [1, 2, 3, 4, 5, 6, 7, 8, 9, 10] (fields true s) := keysFrom_self _

theorem Decodable.restores {s : Subscription} (h : s.Decodable) :
    Restores reader (fields true s) 0 s := by
  refine ⟨⟨_, by decide, keysFrom_fields s⟩, ?_, ?_, ?_⟩
  · simp only [fields, if_true, List.cons_append, List.nil_append]
    refine run_req (asU8_norm s.v) ?_
    rw [if_neg (by simp [h.version])]
    refine run_req (pubSuite_norm h.suite) ?_
    refine run_req rfl ?_
    refine run_req rfl ?_
    refine run_req (topicLabel_norm h.topic) ?_
    refine run_req rfl ?_
    refine run_req rfl ?_
    refine run_req rfl ?_
    rw [if_neg (Nat.not_lt.mpr h.nonce)]
    refine run_req rfl ?_
    refine run_req rfl ?_
    exact run_deny
  · simp [fields, Suite.toCv]
  · simp [fields, Suite.toCv]

theorem Decodable.fromDetCbor {s : Subscription} (h : s.Decodable) :
    fromDetCbor s.detCbor = .ok s := h.restores.fromDetCbor (by decide) h.fits

end Subscription

/-- A subscriber's withdrawal of one subscription. -/
structure SubscriptionRevoke where
  subscription : ContentId
  ts : UInt64
  signer : Bytes
  sig : Bytes
  v : UInt8
  suite : Suite
  deviceCert : Option DeviceCert

namespace SubscriptionRevoke

def fields (includeSig : Bool) (r : SubscriptionRevoke) : Fields :=
  [(1, r.subscription.toCv), (2, .u64 r.ts), (3, .bytes r.signer)] ++
    (if includeSig then [(4, .bytes r.sig)] else []) ++
    [(5, .u64 r.v.toUInt64), (6, r.suite.toCv)] ++
    Fields.opt 7 (DeviceCert.toCv true) r.deviceCert

def detCbor (r : SubscriptionRevoke) : Bytes := encode (.map (fields true r))

def signingPreimage (r : SubscriptionRevoke) : Bytes := encode (.map (fields false r))

def reader : FieldReader PubError SubscriptionRevoke := do
  let subscription ← Fields.req 1 ContentId.fromCv
  let ts ← Fields.req 2 asU64
  let signer ← Fields.req 3 asBytes
  let sig ← Fields.req 4 asBytes
  let v ← Fields.req 5 asU8
  if v ≠ pubV0 then throw .unsupportedVersion
  else
    let suite ← Fields.req 6 pubSuite
    let deviceCert ← Fields.take 7 DeviceCert.fromCv
    Fields.denyUnknown
    return { subscription, ts, signer, sig, v, suite, deviceCert }

def fromDetCbor : Bytes → Except PubError SubscriptionRevoke :=
  Cbor.fromDetCbor (Fields.read reader)

theorem readsFields : ReadsFields reader (fields true) := by
  apply yields_req ContentId.lossless
  intro subscription
  apply yields_req lossless_u64
  intro ts
  apply yields_req lossless_bytes
  intro signer
  apply yields_req lossless_bytes
  intro sig
  apply yields_req lossless_u8
  intro v
  apply Record.yields_guard
  intro _
  apply yields_req lossless_pubSuite
  intro suite
  apply yields_take DeviceCert.lossless
  intro deviceCert
  exact Record.yields_deny_pure (by simp [fields])

theorem canonical : Canonical fromDetCbor detCbor := readsFields.lossless.canonical

theorem signsReceived : SignsReceived fromDetCbor signingPreimage (· ≠ 4) := by
  refine readsFields.signsReceived (fun r => ?_)
  unfold fields
  cases r.deviceCert <;> rfl

section Checks
variable {D : Type} (E : Ed25519) (H : Hasher D)

def sign (r : SubscriptionRevoke) (signerKey : IdentityKey) : SubscriptionRevoke :=
  { r with sig := E.signDomain signerKey pubSubscriptionRevokeDs r.signingPreimage }

/-- A certificate that is handed over goes before the one in the withdrawal. -/
def verifyFor (r : SubscriptionRevoke) (target : Subscription) (cert : Option DeviceCert) :
    Except PubError Unit :=
  if r.v ≠ pubV0 ∨ r.suite.isSupported = false then .error .unsupportedVersion
  else if r.subscription ≠ target.subscriptionId H then .error .subscriptionRevokeInvalid
  else do
    (E.verifyDomain r.signer pubSubscriptionRevokeDs r.signingPreimage r.sig).mapError fun _ =>
      PubError.subscriptionRevokeInvalid
    if r.signer = target.subscriber then .ok ()
    else
      match cert.or r.deviceCert with
      | none => .error .subscriptionRevokeInvalid
      | some cert => do
        (cert.verify E).mapError fun _ => PubError.subscriptionRevokeInvalid
        if cert.ik ≠ target.subscriber ∨ cert.deviceKey ≠ r.signer then
          .error .subscriptionRevokeInvalid
        else .ok ()

end Checks

/-- What a decoder asks of a withdrawal beyond its encoding. -/
structure Decodable (r : SubscriptionRevoke) : Prop where
  version : r.v = pubV0
  suite : r.suite.isSupported = true
  fits : (Cv.map (fields true r)).LengthsFit

theorem keysFrom_fields (r : SubscriptionRevoke) : KeysFrom [1, 2, 3, 4, 5, 6, 7] (fields true r) :=
  (((keysFrom_self _).append (keysFrom_self _)).append (keysFrom_self _)).append
    (keysFrom_opt r.deviceCert)

theorem Decodable.restores {r : SubscriptionRevoke} (h : r.Decodable) :
    Restores reader (fields true r) 2 r := by
  refine ⟨⟨_, by decide, keysFrom_fields r⟩, ?_, ?_, ?_⟩
  · simp only [fields, if_true, List.cons_append, List.nil_append]
    refine run_req rfl ?_
    refine run_req rfl ?_
    refine run_req rfl ?_
    refine run_req rfl ?_
    refine run_req (asU8_norm r.v) ?_
    rw [if_neg (by simp [h.version])]
    refine run_req (pubSuite_norm h.suite) ?_
    refine run_take_last (fun c _ => c.fromCv_norm) ?_
    exact run_deny
  · have hcert : ∀ c : DeviceCert, (c.toCv true).KeysDistinct := fun c => c.restores.keysDistinct
    simp [fields, ContentId.toCv, Suite.toCv, hcert]
  · have hcert : ∀ c : DeviceCert, (c.toCv true).depth ≤ 2 := fun c => c.restores.depth_le
    simp [fields, ContentId.toCv, Suite.toCv, hcert]

theorem Decodable.fromDetCbor {r : SubscriptionRevoke} (h : r.Decodable) :
    fromDetCbor r.detCbor = .ok r := h.restores.fromDetCbor (by decide) h.fits

end SubscriptionRevoke

/-- A notice that a feed has moved. It carries no signature and no authority. -/
structure FeedHint where
  feed : Bytes
  topic : String
  seq : UInt64
  tip : Option ContentId
  announce : Option Bytes

namespace FeedHint

def fields (h : FeedHint) : Fields :=
  [(1, .bytes h.feed), (2, .text h.topic), (3, .u64 h.seq)] ++
    Fields.opt 4 ContentId.toCv h.tip ++ Fields.opt 5 .bytes h.announce

def detCbor (h : FeedHint) : Bytes := encode (.map h.fields)

def reader : FieldReader PubError FeedHint := do
  let feed ← Fields.req 1 asBytes
  let topic ← Fields.req 2 topicLabel
  let seq ← Fields.req 3 asU64
  let tip ← Fields.take 4 ContentId.fromCv
  let announce ← Fields.take 5 asBytes
  Fields.denyUnknown
  return { feed, topic, seq, tip, announce }

def fromDetCbor : Bytes → Except PubError FeedHint := Cbor.fromDetCbor (Fields.read reader)

theorem readsFields : ReadsFields reader fields := by
  apply yields_req lossless_bytes
  intro feed
  apply yields_req lossless_topicLabel
  intro topic
  apply yields_req lossless_u64
  intro seq
  apply yields_take ContentId.lossless
  intro tip
  apply yields_take lossless_bytes
  intro announce
  exact Record.yields_deny_pure (by simp [fields])

theorem canonical : Canonical fromDetCbor detCbor := readsFields.lossless.canonical

theorem restores {h : FeedHint} (htopic : validateTopicLabel h.topic = .ok ()) :
    Restores reader h.fields 0 h := by
  have hkeys : KeysFrom [1, 2, 3, 4, 5] h.fields :=
    ((keysFrom_self _).append (keysFrom_opt h.tip)).append (keysFrom_opt h.announce)
  refine ⟨⟨_, by decide, hkeys⟩, ?_, ?_, ?_⟩
  · simp only [fields, List.cons_append, List.nil_append]
    refine run_req rfl ?_
    refine run_req (topicLabel_norm htopic) ?_
    refine run_req rfl ?_
    refine run_take (fun _ _ => rfl) (by simp [keysAbove_opt]) ?_
    refine run_take_last (fun _ _ => rfl) ?_
    exact run_deny
  · simp [fields, ContentId.toCv]
  · simp [fields, ContentId.toCv]

end FeedHint

section Withdrawal
variable {D : Type} {E : Ed25519} {H : Hasher D}

/-- The copy of a subscription that carries another signature. -/
def Subscription.mauled (s : Subscription) (sig : Bytes) : Subscription := { s with sig }

namespace Subscription
variable {s s' : Subscription}

theorem fits_signed (h : (Cv.map (fields true s)).LengthsFit) :
    (Cv.map (fields false s)).LengthsFit := by
  obtain ⟨-, hvalues⟩ := Cv.lengthsFit_map.mp h
  refine Cv.lengthsFit_map.mpr ⟨by simp [fields], fun p hp => hvalues p ?_⟩
  unfold fields at hp ⊢
  exact List.mem_append_left _ (by simpa using hp)

/-- What is signed is everything but the signature. -/
theorem signingPreimage_injective (h : (Cv.map (fields true s)).LengthsFit)
    (h' : (Cv.map (fields true s')).LengthsFit) (heq : s.signingPreimage = s'.signingPreimage) :
    s' = s.mauled s'.sig := by
  have hkeys : ∀ s : Subscription, KeysFrom [1, 2, 3, 4, 5, 6, 7, 8, 9] (fields false s) :=
    fun s => keysFrom_self _
  have hdistinct : ∀ s : Subscription, (Cv.map (fields false s)).KeysDistinct := fun s =>
    keysDistinct_of_keysFrom (by decide) (hkeys s) (by simp [fields, Suite.toCv])
  have hnorm := (enc_append_injective (s := []) (t := []) (fits_signed h) (hdistinct s)
    (fits_signed h') (hdistinct s') (congrArg (· ++ []) heq)).1
  rw [norm_map_of_keysFrom (by decide) (hkeys s), norm_map_of_keysFrom (by decide) (hkeys s')]
    at hnorm
  have hfields := Cv.map.inj hnorm
  simp only [fields, normMap_eq, Cbor.norm, Suite.toCv, if_false, Bool.false_eq_true,
    List.append_nil, List.map_cons, List.map_nil, List.cons.injEq, Prod.mk.injEq, Cv.u64.injEq,
    Cv.bytes.injEq, Cv.text.injEq, true_and, and_true] at hfields
  obtain ⟨hv, hsuite, hsubscriber, hfeed, htopic, hissued, hexpires, hnonce, hsigner⟩ := hfields
  have hversion := UInt8.toUInt64_inj.mp hv
  have hsuite := Suite.asU8_injective (UInt8.toUInt64_inj.mp hsuite)
  cases s
  cases s'
  simp_all [mauled]

theorem subscriptionId_eq_iff (hH : H.Ideal) (h : (Cv.map (fields true s)).LengthsFit)
    (h' : (Cv.map (fields true s')).LengthsFit) :
    s.subscriptionId H = s'.subscriptionId H ↔ s' = s.mauled s'.sig := by
  constructor
  · intro heq
    have hbytes := List.append_cancel_left (hH.address_injective heq)
    exact signingPreimage_injective h h' hbytes
  · intro heq
    rw [heq]
    rfl

end Subscription

namespace SubscriptionRevoke

/-- The signer of a withdrawal is the subscriber, or the certificate that counts says that it is a
device of the subscriber. -/
def MayRevoke (E : Ed25519) (r : SubscriptionRevoke) (subscriber : Bytes)
    (cert : Option DeviceCert) : Prop :=
  r.signer = subscriber ∨ ∃ c, cert.or r.deviceCert = some c ∧ c.verify E = .ok () ∧
    c.ik = subscriber ∧ c.deviceKey = r.signer

variable {r : SubscriptionRevoke} {s s' : Subscription} {cert : Option DeviceCert}

theorem verifyFor_eq_ok : r.verifyFor E H s cert = .ok () ↔
    (r.v = pubV0 ∧ r.suite.isSupported = true) ∧ r.subscription = s.subscriptionId H ∧
      E.verifyDomain r.signer pubSubscriptionRevokeDs r.signingPreimage r.sig = .ok () ∧
      r.MayRevoke E s.subscriber cert := by
  unfold verifyFor MayRevoke
  rw [except_guard_eq_ok, except_guard_eq_ok, except_check_bind_eq_ok, except_mapError_eq_ok,
    not_not]
  refine and_congr (by simp) (and_congr_right fun _ => and_congr_right fun _ => ?_)
  by_cases hself : r.signer = s.subscriber
  · simp [hself]
  · rw [if_neg hself]
    cases cert.or r.deviceCert with
    | none => simp [hself]
    | some c =>
      dsimp only
      rw [except_check_bind_eq_ok, except_mapError_eq_ok, except_guard_eq_ok]
      simp [hself]

end SubscriptionRevoke

/-- A withdrawal that counts against one subscription counts against exactly its copies, whatever
signatures they carry; and the subscriber and each certified device can withdraw, over the wire,
every copy of a subscription. -/
theorem revocation_follows_grant (E : Ed25519) (H : Hasher D) (hE : E.Lawful) (hH : H.Ideal) :
    (∀ r s s' cert, (Cv.map (Subscription.fields true s)).LengthsFit →
        (Cv.map (Subscription.fields true s')).LengthsFit →
        SubscriptionRevoke.verifyFor E H r s cert = .ok () →
        (r.verifyFor E H s' cert = .ok () ↔ s' = s.mauled s'.sig)) ∧
      ∀ (r : SubscriptionRevoke) (s : Subscription) cert key, r.subscription = s.subscriptionId H →
        r.signer = E.publicKey key → r.MayRevoke E s.subscriber cert →
        (r.sign E key).Decodable →
        ∃ received, SubscriptionRevoke.fromDetCbor (r.sign E key).detCbor = .ok received ∧
          ∀ sig, received.verifyFor E H (s.mauled sig) cert = .ok () := by
  refine ⟨?_, ?_⟩
  · intro r s s' cert hs hs' h
    obtain ⟨hversion, hid, hsig, hmay⟩ := SubscriptionRevoke.verifyFor_eq_ok.mp h
    rw [← Subscription.subscriptionId_eq_iff hH hs hs', ← hid]
    constructor
    · intro h'
      exact (SubscriptionRevoke.verifyFor_eq_ok.mp h').2.1
    · intro hid'
      have hcopy := (Subscription.subscriptionId_eq_iff hH hs hs').mp (hid.symm.trans hid')
      have hsubscriber : s'.subscriber = s.subscriber := by
        rw [hcopy]
        rfl
      refine SubscriptionRevoke.verifyFor_eq_ok.mpr ⟨hversion, hid', hsig, ?_⟩
      rw [hsubscriber]
      exact hmay
  · intro r s cert key hid hkey hmay h
    refine ⟨_, h.fromDetCbor, fun sig => SubscriptionRevoke.verifyFor_eq_ok.mpr ?_⟩
    refine ⟨⟨h.version, h.suite⟩, hid, ?_, hmay⟩
    change E.verifyDomain r.signer pubSubscriptionRevokeDs r.signingPreimage
      (E.signDomain key pubSubscriptionRevokeDs r.signingPreimage) = .ok ()
    rw [hkey]
    exact hE.verifyDomain_signDomain key pubSubscriptionRevokeDs r.signingPreimage

end Withdrawal

section LostDevice

private def readerKey : IdentityKey := ⟨List.replicate 32 3, rfl⟩

private def phoneKey : IdentityKey := ⟨List.replicate 32 4, rfl⟩

def phoneCert : DeviceCert where
  suite := .classical
  ik := trusting.publicKey readerKey
  deviceKey := trusting.publicKey phoneKey
  label := "phone"
  created := 0
  expires := none
  caps := []
  sig := List.replicate 64 0

def readerSubscription : Subscription where
  v := pubV0
  suite := .classical
  subscriber := trusting.publicKey readerKey
  feed := [1]
  topic := ""
  issued := 1
  expires := 2
  nonce := List.replicate 16 5
  signer := trusting.publicKey readerKey
  sig := []

def phoneRevoke : SubscriptionRevoke where
  subscription := readerSubscription.subscriptionId framedHasher
  ts := 2
  signer := trusting.publicKey phoneKey
  sig := []
  v := pubV0
  suite := .classical
  deviceCert := some phoneCert

/-- The withdrawal of a phone reaches the subscription and a copy of it with another signature. -/
theorem revocation_follows_grant_phone : ∃ r : SubscriptionRevoke,
    r.verifyFor trusting framedHasher readerSubscription none = .ok () ∧
      r.verifyFor trusting framedHasher (readerSubscription.mauled [9]) none = .ok () := by
  have hmay : phoneRevoke.MayRevoke trusting readerSubscription.subscriber none :=
    Or.inr ⟨phoneCert, rfl, by decide +kernel, rfl, rfl⟩
  have hdecodable : (phoneRevoke.sign trusting phoneKey).Decodable :=
    ⟨rfl, rfl, by decide +kernel⟩
  obtain ⟨hexact, hreaches⟩ :=
    revocation_follows_grant trusting framedHasher trusting_lawful framedHasher_ideal
  obtain ⟨r, -, hr⟩ := hreaches phoneRevoke readerSubscription none phoneKey rfl rfl hmay hdecodable
  have hself : r.verifyFor trusting framedHasher readerSubscription none = .ok () := hr []
  have hcopy := hexact r readerSubscription (readerSubscription.mauled [9]) none (by decide +kernel)
    (by decide +kernel) hself
  exact ⟨r, hself, hcopy.mpr rfl⟩

end LostDevice
end Dmtap.Pub
