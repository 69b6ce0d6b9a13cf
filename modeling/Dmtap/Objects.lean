import Dmtap.Capability
import Dmtap.Identity.Objects
import Dmtap.Kt.Wire
import Dmtap.Mote.Envelope
import Dmtap.Pub.Objects

/-! What the wire objects share: an accepted object has one encoding, and what is hashed and
what is signed are taken from the bytes that were received. -/
namespace Dmtap
open Dmtap.Lib Dmtap.Cbor

/-- The content address of the decoded object is that of the received bytes. -/
def AddressesReceived {ε α : Type} (blake3 : Bytes → Digest) (fromDet : Bytes → Except ε α)
    (contentId : α → ContentId) : Prop :=
  ∀ ⦃b o⦄, fromDet b = .ok o → contentId o = ContentId.of blake3 b

theorem addressesReceived_of_canonical {ε α : Type} {fromDet : Bytes → Except ε α}
    {detCbor : α → Bytes} (blake3 : Bytes → Digest) (h : Canonical fromDet detCbor) :
    AddressesReceived blake3 fromDet (fun o => .of blake3 (detCbor o)) := by
  intro b o hb
  have hdet : detCbor o = b := h hb
  change ContentId.of blake3 (detCbor o) = _
  rw [hdet]

/-- One encoding for each signed or content-addressed object. -/
structure CanonicalObjects : Prop where
  envelope : Canonical Mote.Envelope.fromDetCbor Mote.Envelope.detCbor
  manifest : Canonical Mote.Manifest.fromDetCbor Mote.Manifest.detCbor
  deviceCert : Canonical DeviceCert.fromDetCbor DeviceCert.detCbor
  identity : Canonical Identity.fromDetCbor Identity.detCbor
  keyRotation : Canonical KeyRotation.fromDetCbor KeyRotation.detCbor
  signedTreeHead : Canonical Kt.SignedTreeHead.fromDetCbor Kt.SignedTreeHead.detCbor
  inclusionProof : Canonical Kt.InclusionProof.fromDetCbor Kt.InclusionProof.detCbor
  consistencyProof : Canonical Kt.ConsistencyProof.fromDetCbor Kt.ConsistencyProof.detCbor
  capabilityToken : Canonical CapabilityToken.fromDetCbor CapabilityToken.detCbor
  pubManifest : Canonical Pub.PubManifest.fromDetCbor Pub.PubManifest.detCbor
  pubAnnounce : Canonical Pub.PubAnnounce.fromDetCbor Pub.PubAnnounce.detCbor
  feedEntry : Canonical Pub.FeedEntry.fromDetCbor Pub.FeedEntry.detCbor
  feedHead : Canonical Pub.FeedHead.fromDetCbor Pub.FeedHead.detCbor

/-- The bodies that signatures cover are cut out of the received bytes. -/
structure SignedObjects : Prop where
  envelope : ∀ ⦃b e⦄, Mote.Envelope.fromDetCbor b = .ok e →
    ∃ m toTag tail, decode b = .ok (.map m) ∧ (4, toTag) ∈ m ∧
      ((∃ c, (9, c) ∈ m ∧ tail = encode c) ∨ ((∀ c, (9, c) ∉ m) ∧ tail = [0xf6])) ∧
      e.senderSigBody =
        e.id.bytes ++ encode toTag ++ toBe 8 e.ts.toNat ++ [e.kind.asU8] ++ tail
  deviceCert : SignsReceived DeviceCert.fromDetCbor DeviceCert.signingBody (· ≠ 8)
  identity : SignsReceived Identity.fromDetCbor Identity.signingBody (· ≠ 10)
  keyRotation : SignsReceived KeyRotation.fromDetCbor KeyRotation.signingBody (· ≠ 7)
  keyRotationQuorum :
    SignsReceived KeyRotation.fromDetCbor KeyRotation.quorumBody (fun k => k ≠ 7 ∧ k ≠ 8)
  signedTreeHead :
    SignsReceived Kt.SignedTreeHead.fromDetCbor Kt.SignedTreeHead.signingBody (· ≠ 6)
  capabilityToken : SignsReceived CapabilityToken.fromDetCbor CapabilityToken.signingBody (· ≠ 9)
  pubAnnounce : SignsReceived Pub.PubAnnounce.fromDetCbor Pub.PubAnnounce.signingPreimage (· ≠ 9)
  feedHead : SignsReceived Pub.FeedHead.fromDetCbor Pub.FeedHead.signingPreimage (· ≠ 8)

/-- The content addresses computed from decoded objects are those of the received bytes. -/
structure AddressedObjects (blake3 : Bytes → Digest) : Prop where
  identity : AddressesReceived blake3 Identity.fromDetCbor (Identity.contentId blake3)
  keyRotation : AddressesReceived blake3 KeyRotation.fromDetCbor (KeyRotation.contentId blake3)
  capabilityToken :
    AddressesReceived blake3 CapabilityToken.fromDetCbor (CapabilityToken.contentId blake3)
  pubAnnounce :
    AddressesReceived blake3 Pub.PubAnnounce.fromDetCbor (Pub.PubAnnounce.announceId blake3)
  feedEntry : AddressesReceived blake3 Pub.FeedEntry.fromDetCbor (Pub.FeedEntry.entryId blake3)

private theorem canonicalObjects : CanonicalObjects where
  envelope := Mote.Envelope.canonical
  manifest := Mote.Manifest.canonical
  deviceCert := DeviceCert.canonical
  identity := Identity.canonical
  keyRotation := KeyRotation.canonical
  signedTreeHead := Kt.SignedTreeHead.canonical
  inclusionProof := Kt.InclusionProof.canonical
  consistencyProof := Kt.ConsistencyProof.canonical
  capabilityToken := CapabilityToken.canonical
  pubManifest := Pub.PubManifest.canonical
  pubAnnounce := Pub.PubAnnounce.canonical
  feedEntry := Pub.FeedEntry.canonical
  feedHead := Pub.FeedHead.canonical

private theorem signedObjects : SignedObjects where
  envelope := Mote.Envelope.senderSigReceived
  deviceCert := DeviceCert.signsReceived
  identity := Identity.signsReceived
  keyRotation := KeyRotation.signsReceived
  keyRotationQuorum := KeyRotation.quorumReceived
  signedTreeHead := Kt.SignedTreeHead.signsReceived
  capabilityToken := CapabilityToken.signsReceived
  pubAnnounce := Pub.PubAnnounce.signsReceived
  feedHead := Pub.FeedHead.signsReceived

private theorem addressedObjects (blake3 : Bytes → Digest) : AddressedObjects blake3 where
  identity := addressesReceived_of_canonical blake3 Identity.canonical
  keyRotation := addressesReceived_of_canonical blake3 KeyRotation.canonical
  capabilityToken := addressesReceived_of_canonical blake3 CapabilityToken.canonical
  pubAnnounce := addressesReceived_of_canonical blake3 Pub.PubAnnounce.canonical
  feedEntry := addressesReceived_of_canonical blake3 Pub.FeedEntry.canonical

/-- Decoding loses nothing of any signed or content-addressed object. -/
theorem wire_objects_canonical (blake3 : Bytes → Digest) :
    CanonicalObjects ∧ SignedObjects ∧ AddressedObjects blake3 :=
  ⟨canonicalObjects, signedObjects, addressedObjects blake3⟩

end Dmtap
