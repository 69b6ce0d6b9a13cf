import Dmtap.Mote.Build

/-! The two sizes of a large attachment. The attachment's own size and that of its manifest
reference are classified apart, so a contract may be missing exactly where the two disagree. -/
namespace Dmtap.Mote
open Dmtap.Lib Dmtap.Cbor

namespace Attachment

/-- The length of a vector is a 64-bit word. -/
def Fits (a : Attachment) : Prop := ∀ bytes, a.inline = some bytes → bytes.length < 2 ^ 64

/-- What the delivery tiers promise: a referenced file carries a valid durability contract, and a
small one travels inside the message. -/
structure Contract (a : Attachment) : Prop where
  large : attachedTierMax < a.size →
    ∃ m d, a.manifest = some m ∧ m.durability = some d ∧ d.validate = .ok ()
  small : a.size ≤ inlineTierMax →
    ∃ bytes, a.inline = some bytes ∧ a.manifest = none ∧ bytes.length = a.size.toNat

/-- A large file whose manifest reference has no durability, and a size of its own for which it
needs none. -/
def TierGap (a : Attachment) : Prop :=
  attachedTierMax < a.size ∧ a.inline = none ∧
    ∃ m, a.manifest = some m ∧ m.size ≤ attachedTierMax ∧ m.durability = none

end Attachment

section Classes
variable {size : UInt64}

theorem inlineTierMax_le : inlineTierMax ≤ attachedTierMax := by decide

theorem classify_eq_inline_iff : DeliveryTier.classify size = .inline ↔ size ≤ inlineTierMax := by
  unfold DeliveryTier.classify
  split_ifs with hsmall hattached
  · exact ⟨fun _ => hsmall, fun _ => rfl⟩
  · exact ⟨fun h => (nomatch h), fun h => absurd h hsmall⟩
  · exact ⟨fun h => (nomatch h), fun h => absurd h hsmall⟩

theorem classify_eq_referenced_iff :
    DeliveryTier.classify size = .referenced ↔ attachedTierMax < size := by
  unfold DeliveryTier.classify
  split_ifs with hsmall hattached
  · have hle := UInt64.le_trans hsmall inlineTierMax_le
    exact ⟨fun h => (nomatch h), fun h => absurd hle (UInt64.not_le.mpr h)⟩
  · exact ⟨fun h => (nomatch h), fun h => absurd hattached (UInt64.not_le.mpr h)⟩
  · exact ⟨fun _ => UInt64.not_le.mp hattached, fun _ => rfl⟩

end Classes

section Attachments
variable {a : Attachment}

theorem validateDurability_eq_ok_iff {m : ManifestRef} :
    m.validateDurability = .ok () ↔
      (∃ d, m.durability = some d ∧ d.validate = .ok ()) ∨
        m.durability = none ∧ m.size ≤ attachedTierMax := by
  unfold ManifestRef.validateDurability
  cases hdurability : m.durability with
  | some d => simp
  | none =>
    rw [← UInt64.not_lt, ← classify_eq_referenced_iff]
    cases DeliveryTier.classify m.size with
    | inline => simp
    | attached => simp
    | referenced => simp

/-- The ways through the check. -/
theorem checkDeliveryTier_eq_ok_iff :
    a.checkDeliveryTier = .ok () ↔
      (∃ bytes, a.inline = some bytes ∧ a.manifest = none ∧ a.size ≤ inlineTierMax ∧
        UInt64.ofNat bytes.length = a.size) ∨
      ∃ m, a.inline = none ∧ a.manifest = some m ∧ inlineTierMax < a.size ∧
        m.validateDurability = .ok () := by
  unfold Attachment.checkDeliveryTier
  cases hinline : a.inline with
  | some bytes =>
    cases hmanifest : a.manifest with
    | some m => simp
    | none =>
      dsimp only
      rw [except_guard_eq_ok, except_guard_eq_ok, ne_eq, not_not, ne_eq, not_not,
        classify_eq_inline_iff]
      simp
  | none =>
    cases hmanifest : a.manifest with
    | some m =>
      dsimp only
      rw [except_guard_eq_ok, classify_eq_inline_iff, UInt64.not_le]
      simp
    | none => simp

theorem length_eq_of_ofNat {n : ℕ} {size : UInt64} (hfits : n < 2 ^ 64)
    (h : UInt64.ofNat n = size) : n = size.toNat := by
  rw [← h, UInt64.toNat_ofNat', Nat.mod_eq_of_lt hfits]

/-- An attachment that passes the check keeps its contract unless it falls into the gap. -/
theorem contract_iff_of_checkDeliveryTier (hfits : a.Fits) (h : a.checkDeliveryTier = .ok ()) :
    a.Contract ↔ ¬ a.TierGap := by
  rcases checkDeliveryTier_eq_ok_iff.mp h with ⟨bytes, hinline, hmanifest, hsmall, hlength⟩ |
    ⟨m, hinline, hmanifest, hlarge, hvalid⟩
  · constructor
    · rintro - ⟨-, hnone, -⟩
      rw [hinline] at hnone
      cases hnone
    · intro _
      refine ⟨fun hlarge => ?_, fun _ => ⟨bytes, hinline, hmanifest, ?_⟩⟩
      · exact absurd (UInt64.le_trans hsmall inlineTierMax_le) (UInt64.not_le.mpr hlarge)
      · exact length_eq_of_ofNat (hfits bytes hinline) hlength
  · constructor
    · rintro ⟨hcontract, -⟩ ⟨hreferenced, -, m', hm', -, hnone⟩
      obtain ⟨m'', d, hm'', hd, -⟩ := hcontract hreferenced
      rw [hm''] at hm'
      rw [Option.some.inj hm', hnone] at hd
      cases hd
    · intro hgap
      refine ⟨fun hreferenced => ?_, fun hsmall => absurd hsmall (UInt64.not_le.mpr hlarge)⟩
      rcases validateDurability_eq_ok_iff.mp hvalid with ⟨d, hd, hok⟩ | ⟨hnone, hsize⟩
      · exact ⟨m, d, hmanifest, hd, hok⟩
      · exact absurd ⟨hreferenced, hinline, m, hmanifest, hsize, hnone⟩ hgap

/-- The gap passes the check. -/
theorem checkDeliveryTier_of_tierGap (h : a.TierGap) : a.checkDeliveryTier = .ok () := by
  obtain ⟨hreferenced, hinline, m, hmanifest, hsize, hnone⟩ := h
  refine checkDeliveryTier_eq_ok_iff.mpr (Or.inr ⟨m, hinline, hmanifest, ?_, ?_⟩)
  · exact UInt64.lt_of_le_of_lt inlineTierMax_le hreferenced
  · exact validateDurability_eq_ok_iff.mpr (Or.inr ⟨hnone, hsize⟩)

end Attachments

section Main
variable {C : Primitives} {sealer : PayloadSeal Id} {senderIk ephemeral : IdentityKey}
  {recipientIk sealPub : Bytes} {draft : MoteDraft} {env : Envelope}

/-- Where the check keeps its promise: for one attachment, and for all those of a built message. -/
theorem delivery_contract_iff :
    (∀ a : Attachment, a.Fits → ((a.checkDeliveryTier = .ok () → a.Contract) ↔ ¬ a.TierGap)) ∧
      ((∀ a ∈ draft.attach, a.Fits) →
        buildMote C sealer senderIk ephemeral recipientIk sealPub draft = pure env →
          ((∀ a ∈ draft.attach, a.Contract) ↔ ∀ a ∈ draft.attach, ¬ a.TierGap)) := by
  constructor
  · intro a hfits
    constructor
    · intro hkeeps hgap
      have hpass := checkDeliveryTier_of_tierGap hgap
      exact (contract_iff_of_checkDeliveryTier hfits hpass).mp (hkeeps hpass) hgap
    · intro hgap hpass
      exact (contract_iff_of_checkDeliveryTier hfits hpass).mpr hgap
  · intro hfits hbuilt
    obtain ⟨hpass, -⟩ := buildWith_eq_pure hbuilt
    exact forall₂_congr fun a ha => contract_iff_of_checkDeliveryTier (hfits a ha) (hpass a ha)

/-- A file of 30 MiB whose manifest reference says 1 MiB, without a durability contract. -/
def shrunkVideo : Attachment where
  name := "clip.mp4"
  mime := "video/mp4"
  size := 30 * 1024 * 1024
  inline := none
  manifest := some ⟨⟨[mhBlake3]⟩, 1024 * 1024, 30, none⟩
  key := [1]

theorem shrunkVideo_has_no_contract :
    shrunkVideo.checkDeliveryTier = .ok () ∧ ¬ shrunkVideo.Contract := by
  refine ⟨rfl, fun h => ?_⟩
  obtain ⟨m, d, hmanifest, hd, -⟩ := h.large (by decide)
  obtain rfl := Option.some.inj hmanifest
  cases hd

/-- The same file with the manifest that it should have had. -/
def pinnedVideo : Attachment :=
  { shrunkVideo with
    manifest := some ⟨⟨[mhBlake3]⟩, 30 * 1024 * 1024, 30, some ⟨.pinned, some 1, none, none⟩⟩ }

def videoDraft : MoteDraft := { draftOf note with attach := [pinnedVideo] }

theorem fits_pinnedVideo : pinnedVideo.Fits := fun _ h => nomatch h

theorem not_tierGap_pinnedVideo : ¬pinnedVideo.TierGap := by
  rintro ⟨-, -, m, hm, -, hnone⟩
  obtain rfl := Option.some.inj hm
  cases hnone

/-- A large file keeps its contract, and so does a message that carries it. -/
theorem delivery_contract_pinned_video :
    pinnedVideo.Contract ∧ ∃ env,
      buildMote notePrimitives transparent senderSeed ephemeralSeed recipientKey [] videoDraft =
        pure env ∧ ∀ a ∈ videoDraft.attach, a.Contract := by
  constructor
  · exact ((@delivery_contract_iff notePrimitives transparent senderSeed ephemeralSeed recipientKey
      [] videoDraft noteEnvelope).1 pinnedVideo fits_pinnedVideo).mpr not_tierGap_pinnedVideo rfl
  · have hbuild := buildWith_transparent notePrimitives .classical
      (classicalSigner notePrimitives senderSeed) (classicalSigner notePrimitives ephemeralSeed)
      recipientKey videoDraft rfl
    have hvideo {P : Attachment → Prop} (h : P pinnedVideo) : ∀ a ∈ videoDraft.attach, P a :=
      List.forall_mem_singleton.mpr h
    exact ⟨_, hbuild, (delivery_contract_iff.2 (hvideo fits_pinnedVideo) hbuild).mpr
      (hvideo not_tierGap_pinnedVideo)⟩

end Main
end Dmtap.Mote
