import Dmtap.Identity.Objects

/-! Ed25519 keys and signatures as the identity layer uses them. -/
namespace Dmtap
open Dmtap.Lib Dmtap.Cbor

/-- An Ed25519 keypair, as its seed. -/
abbrev IdentityKey := { seed : Bytes // seed.length = 32 }

/-- What the identity layer takes from the Ed25519 library. -/
structure Ed25519 where
  publicKey : IdentityKey → Bytes
  sign : IdentityKey → Bytes → Bytes
  isPoint : Bytes → Bool
  verifyStrict : Bytes → Bytes → Bytes → Bool

namespace Ed25519

/-- What is promised of the library: lengths, and that honest signatures verify. -/
structure Lawful (E : Ed25519) : Prop where
  publicKey_length : ∀ ik, (E.publicKey ik).length = 32
  publicKey_isPoint : ∀ ik, E.isPoint (E.publicKey ik) = true
  sign_length : ∀ ik msg, (E.sign ik msg).length = 64
  verifyStrict_sign : ∀ ik msg, E.verifyStrict (E.publicKey ik) msg (E.sign ik msg) = true

variable (E : Ed25519)

def verifyingKey (bytes : Bytes) : Except IdentityError Bytes :=
  if bytes.length = 32 ∧ E.isPoint bytes then .ok bytes else .error .badKeyLength

def signature (bytes : Bytes) : Except IdentityError Bytes :=
  if bytes.length = 64 then .ok bytes else .error .badKeyLength

def signDomain (ik : IdentityKey) (domain msg : Bytes) : Bytes := E.sign ik (domain ++ msg)

def verifyDomain (pk domain msg sig : Bytes) : Except IdentityError Unit := do
  let vk ← E.verifyingKey pk
  let sig ← signature sig
  if E.verifyStrict vk (domain ++ msg) sig then .ok () else .error .badSignature

variable {E}

theorem verifyingKey_eq_ok {bytes vk : Bytes} :
    E.verifyingKey bytes = .ok vk ↔
      (bytes.length = 32 ∧ E.isPoint bytes = true) ∧ bytes = vk := by
  unfold verifyingKey
  split_ifs with h <;> simp [h]

theorem signature_eq_ok {bytes sig : Bytes} :
    signature bytes = .ok sig ↔ bytes.length = 64 ∧ bytes = sig := by
  unfold signature
  split_ifs with h <;> simp [h]

theorem verifyDomain_eq_ok {pk domain msg sig : Bytes} :
    E.verifyDomain pk domain msg sig = .ok () ↔
      (pk.length = 32 ∧ E.isPoint pk = true) ∧ sig.length = 64 ∧
        E.verifyStrict pk (domain ++ msg) sig = true := by
  unfold verifyDomain
  rw [except_bind_eq_ok]
  constructor
  · rintro ⟨vk, hvk, h⟩
    obtain ⟨s, hs, h⟩ := except_bind_eq_ok.mp h
    obtain ⟨hpk, rfl⟩ := verifyingKey_eq_ok.mp hvk
    obtain ⟨hsig, rfl⟩ := signature_eq_ok.mp hs
    split_ifs at h with hv
    exact ⟨hpk, hsig, hv⟩
  · rintro ⟨hpk, hsig, hv⟩
    refine ⟨pk, verifyingKey_eq_ok.mpr ⟨hpk, rfl⟩, ?_⟩
    refine except_bind_eq_ok.mpr ⟨sig, signature_eq_ok.mpr ⟨hsig, rfl⟩, ?_⟩
    rw [if_pos hv]

theorem Lawful.verifyDomain_signDomain (hE : E.Lawful) (ik : IdentityKey) (domain msg : Bytes) :
    E.verifyDomain (E.publicKey ik) domain msg (E.signDomain ik domain msg) = .ok () := by
  rw [verifyDomain_eq_ok]
  refine ⟨⟨hE.publicKey_length ik, hE.publicKey_isPoint ik⟩, ?_, ?_⟩
  · exact hE.sign_length ik _
  · exact hE.verifyStrict_sign ik _

end Ed25519
end Dmtap
