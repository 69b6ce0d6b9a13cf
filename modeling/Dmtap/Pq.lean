import Dmtap.Identity.Keys

/-! Hybrid keys and signatures: an Ed25519 part followed by an ML-DSA-65 part, both required. -/
namespace Dmtap
open Dmtap.Lib

def ed25519PkLen : ℕ := 32
def ed25519SigLen : ℕ := 64
def mldsa65PkLen : ℕ := 1952
def mldsa65SigLen : ℕ := 3309
def hybridPkLen : ℕ := ed25519PkLen + mldsa65PkLen
def hybridSigLen : ℕ := ed25519SigLen + mldsa65SigLen

inductive HybridError
  | hybridSuiteIncomplete
  deriving DecidableEq, Repr

/-- What the hybrid layer takes from the ML-DSA-65 library. Keys and signatures are encoded. -/
structure MlDsa65 where
  SigningKey : Type
  verifyingKey : SigningKey → Bytes
  sign : SigningKey → Bytes → Bytes
  isSignature : Bytes → Bool
  verify : Bytes → Bytes → Bytes → Bool

/-- What is promised of the library: lengths, and that honest signatures verify. -/
structure MlDsa65.Lawful (D : MlDsa65) : Prop where
  verifyingKey_length : ∀ k, (D.verifyingKey k).length = mldsa65PkLen
  sign_length : ∀ k msg, (D.sign k msg).length = mldsa65SigLen
  isSignature_sign : ∀ k msg, D.isSignature (D.sign k msg) = true
  verify_sign : ∀ k msg, D.verify (D.verifyingKey k) msg (D.sign k msg) = true

structure HybridSigningKey (D : MlDsa65) where
  ed : IdentityKey
  mldsa : D.SigningKey

namespace HybridSigningKey
variable (E : Ed25519) {D : MlDsa65}

def publicKey (k : HybridSigningKey D) : Bytes := E.publicKey k.ed ++ D.verifyingKey k.mldsa

def signDomain (k : HybridSigningKey D) (domain msg : Bytes) : Bytes :=
  E.signDomain k.ed domain msg ++ D.sign k.mldsa (domain ++ msg)

end HybridSigningKey

section Verify
variable (E : Ed25519) (D : MlDsa65)

def verifyMldsa65 (pk domain msg sig : Bytes) : Bool :=
  pk.length = mldsa65PkLen && D.isSignature sig && D.verify pk (domain ++ msg) sig

def verifyHybridDomain (pk domain msg sig : Bytes) : Except HybridError Unit :=
  if pk.length ≠ hybridPkLen ∨ sig.length ≠ hybridSigLen then .error .hybridSuiteIncomplete
  else
    let edOk := (E.verifyDomain (pk.take ed25519PkLen) domain msg (sig.take ed25519SigLen)).isOk
    let mldsaOk := verifyMldsa65 D (pk.drop ed25519PkLen) domain msg (sig.drop ed25519SigLen)
    if edOk && mldsaOk then .ok () else .error .hybridSuiteIncomplete

variable {E D}

/-- A hybrid signature verifies only under a key of the full length. -/
theorem length_of_verifyHybridDomain {pk domain msg sig : Bytes}
    (h : verifyHybridDomain E D pk domain msg sig = .ok ()) : pk.length = hybridPkLen := by
  obtain ⟨hlen, -⟩ := except_guard_eq_ok.mp h
  exact not_not.mp (not_or.mp hlen).1

theorem verifyHybridDomain_signDomain (hE : E.Lawful) (hD : D.Lawful) (k : HybridSigningKey D)
    (domain msg : Bytes) :
    verifyHybridDomain E D (k.publicKey E) domain msg (k.signDomain E domain msg) = .ok () := by
  have hedPk : (E.publicKey k.ed).length = ed25519PkLen := hE.publicKey_length k.ed
  have hedSig : (E.signDomain k.ed domain msg).length = ed25519SigLen := hE.sign_length k.ed _
  have hdPk := hD.verifyingKey_length k.mldsa
  have hdSig := hD.sign_length k.mldsa (domain ++ msg)
  have hlen : ¬ ((k.publicKey E).length ≠ hybridPkLen ∨
      (k.signDomain E domain msg).length ≠ hybridSigLen) := by
    simp [HybridSigningKey.publicKey, HybridSigningKey.signDomain, hedPk, hedSig, hdPk, hdSig,
      hybridPkLen, hybridSigLen]
  have hed := hE.verifyDomain_signDomain k.ed domain msg
  unfold verifyHybridDomain
  rw [if_neg hlen]
  simp [HybridSigningKey.publicKey, HybridSigningKey.signDomain, ← hedPk, ← hedSig, hed,
    verifyMldsa65, hdPk, hD.isSignature_sign, hD.verify_sign, Except.isOk, Except.toBool]

end Verify
end Dmtap
