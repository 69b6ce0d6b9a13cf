import Dmtap.Suite
import Dmtap.Kt.Tree

/-! The key-transparency log: its tree heads, the two kinds of proof, their verifiers, and
the tree that emits them. Indices are `u64`s that only ever shrink, so the loops run on `ℕ`. -/
namespace Dmtap.Kt
open Dmtap.Lib

structure SignedTreeHead (Id : Type) where
  suite : Suite
  logId : Bytes
  treeSize : UInt64
  timestamp : UInt64
  rootHash : Id
  sig : Bytes

structure InclusionProof (Id : Type) where
  treeSize : UInt64
  leafIndex : UInt64
  leafHash : Id
  auditPath : List Id

structure ConsistencyProof (Id : Type) where
  firstSize : UInt64
  secondSize : UInt64
  proofPath : List Id

inductive KtError
  | proofInvalid
  | leafHashMismatch
  | notConsistent
  deriving DecidableEq, Repr

/-- The wire error code. -/
def KtError.code : KtError → UInt16
  | .proofInvalid => 0x0108
  | .leafHashMismatch => 0x0117
  | .notConsistent => 0x0110

/-- Halve both indices at least once, until the first is odd or zero. -/
def skipLoop (nodeIdx lastIdx : ℕ) : ℕ × ℕ :=
  if nodeIdx / 2 % 2 = 1 ∨ nodeIdx / 2 = 0 then (nodeIdx / 2, lastIdx / 2)
  else skipLoop (nodeIdx / 2) (lastIdx / 2)
termination_by nodeIdx

/-- Halve both indices while the first is odd. -/
def stripLoop (nodeIdx lastIdx : ℕ) : ℕ × ℕ :=
  if nodeIdx % 2 = 1 then stripLoop (nodeIdx / 2) (lastIdx / 2) else (nodeIdx, lastIdx)
termination_by nodeIdx

section Verifiers
variable {Id D : Type} [DecidableEq D] (H : Hashing Id D)

/-- The loop over an audit path; `none` stands for an early `false`. -/
def foldLoop : List Id → ℕ → ℕ → D → Option (D × ℕ)
  | [], _, lastIdx, r => some (r, lastIdx)
  | p :: path, nodeIdx, lastIdx, r =>
    match H.digest32 p with
    | none => none
    | some pd =>
      if lastIdx = 0 then none
      else if nodeIdx % 2 = 1 ∨ nodeIdx = lastIdx then
        let idx := if nodeIdx % 2 = 0 then skipLoop nodeIdx lastIdx else (nodeIdx, lastIdx)
        foldLoop path (idx.1 / 2) (idx.2 / 2) (H.node pd r)
      else foldLoop path (nodeIdx / 2) (lastIdx / 2) (H.node r pd)

def foldInclusion (proof : InclusionProof Id) (root : Id) : Bool :=
  match H.digest32 proof.leafHash, H.digest32 root with
  | some leaf, some rootD =>
    if proof.leafIndex.toNat ≥ proof.treeSize.toNat then false
    else
      match foldLoop H proof.auditPath proof.leafIndex.toNat (proof.treeSize.toNat - 1) leaf with
      | some (r, lastIdx) => lastIdx = 0 ∧ r = rootD
      | none => false
  | _, _ => false

/-- An audit path is accepted when it folds the leaf to the root. -/
def InclusionProof.verifyRoot (proof : InclusionProof Id) (root : Id) : Except KtError Unit :=
  if foldInclusion H proof root then .ok () else .error .proofInvalid

def InclusionProof.verifyAgainst (proof : InclusionProof Id) (sth : SignedTreeHead Id) :
    Except KtError Unit :=
  if proof.treeSize ≠ sth.treeSize then .error .proofInvalid
  else proof.verifyRoot H sth.rootHash

/-- The loop in which the old and the new hash climb together; it yields the last index,
the nodes left over and the two hashes. -/
def jointLoop (nodeIdx lastIdx : ℕ) (it : List D) (oldHash newHash : D) :
    Option (ℕ × List D × D × D) :=
  if nodeIdx = 0 then some (lastIdx, it, oldHash, newHash)
  else if nodeIdx % 2 = 1 then
    match it with
    | [] => none
    | s :: it =>
      jointLoop (nodeIdx / 2) (lastIdx / 2) it (H.node s oldHash) (H.node s newHash)
  else if nodeIdx < lastIdx then
    match it with
    | [] => none
    | s :: it => jointLoop (nodeIdx / 2) (lastIdx / 2) it oldHash (H.node newHash s)
  else jointLoop (nodeIdx / 2) (lastIdx / 2) it oldHash newHash
termination_by nodeIdx

/-- The loop that folds the remaining right-hand nodes into the new hash. -/
def rightLoop (lastIdx : ℕ) (it : List D) (newHash : D) : Option (List D × D) :=
  if lastIdx = 0 then some (it, newHash)
  else
    match it with
    | [] => none
    | s :: it => rightLoop (lastIdx / 2) it (H.node newHash s)
termination_by lastIdx

/-- Both loops from a common seed, and the final checks: every node is used and both roots
are reconstructed; `none` is a refusal. -/
def reconstruct (nodeIdx lastIdx : ℕ) (seed : D) (it : List D) (oldRoot newRoot : D) :
    Option Unit := do
  let (lastIdx, it, oldHash, newHash) ← jointLoop H nodeIdx lastIdx it seed seed
  let (it, newHash) ← rightLoop H lastIdx it newHash
  if it ≠ [] ∨ oldHash ≠ oldRoot ∨ newHash ≠ newRoot then none else some ()

/-- The fold of a consistency path between sizes `0 < m < n`. The seed is the first node of
the path, or the old root itself when `m` is a power of two. -/
def foldConsistency (m n : ℕ) (oldRoot newRoot : D) (path : List D) : Option Unit :=
  let (nodeIdx, lastIdx) := stripLoop (m - 1) (n - 1)
  if nodeIdx > 0 then
    match path with
    | [] => none
    | h :: it => reconstruct H nodeIdx lastIdx h it oldRoot newRoot
  else reconstruct H nodeIdx lastIdx oldRoot path oldRoot newRoot

def KtError.okOr {α : Type} (e : KtError) : Option α → Except KtError α
  | some a => .ok a
  | none => .error e

/-- Whether `new` is an append-only extension of `old`. -/
def verifyConsistency (old new : SignedTreeHead Id) (proof : ConsistencyProof Id) :
    Except KtError Unit :=
  let m := old.treeSize.toNat
  let n := new.treeSize.toNat
  if proof.firstSize ≠ old.treeSize ∨ proof.secondSize ≠ new.treeSize ∨ m > n then
    .error .notConsistent
  else do
    let oldRoot ← KtError.notConsistent.okOr (H.digest32 old.rootHash)
    let newRoot ← KtError.notConsistent.okOr (H.digest32 new.rootHash)
    if m = n then
      if proof.proofPath.isEmpty ∧ oldRoot = newRoot then .ok () else .error .notConsistent
    else if m = 0 then
      if proof.proofPath.isEmpty then .ok () else .error .notConsistent
    else
      let path ← KtError.notConsistent.okOr (proof.proofPath.mapM H.digest32)
      KtError.notConsistent.okOr (foldConsistency H m n oldRoot newRoot path)

end Verifiers

/-- The in-memory tree over leaf digests. -/
structure MerkleTree (D : Type) where
  leaves : List D

namespace MerkleTree
section
variable {Id D : Type} (H : Hashing Id D)

def new : MerkleTree D := ⟨[]⟩

/-- Append a leaf and return its index; a malformed leaf hash leaves the tree as it is. -/
def append (t : MerkleTree D) (leafHash : Id) : Option UInt64 × MerkleTree D :=
  match H.digest32 leafHash with
  | none => (none, t)
  | some d =>
    let leaves := t.leaves ++ [d]
    (some (UInt64.ofNat (leaves.length - 1)), ⟨leaves⟩)

/-- The tree after a sequence of `append` calls on the empty tree. -/
def appendAll (leafHashes : List Id) : MerkleTree D :=
  leafHashes.foldl (fun t leafHash => (t.append H leafHash).2) new

def size (t : MerkleTree D) : UInt64 := UInt64.ofNat t.leaves.length

def root (t : MerkleTree D) : Option Id :=
  if h : 0 < t.leaves.length then some (H.asContentId (mth H.node t.leaves h)) else none

def inclusionPath (t : MerkleTree D) (index : UInt64) : Option (List Id) :=
  if index.toNat ≥ t.leaves.length then none
  else some ((auditPath H.node index.toNat t.leaves).map H.asContentId)

def consistencyPath (t : MerkleTree D) (first : UInt64) : Option (List Id) :=
  let m := first.toNat
  if h : 0 < m ∧ m ≤ t.leaves.length then
    let path := if m = t.leaves.length then [] else subproof H.node m t.leaves h true
    some (path.map H.asContentId)
  else none

end
end MerkleTree
end Dmtap.Kt
