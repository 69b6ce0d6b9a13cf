import Dmtap.Kt.Log

/-! The audit path is the only path that the inclusion verifier accepts, and it does. -/
namespace Dmtap.Kt
open Dmtap.Lib

theorem skipLoop_spec {n : ℕ} (he : n % 2 = 0) (hn : n ≠ 0) :
    ∃ j, skipLoop n n = (j, j) ∧ j % 2 = 1 ∧ climb n n = climb j j := by
  induction n using Nat.strong_induction_on with
  | _ n ih =>
    rw [skipLoop, climb_last hn he]
    by_cases hodd : n / 2 % 2 = 1
    · exact ⟨n / 2, if_pos (Or.inl hodd), hodd, rfl⟩
    · obtain ⟨j, hj, hjodd, hclimb⟩ := ih (n / 2) (by omega) (by omega) (by omega)
      refine ⟨j, ?_, hjodd, hclimb⟩
      rw [if_neg (by omega), hj]

section Verifier
variable {Id D : Type} (H : Hashing Id D)

/-- One round of the loop over an audit path takes one step of the climb. -/
theorem foldLoop_cons {nodeIdx lastIdx : ℕ} (hle : nodeIdx ≤ lastIdx) (hl : lastIdx ≠ 0) :
    ∃ side nodeIdx' lastIdx', climb nodeIdx lastIdx = side :: climb nodeIdx' lastIdx' ∧
      nodeIdx' ≤ lastIdx' ∧ ∀ p pd path r, H.digest32 p = some pd →
        foldLoop H (p :: path) nodeIdx lastIdx r =
          foldLoop H path nodeIdx' lastIdx' (combine H.node r (side, pd)) := by
  by_cases hodd : nodeIdx % 2 = 1
  · refine ⟨.left, nodeIdx / 2, lastIdx / 2, climb_odd hl hodd, by omega, ?_⟩
    intro p pd path r hp
    rw [foldLoop, hp]
    simp only [hl, hodd, if_false, true_or, if_true, one_ne_zero]
    rfl
  · by_cases heq : nodeIdx = lastIdx
    · subst heq
      obtain ⟨j, hj, hjodd, hclimb⟩ := skipLoop_spec (n := nodeIdx) (by omega) hl
      refine ⟨.left, j / 2, j / 2, ?_, le_rfl, ?_⟩
      · rw [hclimb, climb_odd (by omega) hjodd]
      · intro p pd path r hp
        have he : nodeIdx % 2 = 0 := by omega
        rw [foldLoop, hp]
        simp only [hl, he, if_false, or_true, if_true, hj]
        rfl
    · refine ⟨.right, nodeIdx / 2, lastIdx / 2, climb_even (by omega) (by omega), by omega, ?_⟩
      intro p pd path r hp
      rw [foldLoop, hp]
      simp only [hl, hodd, heq, if_false, or_self]
      rfl

/-- The loop reaches the root level exactly along paths shaped like the climb. -/
theorem foldLoop_eq_some {path : List Id} {nodeIdx lastIdx : ℕ} (hle : nodeIdx ≤ lastIdx)
    (r r' : D) : foldLoop H path nodeIdx lastIdx r = some (r', 0) ↔
      ∃ steps : List (Side × D), steps.map Prod.fst = climb nodeIdx lastIdx ∧
        path = steps.map (fun s => H.asContentId s.2) ∧ foldPath H.node r steps = r' := by
  induction path generalizing nodeIdx lastIdx r with
  | nil =>
    by_cases hl : lastIdx = 0
    · subst hl
      simp [foldLoop]
    · have hne := climb_ne_nil hle hl
      simp only [foldLoop, Option.some.injEq, Prod.mk.injEq, hl, and_false, false_iff, not_exists]
      rintro steps ⟨hs, hp, -⟩
      have hnil : steps = [] := by simpa using hp.symm
      rw [hnil] at hs
      exact hne hs.symm
  | cons p path ih =>
    cases hp : H.digest32 p with
    | none =>
      rw [foldLoop, hp]
      refine ⟨nofun, ?_⟩
      rintro ⟨steps, -, hpath, -⟩
      cases steps with
      | nil => cases hpath
      | cons s steps =>
        have hsome := (H.digest32_eq_some p s.2).mpr (List.cons.inj hpath).1
        rw [hp] at hsome
        cases hsome
    | some pd =>
      have hpid := (H.digest32_eq_some p pd).mp hp
      by_cases hl : lastIdx = 0
      · subst hl
        rw [foldLoop, hp]
        refine ⟨nofun, ?_⟩
        rintro ⟨steps, hs, hpath, -⟩
        have hnil : steps = [] := by simpa using hs
        rw [hnil] at hpath
        cases hpath
      · obtain ⟨side, nodeIdx', lastIdx', hclimb, hle', hstep⟩ := foldLoop_cons H hle hl
        rw [hstep p pd path r hp, hclimb, ih hle']
        constructor
        · rintro ⟨steps, hs, hpath, hfold⟩
          exact ⟨(side, pd) :: steps, by simp [hs], by simp [hpath, hpid], hfold⟩
        · rintro ⟨steps, hs, hpath, hfold⟩
          cases steps with
          | nil => cases hs
          | cons s steps =>
            obtain ⟨hside, hs⟩ := List.cons.inj hs
            obtain ⟨hid, hpath⟩ := List.cons.inj hpath
            have hsome := (H.digest32_eq_some p s.2).mpr hid
            have hpd : pd = s.2 := Option.some.inj (hp.symm.trans hsome)
            refine ⟨steps, hs, hpath, ?_⟩
            rw [← hside, hpd]
            exact hfold

variable [DecidableEq D]

theorem foldInclusion_iff (proof : InclusionProof Id) (root : Id) :
    foldInclusion H proof root = true ↔ ∃ (leaf rootD : D) (steps : List (Side × D)),
      proof.leafHash = H.asContentId leaf ∧ root = H.asContentId rootD ∧
      proof.leafIndex.toNat < proof.treeSize.toNat ∧
      steps.map Prod.fst = climb proof.leafIndex.toNat (proof.treeSize.toNat - 1) ∧
      proof.auditPath = steps.map (fun s => H.asContentId s.2) ∧
      foldPath H.node leaf steps = rootD := by
  unfold foldInclusion
  constructor
  · intro h
    split at h
    · rename_i leaf rootD hleaf hroot
      split_ifs at h with hidx
      split at h
      · rename_i r lastIdx hloop
        obtain ⟨rfl, rfl⟩ := of_decide_eq_true h
        obtain ⟨steps, hs, hpath, hfold⟩ := (foldLoop_eq_some H (by omega) leaf r).mp hloop
        exact ⟨leaf, r, steps, (H.digest32_eq_some _ _).mp hleaf, (H.digest32_eq_some _ _).mp hroot,
          by omega, hs, hpath, hfold⟩
      · cases h
    · cases h
  · rintro ⟨leaf, rootD, steps, hleaf, hroot, hidx, hs, hpath, hfold⟩
    have hloop := (foldLoop_eq_some H (by omega) leaf rootD).mpr ⟨steps, hs, hpath, hfold⟩
    rw [(H.digest32_eq_some _ _).mpr hleaf, (H.digest32_eq_some _ _).mpr hroot]
    dsimp only
    rw [if_neg (by omega), hloop]
    simp

theorem verifyRoot_eq_ok (proof : InclusionProof Id) (root : Id) :
    proof.verifyRoot H root = .ok () ↔ foldInclusion H proof root = true := by
  unfold InclusionProof.verifyRoot
  split_ifs with h <;> simp [h]

end Verifier

section Prover
variable {D : Type} (node : D → D → D)

/-- The audit path has the shape of the climb and folds the leaf to the tree hash. -/
theorem auditPath_steps (leaves : List D) (i : ℕ) (hi : i < leaves.length)
    (h : 0 < leaves.length) :
    ∃ steps : List (Side × D), steps.map Prod.fst = climb i (leaves.length - 1) ∧
      steps.map Prod.snd = auditPath node i leaves ∧
      foldPath node (leaves.get ⟨i, hi⟩) steps = mth node leaves h := by
  by_cases hone : leaves.length = 1
  · obtain ⟨d, rfl⟩ := List.length_eq_one_iff.mp hone
    refine ⟨[], by simp, ?_, ?_⟩
    · rw [auditPath, dif_pos (by simp)]
      rfl
    · rw [mth_singleton]
      simp
  · have hn : 2 ≤ leaves.length := by omega
    obtain ⟨j, hk, hlt, hle, htake, hdrop, hpos⟩ := exists_split hn
    have hl : 0 < (leaves.take (2 ^ j)).length := by omega
    have hr : 0 < (leaves.drop (2 ^ j)).length := by omega
    have hmth := mth_split node hk hl hr hn h
    by_cases hik : i < 2 ^ j
    · obtain ⟨steps, hs, hpath, hfold⟩ :=
        auditPath_steps (leaves.take (2 ^ j)) i (by omega) hl
      have hpow : 2 ^ (j + 1) = 2 * 2 ^ j := by ring
      have hclimb : climb i (leaves.length - 1) = climb i (2 ^ j - 1) ++ [.right] :=
        climb_lower hik (by omega) (by omega)
      refine ⟨steps ++ [(.right, mth node (leaves.drop (2 ^ j)) hr)], ?_, ?_, ?_⟩
      · rw [List.map_append, hs, htake, hclimb]
        rfl
      · rw [List.map_append, hpath, auditPath_lower node hk hr hn hik]
        rfl
      · rw [foldPath_concat, hmth, ← hfold]
        simp [combine]
    · obtain ⟨steps, hs, hpath, hfold⟩ :=
        auditPath_steps (leaves.drop (2 ^ j)) (i - 2 ^ j) (by omega) hr
      have hclimb := climb_upper (h := j) (a := i - 2 ^ j) (b := leaves.length - 2 ^ j - 1)
        (by omega) (by omega)
      rw [show 2 ^ j + (i - 2 ^ j) = i by omega,
        show 2 ^ j + (leaves.length - 2 ^ j - 1) = leaves.length - 1 by omega] at hclimb
      refine ⟨steps ++ [(.left, mth node (leaves.take (2 ^ j)) hl)], ?_, ?_, ?_⟩
      · rw [List.map_append, hs, hdrop, hclimb]
        rfl
      · rw [List.map_append, hpath, auditPath_upper node hk hl hn (by omega)]
        rfl
      · rw [foldPath_concat, hmth, ← hfold]
        simp [combine, show 2 ^ j + (i - 2 ^ j) = i by omega]
termination_by leaves.length

end Prover

/-- Digests under an idealised node hash, which builds a term instead of hashing. -/
inductive IdealDigest
  | leaf (n : ℕ)
  | node (left right : IdealDigest)
  deriving DecidableEq, Repr

/-- The log over idealised digests; `none` is the malformed leaf hash. -/
def idealHashing : Hashing (Option IdealDigest) IdealDigest where
  digest32 := id
  asContentId := some
  node := .node
  digest32_eq_some _ _ := Iff.rfl

theorem idealHashing_node_injective : Function.Injective2 idealHashing.node := by
  intro a b c d h
  exact IdealDigest.node.inj h

section Main
variable {Id D : Type} [DecidableEq D] (H : Hashing Id D)

/-- Completeness: what a tree built by `append` proves about its leaves is accepted. -/
theorem inclusion_complete (leafHashes : List Id) (i : UInt64)
    (hfits : (MerkleTree.appendAll H leafHashes).leaves.length < 2 ^ 64)
    (hi : i.toNat < (MerkleTree.appendAll H leafHashes).leaves.length) :
    ∃ root path, (MerkleTree.appendAll H leafHashes).root H = some root ∧
      (MerkleTree.appendAll H leafHashes).inclusionPath H i = some path ∧
      InclusionProof.verifyRoot H
        { treeSize := (MerkleTree.appendAll H leafHashes).size
          leafIndex := i
          leafHash := H.asContentId ((MerkleTree.appendAll H leafHashes).leaves.get ⟨i.toNat, hi⟩)
          auditPath := path } root = .ok () := by
  generalize MerkleTree.appendAll H leafHashes = t at hfits hi ⊢
  have hpos : 0 < t.leaves.length := by omega
  have hsize : t.size.toNat = t.leaves.length := by
    rw [MerkleTree.size, UInt64.toNat_ofNat', Nat.mod_eq_of_lt hfits]
  obtain ⟨steps, hs, hpath, hfold⟩ := auditPath_steps H.node t.leaves i.toNat hi hpos
  refine ⟨_, _, dif_pos hpos, if_neg (by omega), ?_⟩
  rw [verifyRoot_eq_ok, foldInclusion_iff]
  refine ⟨_, _, steps, rfl, rfl, ?_, ?_, ?_, hfold⟩
  · rw [hsize]
    exact hi
  · rw [hsize]
    exact hs
  · rw [← hpath, List.map_map]
    rfl

/-- Soundness: with an injective node hash only the true leaf and the true audit path are
accepted against the root of a tree. -/
theorem inclusion_sound (hnode : Function.Injective2 H.node) (leaves : List D)
    (h : 0 < leaves.length) (p : InclusionProof Id) (hsize : p.treeSize.toNat = leaves.length)
    (hok : p.verifyRoot H (H.asContentId (mth H.node leaves h)) = .ok ()) :
    ∃ hi : p.leafIndex.toNat < leaves.length,
      p.leafHash = H.asContentId (leaves.get ⟨p.leafIndex.toNat, hi⟩) ∧
      p.auditPath = (auditPath H.node p.leafIndex.toNat leaves).map H.asContentId := by
  rw [verifyRoot_eq_ok, foldInclusion_iff] at hok
  obtain ⟨leaf, rootD, steps, hleaf, hroot, hidx, hs, hpath, hfold⟩ := hok
  rw [hsize] at hidx hs
  have hrootD : mth H.node leaves h = rootD := by
    have hsome := (H.digest32_eq_some _ rootD).mpr hroot
    rw [(H.digest32_eq_some _ _).mpr rfl] at hsome
    exact Option.some.inj hsome
  obtain ⟨steps', hs', hpath', hfold'⟩ := auditPath_steps H.node leaves p.leafIndex.toNat hidx h
  have hsame : foldPath H.node leaf steps =
      foldPath H.node (leaves.get ⟨p.leafIndex.toNat, hidx⟩) steps' := by
    rw [hfold, hfold', hrootD]
  obtain ⟨hl, hsteps⟩ := foldPath_injective hnode (hs.trans hs'.symm) hsame
  refine ⟨hidx, by rw [hleaf, hl], ?_⟩
  rw [hpath, hsteps, ← hpath', List.map_map]
  rfl

end Main

theorem inclusion_complete_three :
    ∃ root path, (MerkleTree.appendAll idealHashing
        [some (.leaf 0), none, some (.leaf 1), some (.leaf 2)]).root idealHashing = some root ∧
      (MerkleTree.appendAll idealHashing
        [some (.leaf 0), none, some (.leaf 1), some (.leaf 2)]).inclusionPath idealHashing 2 =
          some path ∧
      InclusionProof.verifyRoot idealHashing ⟨3, 2, some (.leaf 2), path⟩ root = .ok () :=
  inclusion_complete idealHashing [some (.leaf 0), none, some (.leaf 1), some (.leaf 2)] 2
    (by decide) (by decide)

theorem inclusion_sound_three :
    (2 : UInt64).toNat < 3 ∧
      auditPath IdealDigest.node 2 [.leaf 0, .leaf 1, .leaf 2] = [.node (.leaf 0) (.leaf 1)] := by
  obtain ⟨hi, -, hpath⟩ := inclusion_sound idealHashing idealHashing_node_injective
    [.leaf 0, .leaf 1, .leaf 2] (by decide)
    ⟨3, 2, some (.leaf 2), [some (.node (.leaf 0) (.leaf 1))]⟩ rfl
    ((verifyRoot_eq_ok idealHashing _ _).mpr (by decide +kernel))
  exact ⟨hi, (List.map_injective_iff.mpr (Option.some_injective _)) hpath.symm⟩

end Dmtap.Kt
