import Dmtap.Kt.Inclusion

/-! The consistency verifier accepts the consistency path of a tree, and accepts no path
between the roots of two logs of which the first is not a prefix of the second. -/
namespace Dmtap.Kt
open Dmtap.Lib

section Strip
variable {h a b : ℕ}

theorem stripLoop_odd (ho : a % 2 = 1) : stripLoop a b = stripLoop (a / 2) (b / 2) := by
  rw [stripLoop, if_pos ho]

theorem stripLoop_even (he : a % 2 = 0) : stripLoop a b = (a, b) := by
  rw [stripLoop, if_neg (by omega)]

/-- The sides of the consistency nodes after the seed, for last indices `a` and `b`. -/
def growth (a b : ℕ) : List Side := climb (stripLoop a b).1 (stripLoop a b).2

theorem growth_full (hlo : 2 ^ h ≤ b) (hhi : b < 2 ^ (h + 1)) :
    stripLoop (2 ^ h - 1) b = (0, 1) := by
  induction h generalizing b with
  | zero =>
    have hb : b = 1 := by simp at hlo hhi; omega
    rw [stripLoop_even (by simp), hb]
    rfl
  | succ h ih =>
    have hpow : 2 ^ (h + 1) = 2 * 2 ^ h := by ring
    have hpow' : 2 ^ (h + 1 + 1) = 2 * 2 ^ (h + 1) := by ring
    have hpos := Nat.two_pow_pos h
    rw [stripLoop_odd (by omega), show (2 ^ (h + 1) - 1) / 2 = 2 ^ h - 1 by omega]
    exact ih (by omega) (by omega)

theorem growth_lower (ha : a + 1 < 2 ^ h) (hlo : 2 ^ h ≤ b) (hhi : b < 2 ^ (h + 1)) :
    growth a b = growth a (2 ^ h - 1) ++ [.right] ∧
      (stripLoop a b).1 = (stripLoop a (2 ^ h - 1)).1 := by
  unfold growth
  induction h generalizing a b with
  | zero => simp at ha
  | succ h ih =>
    have hpow : 2 ^ (h + 1) = 2 * 2 ^ h := by ring
    have hpow' : 2 ^ (h + 1 + 1) = 2 * 2 ^ (h + 1) := by ring
    by_cases ho : a % 2 = 1
    · rw [stripLoop_odd ho, stripLoop_odd ho, show (2 ^ (h + 1) - 1) / 2 = 2 ^ h - 1 by omega]
      exact ih (by omega) (by omega) (by omega)
    · rw [stripLoop_even (by omega), stripLoop_even (by omega)]
      exact ⟨climb_lower (by omega) hlo hhi, rfl⟩

theorem growth_upper (ha : a + 1 < 2 ^ h) (hab : a ≤ b) (hb : b < 2 ^ h) :
    growth (2 ^ h + a) (2 ^ h + b) = growth a b ++ [.left] ∧
      (stripLoop (2 ^ h + a) (2 ^ h + b)).1 ≠ 0 := by
  unfold growth
  induction h generalizing a b with
  | zero => simp at ha
  | succ h ih =>
    have hpow : 2 ^ (h + 1) = 2 * 2 ^ h := by ring
    have hpos := Nat.two_pow_pos h
    by_cases ho : a % 2 = 1
    · rw [stripLoop_odd ho, stripLoop_odd (by omega),
        show (2 ^ (h + 1) + a) / 2 = 2 ^ h + a / 2 by omega,
        show (2 ^ (h + 1) + b) / 2 = 2 ^ h + b / 2 by omega]
      exact ih (by omega) (by omega) (by omega)
    · rw [stripLoop_even (by omega), stripLoop_even (by omega)]
      exact ⟨climb_upper hab hb, by dsimp only; omega⟩

theorem stripLoop_le (hab : a ≤ b) : (stripLoop a b).1 ≤ (stripLoop a b).2 := by
  induction a using Nat.strong_induction_on generalizing b with
  | _ a ih =>
    by_cases ho : a % 2 = 1
    · rw [stripLoop_odd ho]
      exact ih (a / 2) (by omega) (by omega)
    · rw [stripLoop_even (by omega)]
      exact hab

end Strip

/-- The steps at which the smaller tree grows too: those with a sibling on the left. -/
def leftSteps {D : Type} (steps : List (Side × D)) : List (Side × D) :=
  steps.filter (fun s => s.1 = .left)

@[simp] theorem leftSteps_left {D : Type} (d : D) (steps : List (Side × D)) :
    leftSteps ((.left, d) :: steps) = (.left, d) :: leftSteps steps := rfl

@[simp] theorem leftSteps_right {D : Type} (d : D) (steps : List (Side × D)) :
    leftSteps ((.right, d) :: steps) = leftSteps steps := rfl

theorem climb_from_zero (last : ℕ) : ∀ side ∈ climb 0 last, side = .right := by
  induction last using Nat.strong_induction_on with
  | _ last ih =>
    by_cases hl : last = 0
    · simp [hl]
    · rw [climb_even (by simp) (by omega)]
      simpa using ih (last / 2) (by omega)

theorem leftSteps_of_right {D : Type} {steps : List (Side × D)}
    (h : ∀ side ∈ steps.map Prod.fst, side = .right) : leftSteps steps = [] := by
  unfold leftSteps
  rw [List.filter_eq_nil_iff]
  intro s hs
  simp [h s.1 (List.mem_map_of_mem hs)]

section Verifier
variable {Id D : Type} (H : Hashing Id D)

theorem rightLoop_eq_some {lastIdx : ℕ} {it : List D} {newHash newHash' : D} :
    rightLoop H lastIdx it newHash = some ([], newHash') ↔
      ∃ steps : List (Side × D), steps.map Prod.fst = climb 0 lastIdx ∧ it = steps.map Prod.snd ∧
        foldPath H.node newHash steps = newHash' := by
  induction lastIdx using Nat.strong_induction_on generalizing it newHash with
  | _ lastIdx ih =>
    rw [rightLoop.eq_def]
    by_cases hl : lastIdx = 0
    · subst hl
      simp
    · rw [if_neg hl, climb_even (by simp) (by omega)]
      cases it with
      | nil => exact iff_of_false nofun not_exists_steps_nil
      | cons s it =>
        dsimp only
        rw [ih (lastIdx / 2) (by omega), exists_steps_cons]
        rfl

/-- The two loops together walk up one climb: the new hash takes every sibling, the old
hash those on the left. -/
theorem jointLoop_rightLoop {nodeIdx lastIdx : ℕ} (hle : nodeIdx ≤ lastIdx) {it : List D}
    {oldHash newHash oldHash' newHash' : D} :
    (∃ lastIdx' it' newHash'',
      jointLoop H nodeIdx lastIdx it oldHash newHash = some (lastIdx', it', oldHash', newHash'') ∧
        rightLoop H lastIdx' it' newHash'' = some ([], newHash')) ↔
      ∃ steps : List (Side × D), steps.map Prod.fst = climb nodeIdx lastIdx ∧
        it = steps.map Prod.snd ∧ foldPath H.node oldHash (leftSteps steps) = oldHash' ∧
        foldPath H.node newHash steps = newHash' := by
  induction nodeIdx using Nat.strong_induction_on generalizing lastIdx it oldHash newHash with
  | _ nodeIdx ih =>
    rw [jointLoop.eq_def]
    by_cases hz : nodeIdx = 0
    · subst hz
      simp only [if_true, Option.some.injEq, Prod.mk.injEq]
      constructor
      · rintro ⟨_, _, _, ⟨rfl, rfl, rfl, rfl⟩, hr⟩
        obtain ⟨steps, hs, hit, hfold⟩ := (rightLoop_eq_some H).mp hr
        refine ⟨steps, hs, hit, ?_, hfold⟩
        rw [leftSteps_of_right (hs ▸ climb_from_zero lastIdx), foldPath_nil]
      · rintro ⟨steps, hs, hit, hold, hfold⟩
        rw [leftSteps_of_right (hs ▸ climb_from_zero lastIdx), foldPath_nil] at hold
        exact ⟨_, _, _, ⟨rfl, rfl, hold, rfl⟩, (rightLoop_eq_some H).mpr ⟨steps, hs, hit, hfold⟩⟩
    · rw [if_neg hz]
      by_cases ho : nodeIdx % 2 = 1
      · rw [if_pos ho, climb_odd (by omega) ho]
        cases it with
        | nil => exact iff_of_false (by simp) not_exists_steps_nil
        | cons s it =>
          dsimp only
          rw [ih (nodeIdx / 2) (by omega) (by omega), exists_steps_cons]
          rfl
      · rw [if_neg ho]
        by_cases hlt : nodeIdx < lastIdx
        · rw [if_pos hlt, climb_even (by omega) hlt]
          cases it with
          | nil => exact iff_of_false (by simp) not_exists_steps_nil
          | cons s it =>
            dsimp only
            rw [ih (nodeIdx / 2) (by omega) (by omega), exists_steps_cons]
            rfl
        · have heq : nodeIdx = lastIdx := by omega
          subst heq
          rw [if_neg hlt, climb_last hz (by omega)]
          exact ih (nodeIdx / 2) (by omega) le_rfl

variable [DecidableEq D]

theorem reconstruct_eq_some {nodeIdx lastIdx : ℕ} (hle : nodeIdx ≤ lastIdx) {seed : D}
    {it : List D} {oldRoot newRoot : D} :
    reconstruct H nodeIdx lastIdx seed it oldRoot newRoot = some () ↔
      ∃ steps : List (Side × D), steps.map Prod.fst = climb nodeIdx lastIdx ∧
        it = steps.map Prod.snd ∧ foldPath H.node seed (leftSteps steps) = oldRoot ∧
        foldPath H.node seed steps = newRoot := by
  rw [← jointLoop_rightLoop H hle]
  unfold reconstruct
  constructor
  · intro h
    obtain ⟨⟨lastIdx', it', oldHash, newHash⟩, hjoint, h⟩ := Option.bind_eq_some_iff.mp h
    obtain ⟨⟨it'', newHash'⟩, hright, h⟩ := Option.bind_eq_some_iff.mp h
    dsimp only at hright h
    split_ifs at h with hcheck
    push Not at hcheck
    obtain ⟨rfl, rfl, rfl⟩ := hcheck
    exact ⟨lastIdx', it', newHash, hjoint, hright⟩
  · rintro ⟨lastIdx', it', newHash, hjoint, hright⟩
    simp [hjoint, hright]

/-- The nodes of an accepted path: the seed, unless the old root is the seed, and then one
node for each step of the growth. -/
theorem foldConsistency_eq_some {m n : ℕ} (hmn : m ≤ n) {oldRoot newRoot : D} {path : List D} :
    foldConsistency H m n oldRoot newRoot path = some () ↔
      ∃ (seed : D) (steps : List (Side × D)), steps.map Prod.fst = growth (m - 1) (n - 1) ∧
        (if (stripLoop (m - 1) (n - 1)).1 = 0 then seed = oldRoot ∧ path = steps.map Prod.snd
          else path = seed :: steps.map Prod.snd) ∧
        foldPath H.node seed (leftSteps steps) = oldRoot ∧
        foldPath H.node seed steps = newRoot := by
  have hle := stripLoop_le (a := m - 1) (b := n - 1) (by omega)
  unfold foldConsistency growth
  generalize stripLoop (m - 1) (n - 1) = idx at hle ⊢
  by_cases hz : idx.1 = 0
  · simp only [hz, gt_iff_lt, lt_self_iff_false, if_false, if_true]
    rw [← hz, reconstruct_eq_some H hle]
    constructor
    · rintro ⟨steps, hs, hit, hold, hnew⟩
      exact ⟨oldRoot, steps, hs, ⟨rfl, hit⟩, hold, hnew⟩
    · rintro ⟨seed, steps, hs, ⟨rfl, hit⟩, hold, hnew⟩
      exact ⟨steps, hs, hit, hold, hnew⟩
  · simp only [Nat.pos_of_ne_zero hz, hz, if_true, if_false]
    cases path with
    | nil => simp
    | cons d it =>
      dsimp only
      rw [reconstruct_eq_some H hle]
      constructor
      · rintro ⟨steps, hs, hit, hold, hnew⟩
        exact ⟨d, steps, hs, by rw [hit], hold, hnew⟩
      · rintro ⟨seed, steps, hs, hpath, hold, hnew⟩
        obtain ⟨rfl, rfl⟩ := List.cons.inj hpath
        exact ⟨steps, hs, rfl, hold, hnew⟩

end Verifier

section Prover
variable {D : Type} (node : D → D → D)

/-- What the consistency nodes of the first `m` leaves are: a seed and one node for each
step of the growth, folding to both tree hashes. The seed is left out when `b` asks for it
and the old tree is a left spine of the new one. -/
structure Grows (leaves : List D) (m : ℕ) (seed : D) (steps : List (Side × D)) : Prop where
  sides : steps.map Prod.fst = growth (m - 1) (leaves.length - 1)
  nodes : ∀ hm, subproof node m leaves hm false = seed :: steps.map Prod.snd
  nodes_true : ∀ hm, subproof node m leaves hm true =
    if (stripLoop (m - 1) (leaves.length - 1)).1 = 0 then steps.map Prod.snd
    else seed :: steps.map Prod.snd
  old : ∀ h, foldPath node seed (leftSteps steps) = mth node (leaves.take m) h
  new : ∀ h, foldPath node seed steps = mth node leaves h

theorem leftSteps_concat_right (steps : List (Side × D)) (d : D) :
    leftSteps (steps ++ [(.right, d)]) = leftSteps steps := by
  simp [leftSteps]

theorem leftSteps_concat_left (steps : List (Side × D)) (d : D) :
    leftSteps (steps ++ [(.left, d)]) = leftSteps steps ++ [(.left, d)] := by
  simp [leftSteps]

section Cases
variable {node} {leaves : List D} {j m : ℕ} {seed : D} {steps : List (Side × D)}
  (hk : splitPoint leaves.length = 2 ^ j) (hlt : 2 ^ j < leaves.length)
  (hle : leaves.length ≤ 2 * 2 ^ j) (hl : 0 < (leaves.take (2 ^ j)).length)
  (hr : 0 < (leaves.drop (2 ^ j)).length)

include hk hlt hle

/-- The old tree is the left subtree. -/
theorem grows_full :
    Grows node leaves (2 ^ j) (mth node (leaves.take (2 ^ j)) hl)
      [(.right, mth node (leaves.drop (2 ^ j)) hr)] := by
  have hpow : 2 ^ (j + 1) = 2 * 2 ^ j := by ring
  have hpos := Nat.two_pow_pos j
  have hstrip : stripLoop (2 ^ j - 1) (leaves.length - 1) = (0, 1) :=
    growth_full (by omega) (by omega)
  have hself : 0 < 2 ^ j ∧ 2 ^ j ≤ (leaves.take (2 ^ j)).length := by
    rw [List.length_take]
    omega
  have hlen : 2 ^ j = (leaves.take (2 ^ j)).length := by
    rw [List.length_take]
    omega
  constructor
  · rw [growth, hstrip, climb_even (by simp) (by simp)]
    simp
  · intro hm
    rw [subproof_lower node hk hr hm (by omega) hself, subproof_self node hself hlen hl]
    rfl
  · intro hm
    rw [subproof_lower node hk hr hm (by omega) hself, subproof_self node hself hlen hl, hstrip]
    rfl
  · intro h
    rfl
  · intro h
    rw [mth_split node hk hl hr (by omega) h]
    rfl

/-- The old tree lies inside the left subtree. -/
theorem grows_lower (hm : 0 < m) (hmk : m < 2 ^ j)
    (hg : Grows node (leaves.take (2 ^ j)) m seed steps) :
    Grows node leaves m seed (steps ++ [(.right, mth node (leaves.drop (2 ^ j)) hr)]) := by
  have hpow : 2 ^ (j + 1) = 2 * 2 ^ j := by ring
  have htake : (leaves.take (2 ^ j)).length = 2 ^ j := by
    rw [List.length_take]
    omega
  have hmt : 0 < m ∧ m ≤ (leaves.take (2 ^ j)).length := by omega
  obtain ⟨hgrowth, hstrip⟩ := growth_lower (h := j) (a := m - 1) (b := leaves.length - 1)
    (by omega) (by omega) (by omega)
  constructor
  · rw [List.map_append, hg.sides, htake, hgrowth]
    rfl
  · intro hmn
    rw [subproof_lower node hk hr hmn (by omega) hmt, hg.nodes]
    simp
  · intro hmn
    rw [subproof_lower node hk hr hmn (by omega) hmt, hg.nodes_true, hstrip, htake]
    split_ifs <;> simp
  · intro h
    rw [leftSteps_concat_right]
    have hsame : (leaves.take (2 ^ j)).take m = leaves.take m := by
      rw [List.take_take, min_eq_left (by omega)]
    rw [hg.old (by rw [hsame]; exact h)]
    exact mth_congr hsame _ _
  · intro h
    rw [foldPath_concat, hg.new (by omega), mth_split node hk (by omega) hr (by omega) h]
    rfl

/-- The old tree covers the left subtree and reaches into the right one. -/
theorem grows_upper (hmk : 2 ^ j < m) (hmn : m < leaves.length)
    (hg : Grows node (leaves.drop (2 ^ j)) (m - 2 ^ j) seed steps) :
    Grows node leaves m seed (steps ++ [(.left, mth node (leaves.take (2 ^ j)) hl)]) := by
  have hdrop : (leaves.drop (2 ^ j)).length = leaves.length - 2 ^ j := List.length_drop
  have hmd : 0 < m - 2 ^ j ∧ m - 2 ^ j ≤ (leaves.drop (2 ^ j)).length := by omega
  obtain ⟨hgrowth, hstrip⟩ := growth_upper (h := j) (a := m - 2 ^ j - 1)
    (b := leaves.length - 2 ^ j - 1) (by omega) (by omega) (by omega)
  rw [show 2 ^ j + (m - 2 ^ j - 1) = m - 1 by omega,
    show 2 ^ j + (leaves.length - 2 ^ j - 1) = leaves.length - 1 by omega] at hgrowth hstrip
  have hnodes : ∀ hm b, subproof node m leaves hm b =
      (seed :: steps.map Prod.snd) ++ [mth node (leaves.take (2 ^ j)) hl] := by
    intro hm b
    rw [subproof_upper node hk hl hm (by omega) hmd, hg.nodes]
  constructor
  · rw [List.map_append, hg.sides, hdrop, hgrowth]
    rfl
  · intro hm
    rw [hnodes]
    simp
  · intro hm
    rw [hnodes, if_neg hstrip]
    simp
  · intro h
    have htm : (leaves.take m).length = m := by
      rw [List.length_take]
      omega
    have hkm : splitPoint (leaves.take m).length = 2 ^ j := by
      rw [htm]
      exact splitPoint_eq hmk (by omega)
    have htake : (leaves.take m).take (2 ^ j) = leaves.take (2 ^ j) := by
      rw [List.take_take, min_eq_left (by omega)]
    have hrest : (leaves.take m).drop (2 ^ j) = (leaves.drop (2 ^ j)).take (m - 2 ^ j) :=
      List.drop_take
    have hpos := Nat.two_pow_pos j
    rw [leftSteps_concat_left, foldPath_concat, hg.old (by rw [← hrest, List.length_drop]; omega),
      mth_split node hkm (by rw [htake]; exact hl) (by rw [List.length_drop]; omega) (by omega) h]
    exact congrArg₂ node (mth_congr htake.symm _ _) (mth_congr hrest.symm _ _)
  · intro h
    rw [foldPath_concat, hg.new (by omega), mth_split node hk hl (by omega) (by omega) h]
    rfl

end Cases

theorem exists_grows (leaves : List D) (m : ℕ) (hm : 0 < m) (hmn : m < leaves.length) :
    ∃ seed steps, Grows node leaves m seed steps := by
  have hn2 : 2 ≤ leaves.length := by omega
  obtain ⟨j, hk, hlt, hle, htake, hdrop, hpos⟩ := exists_split hn2
  have hl : 0 < (leaves.take (2 ^ j)).length := by omega
  have hr : 0 < (leaves.drop (2 ^ j)).length := by omega
  rcases lt_trichotomy m (2 ^ j) with hmk | hmk | hmk
  · obtain ⟨seed, steps, hg⟩ := exists_grows (leaves.take (2 ^ j)) m hm (by omega)
    exact ⟨seed, _, grows_lower hk hlt hle hr hm hmk hg⟩
  · subst hmk
    exact ⟨_, _, grows_full hk hlt hle hl hr⟩
  · obtain ⟨seed, steps, hg⟩ := exists_grows (leaves.drop (2 ^ j)) (m - 2 ^ j) (by omega) (by omega)
    exact ⟨seed, _, grows_upper hk hlt hle hl hmk hmn hg⟩
termination_by leaves.length

end Prover

section Main
variable {Id D : Type} (H : Hashing Id D)

theorem mapM_digest32 {path : List Id} {ds : List D} :
    path.mapM H.digest32 = some ds ↔ path = ds.map H.asContentId := by
  induction path generalizing ds with
  | nil => simp [eq_comm]
  | cons p path ih =>
    rw [List.mapM_cons]
    constructor
    · intro h
      obtain ⟨d, hd, h⟩ := Option.bind_eq_some_iff.mp h
      obtain ⟨ds', hds, h⟩ := Option.bind_eq_some_iff.mp h
      have hcons : d :: ds' = ds := Option.some.inj h
      rw [← hcons, List.map_cons, ih.mp hds, (H.digest32_eq_some p d).mp hd]
    · intro h
      cases ds with
      | nil => cases h
      | cons d ds =>
        obtain ⟨hp, hpath⟩ := List.cons.inj h
        rw [(H.digest32_eq_some p d).mpr hp, ih.mpr hpath]
        rfl

variable [DecidableEq D]

/-- The verifier between heads whose roots are known digests. -/
theorem verifyConsistency_eq_ok {old new : SignedTreeHead Id} {proof : ConsistencyProof Id}
    {oldRoot newRoot : D} (hold : old.rootHash = H.asContentId oldRoot)
    (hnew : new.rootHash = H.asContentId newRoot) (hpos : 0 < old.treeSize.toNat) :
    verifyConsistency H old new proof = .ok () ↔
      (proof.firstSize = old.treeSize ∧ proof.secondSize = new.treeSize ∧
        old.treeSize.toNat ≤ new.treeSize.toNat) ∧
      if old.treeSize.toNat = new.treeSize.toNat then
        proof.proofPath = [] ∧ oldRoot = newRoot
      else ∃ ds : List D, proof.proofPath = ds.map H.asContentId ∧
        foldConsistency H old.treeSize.toNat new.treeSize.toNat oldRoot newRoot ds = some () := by
  unfold verifyConsistency
  rw [(H.digest32_eq_some _ _).mpr hold, (H.digest32_eq_some _ _).mpr hnew]
  by_cases hsizes : proof.firstSize = old.treeSize ∧ proof.secondSize = new.treeSize ∧
      old.treeSize.toNat ≤ new.treeSize.toNat
  · obtain ⟨hf, hs, hle⟩ := hsizes
    have hno : ¬ (proof.firstSize ≠ old.treeSize ∨ proof.secondSize ≠ new.treeSize ∨
        old.treeSize.toNat > new.treeSize.toNat) := by
      simp [hf, hs, hle]
    dsimp only
    rw [if_neg hno, and_iff_right ⟨hf, hs, hle⟩]
    change (if old.treeSize.toNat = new.treeSize.toNat then _ else _) = Except.ok () ↔ _
    by_cases hmn : old.treeSize.toNat = new.treeSize.toNat
    · rw [if_pos hmn, if_pos hmn, ← List.isEmpty_iff]
      split_ifs with h
      · exact iff_of_true rfl h
      · exact iff_of_false nofun h
    · rw [if_neg hmn, if_neg hmn, if_neg (by omega)]
      cases hds : proof.proofPath.mapM H.digest32 with
      | none =>
        refine iff_of_false nofun ?_
        rintro ⟨ds, hpath, -⟩
        rw [(mapM_digest32 H).mpr hpath] at hds
        cases hds
      | some ds =>
        have hpath := (mapM_digest32 H).mp hds
        constructor
        · intro h
          refine ⟨ds, hpath, ?_⟩
          change KtError.notConsistent.okOr (foldConsistency H _ _ oldRoot newRoot ds) = _ at h
          cases hf : foldConsistency H old.treeSize.toNat new.treeSize.toNat oldRoot newRoot ds with
          | none => rw [hf] at h; cases h
          | some u => rfl
        · rintro ⟨ds', hpath', hfold⟩
          rw [(mapM_digest32 H).mpr hpath'] at hds
          obtain rfl := Option.some.inj hds
          change KtError.notConsistent.okOr (foldConsistency H _ _ oldRoot newRoot ds') = _
          rw [hfold]
          rfl
  · refine iff_of_false ?_ (fun h => hsizes h.1)
    have hyes : proof.firstSize ≠ old.treeSize ∨ proof.secondSize ≠ new.treeSize ∨
        old.treeSize.toNat > new.treeSize.toNat := by
      by_contra hno
      push Not at hno
      exact hsizes hno
    rw [if_pos hyes]
    nofun

/-- Completeness: the consistency path of a tree shows that it extends its own prefix. -/
theorem consistency_complete (leaves : List D) (m : UInt64) (hfits : leaves.length < 2 ^ 64)
    (hm : 1 ≤ m.toNat ∧ m.toNat ≤ leaves.length) (old new : SignedTreeHead Id)
    (hold : old.treeSize = m ∧ old.rootHash = H.asContentId
      (mth H.node (leaves.take m.toNat) (by rw [List.length_take]; omega)))
    (hnew : new.treeSize = UInt64.ofNat leaves.length ∧
      new.rootHash = H.asContentId (mth H.node leaves (by omega))) :
    ∃ path, (MerkleTree.mk leaves).consistencyPath H m = some path ∧
      verifyConsistency H old new ⟨old.treeSize, new.treeSize, path⟩ = .ok () := by
  have hn : new.treeSize.toNat = leaves.length := by
    rw [hnew.1, UInt64.toNat_ofNat', Nat.mod_eq_of_lt hfits]
  refine ⟨_, dif_pos hm, ?_⟩
  rw [verifyConsistency_eq_ok H hold.2 hnew.2 (by rw [hold.1]; omega), hn, hold.1]
  refine ⟨⟨rfl, rfl, hm.2⟩, ?_⟩
  dsimp only
  by_cases hmn : m.toNat = leaves.length
  · rw [if_pos hmn, if_pos hmn]
    refine ⟨rfl, mth_congr ?_ _ _⟩
    rw [hmn, List.take_length]
  · rw [if_neg hmn, if_neg hmn]
    refine ⟨_, rfl, ?_⟩
    obtain ⟨seed, steps, hg⟩ := exists_grows H.node leaves m.toNat (by omega) (by omega)
    rw [foldConsistency_eq_some H hm.2]
    refine ⟨seed, steps, hg.sides, ?_, hg.old _, hg.new _⟩
    rw [hg.nodes_true]
    split_ifs with hz
    · refine ⟨?_, rfl⟩
      have hright : leftSteps steps = [] := by
        refine leftSteps_of_right ?_
        rw [hg.sides, growth, hz]
        exact climb_from_zero _
      rw [← hg.old, hright, foldPath_nil]
    · rfl

/-- Soundness: with an injective node hash an accepted proof between the roots of two logs
shows that the first log is a prefix of the second. -/
theorem consistency_sound (hnode : Function.Injective2 H.node) (leaves₁ leaves₂ : List D)
    (h₁ : 1 ≤ leaves₁.length) (h₂ : 0 < leaves₂.length) (old new : SignedTreeHead Id)
    (hold : old.treeSize.toNat = leaves₁.length ∧
      old.rootHash = H.asContentId (mth H.node leaves₁ h₁))
    (hnew : new.treeSize.toNat = leaves₂.length ∧
      new.rootHash = H.asContentId (mth H.node leaves₂ h₂))
    (p : ConsistencyProof Id) (hok : verifyConsistency H old new p = .ok ()) :
    leaves₁ <+: leaves₂ := by
  rw [verifyConsistency_eq_ok H hold.2 hnew.2 (by omega), hold.1, hnew.1] at hok
  obtain ⟨⟨-, -, hle⟩, hok⟩ := hok
  by_cases hlen : leaves₁.length = leaves₂.length
  · rw [if_pos hlen] at hok
    have heq : leaves₁ = leaves₂ := mth_injective hnode h₁ h₂ hlen hok.2
    exact heq ▸ List.prefix_rfl
  · rw [if_neg hlen] at hok
    obtain ⟨ds, -, hfold⟩ := hok
    rw [foldConsistency_eq_some H hle] at hfold
    obtain ⟨seed, steps, hs, -, hold', hnew'⟩ := hfold
    obtain ⟨seed', steps', hg⟩ := exists_grows H.node leaves₂ leaves₁.length (by omega) (by omega)
    have htake : (leaves₂.take leaves₁.length).length = leaves₁.length := by
      rw [List.length_take]
      omega
    obtain ⟨rfl, rfl⟩ := foldPath_injective hnode (hs.trans hg.sides.symm)
      (hnew'.trans (hg.new h₂).symm)
    have hroots : mth H.node leaves₁ h₁ =
        mth H.node (leaves₂.take leaves₁.length) (by omega) := by
      rw [← hold']
      exact hg.old _
    rw [mth_injective hnode _ _ htake.symm hroots]
    exact List.take_prefix _ _

end Main

/-- A head of given size and root. -/
def idealHead (treeSize : UInt64) (root : IdealDigest) : SignedTreeHead (Option IdealDigest) :=
  ⟨.classical, [], treeSize, 0, some root, []⟩

theorem consistency_complete_three_five :
    ∃ path, (MerkleTree.mk (List.map IdealDigest.leaf [0, 1, 2, 3, 4])).consistencyPath
        idealHashing 3 = some path ∧
      verifyConsistency idealHashing
        (idealHead 3 (.node (.node (.leaf 0) (.leaf 1)) (.leaf 2)))
        (idealHead 5 (.node (.node (.node (.leaf 0) (.leaf 1)) (.node (.leaf 2) (.leaf 3)))
          (.leaf 4))) ⟨3, 5, path⟩ = .ok () :=
  consistency_complete idealHashing (List.map IdealDigest.leaf [0, 1, 2, 3, 4]) 3 (by decide)
    (by decide) (idealHead 3 _) (idealHead 5 _) ⟨rfl, by decide +kernel⟩
    ⟨by decide, by decide +kernel⟩

theorem consistency_sound_two_three :
    [IdealDigest.leaf 0, .leaf 1] <+: [IdealDigest.leaf 0, .leaf 1, .leaf 2] := by
  have hok : verifyConsistency idealHashing (idealHead 2 (.node (.leaf 0) (.leaf 1)))
      (idealHead 3 (.node (.node (.leaf 0) (.leaf 1)) (.leaf 2))) ⟨2, 3, [some (.leaf 2)]⟩ =
        .ok () := by
    have hold : (idealHead 2 (.node (.leaf 0) (.leaf 1))).rootHash =
        idealHashing.asContentId (.node (.leaf 0) (.leaf 1)) := rfl
    have hnew : (idealHead 3 (.node (.node (.leaf 0) (.leaf 1)) (.leaf 2))).rootHash =
        idealHashing.asContentId (.node (.node (.leaf 0) (.leaf 1)) (.leaf 2)) := rfl
    rw [verifyConsistency_eq_ok idealHashing hold hnew (by decide)]
    exact ⟨by decide, [.leaf 2], rfl, by decide +kernel⟩
  exact consistency_sound idealHashing idealHashing_node_injective _ _ (by decide) (by decide) _ _
    ⟨rfl, by decide +kernel⟩ ⟨rfl, by decide +kernel⟩ _ hok

end Dmtap.Kt
