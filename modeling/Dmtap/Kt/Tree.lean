import Dmtap.Id
import Dmtap.Lib.IndexPath

/-! The append-only Merkle log: tree hash, audit paths and consistency paths. -/
namespace Dmtap.Kt
open Dmtap.Lib

/-- How leaf hashes are read as digests and how two digests make an interior node. The
log is written once over this interface, so that digests may also be an idealised type. -/
structure Hashing (Id D : Type) where
  digest32 : Id → Option D
  asContentId : D → Id
  node : D → D → D
  digest32_eq_some : ∀ id d, digest32 id = some d ↔ id = asContentId d

/-- The digest of a well-formed content address, `none` for any other. -/
def digest32 (id : ContentId) : Option Digest :=
  if id.algorithm = some mhBlake3 then
    if h : id.digest.length = 32 then some ⟨id.digest, h⟩ else none
  else none

def asContentId (digest : Digest) : ContentId := ⟨mhBlake3 :: digest.val⟩

/-- The interior node hash, with its prefix byte. -/
def node (blake3 : Bytes → Digest) (left right : Digest) : Digest :=
  blake3 (0x01 :: (left.val ++ right.val))

@[simp] theorem digest32_asContentId (d : Digest) : digest32 (asContentId d) = some d := by
  have halg : (asContentId d).algorithm = some mhBlake3 := rfl
  have hlen : (asContentId d).digest.length = 32 := d.property
  rw [digest32, if_pos halg, dif_pos hlen]
  rfl

theorem digest32_eq_some (id : ContentId) (d : Digest) :
    digest32 id = some d ↔ id = asContentId d := by
  constructor
  · intro h
    obtain ⟨b⟩ := id
    unfold digest32 at h
    split_ifs at h with halg hlen
    have hd := Option.some.inj h
    rw [← hd]
    cases b with
    | nil => cases halg
    | cons x b => rw [Option.some.inj halg]; rfl
  · rintro rfl
    exact digest32_asContentId d

/-- The log as the code runs it, over 32-byte digests. -/
def hashing (blake3 : Bytes → Digest) : Hashing ContentId Digest where
  digest32 := digest32
  asContentId := asContentId
  node := node blake3
  digest32_eq_some := digest32_eq_some

/-- Double `k` while the double stays below `n`. -/
def splitLoop (n k : ℕ) : ℕ :=
  if 0 < k ∧ 2 * k < n then splitLoop n (2 * k) else k
termination_by n - k

/-- The largest power of two strictly less than `n`, for `n ≥ 2`. -/
def splitPoint (n : ℕ) : ℕ := splitLoop n 1

theorem splitLoop_spec {n h : ℕ} (hlt : 2 ^ h < n) :
    ∃ j, splitLoop n (2 ^ h) = 2 ^ j ∧ 2 ^ j < n ∧ n ≤ 2 * 2 ^ j := by
  have hpos : 0 < 2 ^ h := Nat.two_pow_pos h
  by_cases hd : 2 * 2 ^ h < n
  · have hpow : 2 ^ (h + 1) = 2 * 2 ^ h := by ring
    have hnext := splitLoop_spec (n := n) (h := h + 1) (by omega)
    rw [hpow] at hnext
    rw [splitLoop, if_pos ⟨hpos, hd⟩]
    exact hnext
  · rw [splitLoop, if_neg (fun h => hd h.2)]
    exact ⟨h, rfl, hlt, by omega⟩
termination_by n - 2 ^ h

theorem splitPoint_spec {n : ℕ} (hn : 2 ≤ n) :
    ∃ j, splitPoint n = 2 ^ j ∧ 2 ^ j < n ∧ n ≤ 2 * 2 ^ j :=
  splitLoop_spec (h := 0) (by rw [pow_zero]; omega)

theorem splitPoint_pos {n : ℕ} (hn : 2 ≤ n) : 0 < splitPoint n := by
  obtain ⟨j, hj, -, -⟩ := splitPoint_spec hn
  rw [hj]
  exact Nat.two_pow_pos j

theorem splitPoint_lt {n : ℕ} (hn : 2 ≤ n) : splitPoint n < n := by
  obtain ⟨j, hj, hlt, -⟩ := splitPoint_spec hn
  rw [hj]
  exact hlt

/-- The split point is the only power of two in its range. -/
theorem splitPoint_eq {n h : ℕ} (hlt : 2 ^ h < n) (hle : n ≤ 2 * 2 ^ h) : splitPoint n = 2 ^ h := by
  have hpos : 0 < 2 ^ h := Nat.two_pow_pos h
  obtain ⟨j, hj, hjlt, hjle⟩ := splitPoint_spec (n := n) (by omega)
  have hlow : 2 ^ j < 2 ^ (h + 1) := by
    rw [pow_succ]
    omega
  have hhigh : 2 ^ h < 2 ^ (j + 1) := by
    rw [pow_succ]
    omega
  have hjh := (Nat.pow_lt_pow_iff_right (by norm_num : 1 < 2)).mp hlow
  have hhj := (Nat.pow_lt_pow_iff_right (by norm_num : 1 < 2)).mp hhigh
  rw [hj, show j = h by omega]

section Tree
variable {D : Type} (node : D → D → D)

/-- The tree hash of a non-empty list of leaf digests; the code indexes out of bounds on
an empty one. -/
def mth (leaves : List D) (h : 0 < leaves.length) : D :=
  if h1 : leaves.length = 1 then leaves.get ⟨0, h⟩
  else
    have hn : 2 ≤ leaves.length := by omega
    have hpos := splitPoint_pos hn
    have hlt := splitPoint_lt hn
    node (mth (leaves.take (splitPoint leaves.length)) (by rw [List.length_take]; omega))
      (mth (leaves.drop (splitPoint leaves.length)) (by rw [List.length_drop]; omega))
termination_by leaves.length
decreasing_by
  · rw [List.length_take]; omega
  · rw [List.length_drop]; omega

/-- The sibling hashes of the `m`-th leaf, bottom to top. -/
def auditPath (m : ℕ) (leaves : List D) : List D :=
  if h1 : leaves.length ≤ 1 then []
  else
    have hn : 2 ≤ leaves.length := by omega
    have hpos := splitPoint_pos hn
    have hlt := splitPoint_lt hn
    let k := splitPoint leaves.length
    if m < k then
      auditPath m (leaves.take k) ++ [mth node (leaves.drop k) (by rw [List.length_drop]; omega)]
    else
      auditPath (m - k) (leaves.drop k) ++
        [mth node (leaves.take k) (by rw [List.length_take]; omega)]
termination_by leaves.length
decreasing_by
  · rw [List.length_take]; omega
  · rw [List.length_drop]; omega

/-- The consistency nodes from the first `m` leaves to all of them. The recursion of the
code ends only for sizes in range, which is what its caller checks. -/
def subproof (m : ℕ) (leaves : List D) (h : 0 < m ∧ m ≤ leaves.length) (b : Bool) : List D :=
  if hm : m = leaves.length then
    if b then [] else [mth node leaves (by omega)]
  else
    have hn : 2 ≤ leaves.length := by omega
    have hpos := splitPoint_pos hn
    have hlt := splitPoint_lt hn
    let k := splitPoint leaves.length
    if hk : m ≤ k then
      subproof m (leaves.take k) (by rw [List.length_take]; omega) b ++
        [mth node (leaves.drop k) (by rw [List.length_drop]; omega)]
    else
      subproof (m - k) (leaves.drop k) (by rw [List.length_drop]; omega) false ++
        [mth node (leaves.take k) (by rw [List.length_take]; omega)]
termination_by leaves.length
decreasing_by
  · rw [List.length_take]; omega
  · rw [List.length_drop]; omega

theorem mth_singleton (d : D) (h : 0 < [d].length) : mth node [d] h = d := by
  rw [mth, dif_pos List.length_singleton]
  rfl

section Split
variable {leaves : List D} {k : ℕ} (hk : splitPoint leaves.length = k)
  (hl : 0 < (leaves.take k).length) (hr : 0 < (leaves.drop k).length)

include hk

theorem mth_split (hn : 2 ≤ leaves.length) (h : 0 < leaves.length) :
    mth node leaves h = node (mth node (leaves.take k) hl) (mth node (leaves.drop k) hr) := by
  subst hk
  rw [mth, dif_neg (by omega)]

theorem auditPath_lower (hn : 2 ≤ leaves.length) {m : ℕ} (hm : m < k) :
    auditPath node m leaves = auditPath node m (leaves.take k) ++ [mth node (leaves.drop k) hr] := by
  subst hk
  rw [auditPath, dif_neg (by omega)]
  exact if_pos hm

theorem auditPath_upper (hn : 2 ≤ leaves.length) {m : ℕ} (hm : k ≤ m) :
    auditPath node m leaves =
      auditPath node (m - k) (leaves.drop k) ++ [mth node (leaves.take k) hl] := by
  subst hk
  rw [auditPath, dif_neg (by omega)]
  exact if_neg (by omega)

theorem subproof_lower {m : ℕ} (h : 0 < m ∧ m ≤ leaves.length) (hmn : m ≠ leaves.length)
    (hm : 0 < m ∧ m ≤ (leaves.take k).length) (b : Bool) :
    subproof node m leaves h b =
      subproof node m (leaves.take k) hm b ++ [mth node (leaves.drop k) hr] := by
  subst hk
  have hmk : m ≤ splitPoint leaves.length := hm.2.trans (List.length_take_le _ _)
  rw [subproof, dif_neg hmn]
  exact dif_pos hmk

theorem subproof_upper {m : ℕ} (h : 0 < m ∧ m ≤ leaves.length) (hmn : m ≠ leaves.length)
    (hm : 0 < m - k ∧ m - k ≤ (leaves.drop k).length) (b : Bool) :
    subproof node m leaves h b =
      subproof node (m - k) (leaves.drop k) hm false ++ [mth node (leaves.take k) hl] := by
  subst hk
  have hmk : ¬ m ≤ splitPoint leaves.length := by omega
  rw [subproof, dif_neg hmn]
  exact dif_neg hmk

end Split

theorem subproof_self {m : ℕ} {leaves : List D} (h : 0 < m ∧ m ≤ leaves.length)
    (hm : m = leaves.length) (hpos : 0 < leaves.length) (b : Bool) :
    subproof node m leaves h b = if b then [] else [mth node leaves hpos] := by
  rw [subproof, dif_pos hm]

/-- What the split of a list of at least two leaves looks like to a proof by induction on
the number of leaves. -/
theorem exists_split {leaves : List D} (hn : 2 ≤ leaves.length) :
    ∃ h, splitPoint leaves.length = 2 ^ h ∧ 2 ^ h < leaves.length ∧ leaves.length ≤ 2 * 2 ^ h ∧
      (leaves.take (2 ^ h)).length = 2 ^ h ∧
      (leaves.drop (2 ^ h)).length = leaves.length - 2 ^ h ∧ 0 < 2 ^ h := by
  obtain ⟨h, hk, hlt, hle⟩ := splitPoint_spec hn
  refine ⟨h, hk, hlt, hle, ?_, List.length_drop, Nat.two_pow_pos h⟩
  rw [List.length_take]
  omega

variable {node}

theorem mth_congr {leaves leaves' : List D} (heq : leaves = leaves') (h : 0 < leaves.length)
    (h' : 0 < leaves'.length) : mth node leaves h = mth node leaves' h' := by
  subst heq
  rfl

theorem mth_injective (hi : Function.Injective2 node) {leaves leaves' : List D}
    (h : 0 < leaves.length) (h' : 0 < leaves'.length) (hlen : leaves.length = leaves'.length)
    (heq : mth node leaves h = mth node leaves' h') : leaves = leaves' := by
  by_cases hn : leaves.length = 1
  · obtain ⟨d, rfl⟩ := List.length_eq_one_iff.mp hn
    obtain ⟨d', rfl⟩ := List.length_eq_one_iff.mp (hlen.symm.trans hn)
    rw [mth_singleton, mth_singleton] at heq
    rw [heq]
  · have hn2 : 2 ≤ leaves.length := by omega
    obtain ⟨j, hk, hlt, -, htake, hdrop, hpos⟩ := exists_split hn2
    have hn2' : 2 ≤ leaves'.length := by omega
    obtain ⟨-, -, -, -, htake', hdrop', -⟩ := exists_split hn2'
    have hk' : splitPoint leaves'.length = 2 ^ j := hlen ▸ hk
    have hl : (leaves.take (2 ^ j)).length = (leaves'.take (2 ^ j)).length := by
      rw [List.length_take, List.length_take, hlen]
    have hr : (leaves.drop (2 ^ j)).length = (leaves'.drop (2 ^ j)).length := by
      rw [List.length_drop, List.length_drop, hlen]
    rw [mth_split node hk (by omega) (by omega) hn2, mth_split node hk' (by omega) (by omega)
      (by omega)] at heq
    obtain ⟨hleft, hright⟩ := hi heq
    have htakes := mth_injective hi _ _ hl hleft
    have hdrops := mth_injective hi _ _ hr hright
    rw [← List.take_append_drop (2 ^ j) leaves, htakes, hdrops, List.take_append_drop]
termination_by leaves.length

section Leaves
variable {α : Type} {leaf : α → D}

/-- A tree hash is that of a leaf or of an interior node, according to the number of leaves. -/
theorem mth_map_cases (as : List α) (h : 0 < (as.map leaf).length) :
    (∃ a, as = [a] ∧ mth node (as.map leaf) h = leaf a) ∨
      ∃ k, ∃ (hl : 0 < ((as.take k).map leaf).length) (hr : 0 < ((as.drop k).map leaf).length),
        (as.take k).length < as.length ∧ (as.drop k).length < as.length ∧
          mth node (as.map leaf) h =
            node (mth node ((as.take k).map leaf) hl) (mth node ((as.drop k).map leaf) hr) := by
  have hlen : (as.map leaf).length = as.length := List.length_map leaf
  by_cases hone : as.length = 1
  · obtain ⟨a, rfl⟩ := List.length_eq_one_iff.mp hone
    exact Or.inl ⟨a, rfl, mth_singleton node (leaf a) h⟩
  · have hn : 2 ≤ (as.map leaf).length := by omega
    obtain ⟨j, hk, hlt, -, htake, hdrop, hpos⟩ := exists_split hn
    have hl : 0 < ((as.map leaf).take (2 ^ j)).length := by omega
    have hr : 0 < ((as.map leaf).drop (2 ^ j)).length := by omega
    have hsplit := mth_split node hk hl hr hn h
    refine Or.inr ⟨2 ^ j, ?_, ?_, ?_, ?_, ?_⟩
    · rw [List.map_take]
      exact hl
    · rw [List.map_drop]
      exact hr
    · rw [List.length_take]
      omega
    · rw [List.length_drop]
      omega
    · rw [hsplit]
      congr 1
      · exact mth_congr List.map_take.symm _ _
      · exact mth_congr List.map_drop.symm _ _

/-- Leaves and interior nodes that are never equal make the tree hash of two lists of any
lengths different. -/
theorem mth_map_injective (hleaf : Function.Injective leaf) (hi : Function.Injective2 node)
    (hsep : ∀ a l r, leaf a ≠ node l r) {as bs : List α} (h : 0 < (as.map leaf).length)
    (h' : 0 < (bs.map leaf).length)
    (heq : mth node (as.map leaf) h = mth node (bs.map leaf) h') : as = bs := by
  induction hn : as.length using Nat.strong_induction_on generalizing as bs with | _ n ih
  rcases mth_map_cases as h with ⟨a, has, ha⟩ | ⟨k, hl, hr, hltl, hltr, ha⟩
  · rcases mth_map_cases bs h' with ⟨b, hbs, hb⟩ | ⟨k', hl', hr', -, -, hb⟩
    · rw [ha, hb] at heq
      rw [has, hbs, hleaf heq]
    · rw [ha, hb] at heq
      exact absurd heq (hsep _ _ _)
  · rcases mth_map_cases bs h' with ⟨b, hbs, hb⟩ | ⟨k', hl', hr', -, -, hb⟩
    · rw [ha, hb] at heq
      exact absurd heq.symm (hsep _ _ _)
    · rw [ha, hb] at heq
      obtain ⟨hleft, hright⟩ := hi heq
      have htakes := ih _ (hn ▸ hltl) hl hl' hleft rfl
      have hdrops := ih _ (hn ▸ hltr) hr hr' hright rfl
      rw [← List.take_append_drop k as, htakes, hdrops, List.take_append_drop]

end Leaves
end Tree
end Dmtap.Kt
