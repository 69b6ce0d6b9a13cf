import Mathlib.Logic.Relation
import Dmtap.Kt.Consistency
import Dmtap.Identity.Objects
import Dmtap.Cbor.Restores

/-! Watching a log. Heads come from a log that may sign any digest at all; what accepted proofs say
about one index is the same under every head that accepted consistency proofs connect. -/
namespace Dmtap.Kt
open Dmtap.Lib

section Proven
variable {D : Type} (node : D → D → D)

/-- A proof shows `leaf` at index `i` of a tree of size `n` with the given root, whether or not the
root is the hash of any list. -/
def Shown (n : ℕ) (root : D) (i : ℕ) (leaf : D) : Prop :=
  i < n ∧ ∃ steps : List (Side × D), steps.map Prod.fst = climb i (n - 1) ∧
    foldPath node leaf steps = root

/-- A proof shows that the tree of size `n` extends the tree of size `m`. -/
def Extended (m : ℕ) (old : D) (n : ℕ) (new : D) : Prop :=
  m = n ∧ old = new ∨ m < n ∧ ∃ (seed : D) (steps : List (Side × D)),
    steps.map Prod.fst = growth (m - 1) (n - 1) ∧ foldPath node seed (leftSteps steps) = old ∧
      foldPath node seed steps = new

variable {node} {m n i j : ℕ} {root old new leaf left right : D}

/-- Steps that end on a known side. -/
theorem eq_concat_of_sides {side : Side} {sides : List Side} {steps : List (Side × D)}
    (h : steps.map Prod.fst = sides ++ [side]) :
    ∃ front d, steps = front ++ [(side, d)] ∧ front.map Prod.fst = sides := by
  obtain ⟨front, last, rfl, hfront, hlast⟩ := List.map_eq_append_iff.mp h
  obtain ⟨s, rfl, rfl⟩ := List.map_eq_singleton_iff.mp hlast
  exact ⟨front, s.2, rfl, hfront⟩

/-- An index below the split is shown in the left subtree. -/
theorem shown_lower (hi : i < 2 ^ j) (hlt : 2 ^ j < n) (hle : n ≤ 2 * 2 ^ j) :
    Shown node n root i leaf ↔
      ∃ left right, node left right = root ∧ Shown node (2 ^ j) left i leaf := by
  have hpow : 2 ^ (j + 1) = 2 * 2 ^ j := by ring
  have hclimb : climb i (n - 1) = climb i (2 ^ j - 1) ++ [.right] :=
    climb_lower hi (by omega) (by omega)
  unfold Shown
  rw [hclimb]
  constructor
  · rintro ⟨-, steps, hs, hfold⟩
    obtain ⟨front, d, rfl, hfront⟩ := eq_concat_of_sides hs
    rw [foldPath_concat] at hfold
    exact ⟨_, d, hfold, hi, front, hfront, rfl⟩
  · rintro ⟨left, right, hroot, -, steps, hs, hfold⟩
    refine ⟨by omega, steps ++ [(.right, right)], ?_, ?_⟩
    · rw [List.map_append, hs]
      rfl
    · rw [foldPath_concat, hfold]
      exact hroot

/-- An index from the split on is shown in the right subtree. -/
theorem shown_upper (hi : 2 ^ j ≤ i) (hlt : 2 ^ j < n) (hle : n ≤ 2 * 2 ^ j) :
    Shown node n root i leaf ↔
      ∃ left right, node left right = root ∧ Shown node (n - 2 ^ j) right (i - 2 ^ j) leaf := by
  unfold Shown
  constructor
  · rintro ⟨hin, steps, hs, hfold⟩
    have hclimb := climb_upper (h := j) (a := i - 2 ^ j) (b := n - 2 ^ j - 1) (by omega) (by omega)
    rw [show 2 ^ j + (i - 2 ^ j) = i by omega, show 2 ^ j + (n - 2 ^ j - 1) = n - 1 by omega]
      at hclimb
    rw [hclimb] at hs
    obtain ⟨front, d, rfl, hfront⟩ := eq_concat_of_sides hs
    rw [foldPath_concat] at hfold
    exact ⟨d, _, hfold, by omega, front, hfront, rfl⟩
  · rintro ⟨left, right, hroot, hin, steps, hs, hfold⟩
    have hclimb := climb_upper (h := j) (a := i - 2 ^ j) (b := n - 2 ^ j - 1) (by omega) (by omega)
    rw [show 2 ^ j + (i - 2 ^ j) = i by omega, show 2 ^ j + (n - 2 ^ j - 1) = n - 1 by omega]
      at hclimb
    refine ⟨by omega, steps ++ [(.left, left)], ?_, ?_⟩
    · rw [List.map_append, hs, hclimb]
      rfl
    · rw [foldPath_concat, hfold]
      exact hroot

/-- Only one leaf is shown at an index. -/
theorem Shown.unique (hnode : Function.Injective2 node) {leaf' : D} (h : Shown node n root i leaf)
    (h' : Shown node n root i leaf') : leaf = leaf' := by
  obtain ⟨-, steps, hs, hfold⟩ := h
  obtain ⟨-, steps', hs', hfold'⟩ := h'
  exact (foldPath_injective hnode (hs.trans hs'.symm) (hfold.trans hfold'.symm)).1

/-- An extension of a tree inside the left subtree, of that subtree, or into the right one. -/
theorem Extended.cases (h : Extended node m old n new) (hm : 0 < m) (hmn : m < n) (hlt : 2 ^ j < n)
    (hle : n ≤ 2 * 2 ^ j) : ∃ left right, node left right = new ∧
      (m < 2 ^ j ∧ Extended node m old (2 ^ j) left ∨ m = 2 ^ j ∧ old = left ∨
        2 ^ j < m ∧ ∃ right', node left right' = old ∧
          Extended node (m - 2 ^ j) right' (n - 2 ^ j) right) := by
  have hpow : 2 ^ (j + 1) = 2 * 2 ^ j := by ring
  rcases h with ⟨heq, -⟩ | ⟨-, seed, steps, hs, hold, hnew⟩
  · omega
  · rcases lt_trichotomy m (2 ^ j) with hmj | hmj | hmj
    · have hgrowth := (growth_lower (h := j) (a := m - 1) (b := n - 1) (by omega) (by omega)
        (by omega)).1
      rw [hgrowth] at hs
      obtain ⟨front, d, rfl, hfront⟩ := eq_concat_of_sides hs
      rw [leftSteps_concat_right] at hold
      rw [foldPath_concat] at hnew
      exact ⟨_, d, hnew, Or.inl ⟨hmj, Or.inr ⟨hmj, seed, front, hfront, hold, rfl⟩⟩⟩
    · have hstrip : stripLoop (m - 1) (n - 1) = (0, 1) := by
        rw [hmj]
        exact growth_full (by omega) (by omega)
      rw [growth, hstrip, climb_even (by simp) (by simp)] at hs
      obtain ⟨front, d, rfl, hfront⟩ := @eq_concat_of_sides _ _ [] _ (by simpa using hs)
      obtain rfl := List.map_eq_nil_iff.mp hfront
      exact ⟨seed, d, hnew, Or.inr (Or.inl ⟨hmj, hold.symm⟩)⟩
    · have hgrowth := (growth_upper (h := j) (a := m - 2 ^ j - 1) (b := n - 2 ^ j - 1) (by omega)
        (by omega) (by omega)).1
      rw [show 2 ^ j + (m - 2 ^ j - 1) = m - 1 by omega,
        show 2 ^ j + (n - 2 ^ j - 1) = n - 1 by omega] at hgrowth
      rw [hgrowth] at hs
      obtain ⟨front, d, rfl, hfront⟩ := eq_concat_of_sides hs
      rw [leftSteps_concat_left, foldPath_concat] at hold
      rw [foldPath_concat] at hnew
      exact ⟨d, _, hnew, Or.inr (Or.inr ⟨hmj, _, hold, Or.inr ⟨by omega, seed, front, hfront, rfl,
        rfl⟩⟩)⟩

/-- What was shown stays shown: by induction on the size of the new tree. -/
theorem Shown.extended (hnode : Function.Injective2 node) (h : Shown node m old i leaf)
    (hext : Extended node m old n new) : Shown node n new i leaf := by
  induction n using Nat.strong_induction_on generalizing m old new i with
  | _ n ih =>
    have him : i < m := h.1
    by_cases hmn : m = n
    · rcases hext with ⟨-, hroots⟩ | ⟨hlt, -⟩
      · rw [← hmn, ← hroots]
        exact h
      · omega
    · have hlt : m < n := by
        rcases hext with ⟨heq, -⟩ | ⟨hlt, -⟩
        · exact absurd heq hmn
        · exact hlt
      obtain ⟨j, -, hjlt, hjle⟩ := splitPoint_spec (n := n) (by omega)
      have hpos := Nat.two_pow_pos j
      obtain ⟨left, right, hroot, hcases⟩ := hext.cases (by omega) hlt hjlt hjle
      rcases hcases with ⟨hmj, hleft⟩ | ⟨hmj, hleft⟩ | ⟨hmj, right', hold, hright⟩
      · have hshown := ih (2 ^ j) hjlt h hleft
        exact (shown_lower (by omega) hjlt hjle).mpr ⟨left, right, hroot, hshown⟩
      · subst hmj hleft
        exact (shown_lower him hjlt hjle).mpr ⟨old, right, hroot, h⟩
      · by_cases hij : i < 2 ^ j
        · obtain ⟨l, r, hlr, hshown⟩ := (shown_lower hij hmj (by omega)).mp h
          obtain ⟨rfl, -⟩ := hnode (hlr.trans hold.symm)
          exact (shown_lower hij hjlt hjle).mpr ⟨l, right, hroot, hshown⟩
        · obtain ⟨l, r, hlr, hshown⟩ := (shown_upper (by omega) hmj (by omega)).mp h
          obtain ⟨-, rfl⟩ := hnode (hlr.trans hold.symm)
          have hshown' := ih (n - 2 ^ j) (by omega) hshown hright
          exact (shown_upper (by omega) hjlt hjle).mpr ⟨left, right, hroot, hshown'⟩

end Proven

theorem Hashing.asContentId_injective {Id D : Type} (H : Hashing Id D) :
    Function.Injective H.asContentId := by
  intro d d' h
  have hdigest := (H.digest32_eq_some _ d').mpr h
  rw [(H.digest32_eq_some _ d).mpr rfl] at hdigest
  exact Option.some.inj hdigest

section Verified
variable {Id D : Type} [DecidableEq D] {H : Hashing Id D}

/-- What an accepted inclusion proof shows. -/
theorem InclusionProof.shown {p : InclusionProof Id} {sth : SignedTreeHead Id}
    (h : p.verifyAgainst H sth = .ok ()) : ∃ root leaf, sth.rootHash = H.asContentId root ∧
      p.leafHash = H.asContentId leaf ∧
      Shown H.node sth.treeSize.toNat root p.leafIndex.toNat leaf := by
  unfold verifyAgainst at h
  split_ifs at h with hsize
  rw [verifyRoot_eq_ok, foldInclusion_iff] at h
  obtain ⟨leaf, root, steps, hleaf, hroot, hidx, hs, -, hfold⟩ := h
  rw [not_not.mp hsize] at hidx hs
  exact ⟨root, leaf, hroot, hleaf, hidx, steps, hs, hfold⟩

/-- What is shown has a proof that is accepted. -/
theorem exists_inclusionProof {sth : SignedTreeHead Id} {root leaf : D} {i : UInt64}
    (hroot : sth.rootHash = H.asContentId root)
    (h : Shown H.node sth.treeSize.toNat root i.toNat leaf) :
    ∃ path, InclusionProof.verifyAgainst H ⟨sth.treeSize, i, H.asContentId leaf, path⟩ sth =
      .ok () := by
  obtain ⟨hidx, steps, hs, hfold⟩ := h
  refine ⟨steps.map fun s => H.asContentId s.2, ?_⟩
  unfold InclusionProof.verifyAgainst
  rw [if_neg (not_not.mpr rfl), verifyRoot_eq_ok, foldInclusion_iff]
  exact ⟨leaf, root, steps, rfl, hroot, hidx, hs, rfl, hfold⟩

theorem okOr_eq_ok {α : Type} {e : KtError} {o : Option α} {a : α} :
    e.okOr o = .ok a ↔ o = some a := by
  cases o <;> simp [KtError.okOr]

/-- What an accepted consistency proof shows, where the old tree is not empty. -/
theorem extended_of_verifyConsistency {old new : SignedTreeHead Id} {p : ConsistencyProof Id}
    {oldRoot : D} (hold : old.rootHash = H.asContentId oldRoot) (hpos : 0 < old.treeSize.toNat)
    (h : verifyConsistency H old new p = .ok ()) :
    ∃ newRoot, new.rootHash = H.asContentId newRoot ∧
      Extended H.node old.treeSize.toNat oldRoot new.treeSize.toNat newRoot := by
  have hnew : ∃ newRoot, new.rootHash = H.asContentId newRoot := by
    unfold verifyConsistency at h
    dsimp only at h
    rw [except_guard_eq_ok, except_bind_eq_ok] at h
    obtain ⟨-, _, -, h⟩ := h
    obtain ⟨newRoot, hnewRoot, -⟩ := except_bind_eq_ok.mp h
    exact ⟨newRoot, (H.digest32_eq_some _ _).mp (okOr_eq_ok.mp hnewRoot)⟩
  obtain ⟨newRoot, hnew⟩ := hnew
  refine ⟨newRoot, hnew, ?_⟩
  rw [verifyConsistency_eq_ok H hold hnew hpos] at h
  obtain ⟨⟨-, -, hle⟩, h⟩ := h
  split_ifs at h with hsizes
  · exact Or.inl ⟨hsizes, h.2⟩
  · obtain ⟨ds, -, hfold⟩ := h
    obtain ⟨seed, steps, hs, -, hold, hnew⟩ := (foldConsistency_eq_some H hle).mp hfold
    exact Or.inr ⟨by omega, seed, steps, hs, hold, hnew⟩

/-- Heads that a chain of accepted consistency proofs connects. -/
def Connected (H : Hashing Id D) : SignedTreeHead Id → SignedTreeHead Id → Prop :=
  Relation.ReflTransGen fun old new => ∃ p, verifyConsistency H old new p = .ok ()

/-- What was shown stays shown along a chain of heads: by induction on the chain. -/
theorem Connected.shown (hnode : Function.Injective2 H.node) {old new : SignedTreeHead Id}
    (h : Connected H old new) {root leaf : D} {i : ℕ} (hroot : old.rootHash = H.asContentId root)
    (hshown : Shown H.node old.treeSize.toNat root i leaf) :
    ∃ newRoot, new.rootHash = H.asContentId newRoot ∧
      Shown H.node new.treeSize.toNat newRoot i leaf := by
  induction h with
  | refl => exact ⟨root, hroot, hshown⟩
  | tail _ hstep ih =>
    obtain ⟨midRoot, hmid, hshown⟩ := ih
    obtain ⟨p, hp⟩ := hstep
    obtain ⟨newRoot, hnew, hext⟩ :=
      extended_of_verifyConsistency hmid (Nat.zero_lt_of_lt hshown.1) hp
    exact ⟨newRoot, hnew, hshown.extended hnode hext⟩

end Verified

section Bindings
variable {Id D : Type} (H : Hashing Id D) (hash : Bytes → D) (address : Bytes → ContentId)

/-- What a log entry says: the name, the key, the version and the address of the identity. -/
def leafData (name : String) (ik : Bytes) (version : UInt64) (identityId : ContentId) : Cbor.Cv :=
  .array [.text name, .bytes ik, .u64 version, identityId.toCv]

def identityLeafHash (name : String) (ik : Bytes) (version : UInt64) (identityId : ContentId) : Id :=
  H.asContentId (hash (0x00 :: Cbor.encode (leafData name ik version identityId)))

/-- The leaf of an identity under a name, if the identity has a classical key. -/
def identityLeafFor (identity : Identity) (name : String) : Option Id := do
  let ik ← identity.iks.get? Suite.classical.asU8
  some (identityLeafHash H hash name ik identity.version (address identity.detCbor))

def InclusionProof.verifyIdentity [DecidableEq Id] [DecidableEq D] (p : InclusionProof Id)
    (sth : SignedTreeHead Id) (identity : Identity) (name : String) : Except KtError Unit :=
  match identityLeafFor H hash address identity name with
  | none => .error .leafHashMismatch
  | some expected =>
    if p.leafHash ≠ expected then .error .leafHashMismatch else p.verifyAgainst H sth

/-- The log of the code. -/
theorem identityLeafFor_blake3 (blake3 : Bytes → Digest) (identity : Identity) (name : String) :
    identityLeafFor (hashing blake3) blake3 (.of blake3) identity name =
      (identity.iks.get? Suite.classical.asU8).bind fun ik => some (.of blake3 (0x00 :: Cbor.encode
        (leafData name ik identity.version (identity.contentId blake3)))) := rfl

/-- An entry for the identity can be written down. -/
def LeafFits (identity : Identity) (name : String) : Prop :=
  ∀ ik ∈ identity.iks.get? Suite.classical.asU8,
    (leafData name ik identity.version (address identity.detCbor)).LengthsFit

/-- Two identities that the log cannot tell apart: same name, same key, same version, and the same
bytes on the wire. -/
structure SameBinding (identity : Identity) (name : String) (identity' : Identity) (name' : String) :
    Prop where
  name : name = name'
  ik : identity.iks.get? Suite.classical.asU8 = identity'.iks.get? Suite.classical.asU8
  version : identity.version = identity'.version
  bytes : identity.detCbor = identity'.detCbor

variable {H hash address} {name name' : String} {identity identity' : Identity}

theorem leafData_injective {ik ik' : Bytes} {version version' : UInt64} {id id' : ContentId}
    (hfit : (leafData name ik version id).LengthsFit)
    (hfit' : (leafData name' ik' version' id').LengthsFit)
    (h : Cbor.encode (leafData name ik version id) = Cbor.encode (leafData name' ik' version' id')) :
    name = name' ∧ ik = ik' ∧ version = version' ∧ id = id' := by
  have hdistinct : ∀ name ik version id, (leafData name ik version id).KeysDistinct := by
    intro name ik version id
    simp [leafData, Cbor.Cv.keysDistinct_array, ContentId.toCv]
  have hnorm := (Cbor.enc_append_injective (s := []) (t := []) hfit (hdistinct _ _ _ _) hfit'
    (hdistinct _ _ _ _) (congrArg (· ++ []) h)).1
  cases id
  cases id'
  simpa [leafData, Cbor.norm, Cbor.normArray, ContentId.toCv] using hnorm

theorem identityLeafFor_eq_some {leaf : D}
    (h : identityLeafFor H hash address identity name = some (H.asContentId leaf)) :
    ∃ ik, identity.iks.get? Suite.classical.asU8 = some ik ∧
      leaf = hash (0x00 :: Cbor.encode
        (leafData name ik identity.version (address identity.detCbor))) := by
  obtain ⟨ik, hik, h⟩ := Option.bind_eq_some_iff.mp h
  exact ⟨ik, hik, (H.asContentId_injective (Option.some.inj h)).symm⟩

/-- A leaf is the leaf of one binding. -/
theorem sameBinding_of_leaf (hhash : Function.Injective hash) (haddress : Function.Injective address)
    (hfit : LeafFits address identity name) (hfit' : LeafFits address identity' name') {leaf : D}
    (h : identityLeafFor H hash address identity name = some (H.asContentId leaf))
    (h' : identityLeafFor H hash address identity' name' = some (H.asContentId leaf)) :
    SameBinding identity name identity' name' := by
  obtain ⟨ik, hik, hleaf⟩ := identityLeafFor_eq_some h
  obtain ⟨ik', hik', hleaf'⟩ := identityLeafFor_eq_some h'
  have hbytes := (List.cons.inj (hhash (hleaf.symm.trans hleaf'))).2
  obtain ⟨hname, hkey, hversion, hid⟩ := leafData_injective (hfit ik hik) (hfit' ik' hik') hbytes
  exact ⟨hname, by rw [hik, hik', hkey], hversion, haddress hid⟩

variable [DecidableEq Id] [DecidableEq D]

theorem InclusionProof.verifyIdentity_eq_ok {p : InclusionProof Id} {sth : SignedTreeHead Id} :
    p.verifyIdentity H hash address sth identity name = .ok () ↔
      identityLeafFor H hash address identity name = some p.leafHash ∧
        p.verifyAgainst H sth = .ok () := by
  unfold verifyIdentity
  cases identityLeafFor H hash address identity name with
  | none => simp
  | some expected =>
    dsimp only
    rw [except_guard_eq_ok, not_not, Option.some.injEq, eq_comm]

/-- An identity that was proven under one head is provable under every later head, at its index, and
nothing else is accepted there: the log cannot change an entry that anyone has been shown, even if
its heads are the roots of no tree at all. -/
theorem log_never_rebinds (H : Hashing Id D) (hash : Bytes → D) (address : Bytes → ContentId)
    (hnode : Function.Injective2 H.node) (hhash : Function.Injective hash)
    (haddress : Function.Injective address) {old new : SignedTreeHead Id}
    (hconnected : Connected H old new) {p : InclusionProof Id} {identity : Identity} {name : String}
    (hfit : LeafFits address identity name)
    (h : p.verifyIdentity H hash address old identity name = .ok ()) :
    (∃ path, InclusionProof.verifyIdentity H hash address
        ⟨new.treeSize, p.leafIndex, p.leafHash, path⟩ new identity name = .ok ()) ∧
      ∀ p' identity' name', p'.leafIndex = p.leafIndex → LeafFits address identity' name' →
        InclusionProof.verifyIdentity H hash address p' new identity' name' = .ok () →
        SameBinding identity name identity' name' := by
  obtain ⟨hleafFor, hverified⟩ := InclusionProof.verifyIdentity_eq_ok.mp h
  obtain ⟨root, leaf, hroot, hleaf, hshown⟩ := p.shown hverified
  obtain ⟨newRoot, hnew, hshown⟩ := hconnected.shown hnode hroot hshown
  refine ⟨?_, ?_⟩
  · obtain ⟨path, hpath⟩ := exists_inclusionProof hnew hshown
    refine ⟨path, InclusionProof.verifyIdentity_eq_ok.mpr ⟨hleafFor, ?_⟩⟩
    rw [hleaf]
    exact hpath
  · intro p' identity' name' hindex hfit' h'
    obtain ⟨hleafFor', hverified'⟩ := InclusionProof.verifyIdentity_eq_ok.mp h'
    obtain ⟨newRoot', leaf', hnew', hleaf', hshown'⟩ := p'.shown hverified'
    have hsame : newRoot' = newRoot := H.asContentId_injective (hnew'.symm.trans hnew)
    rw [hindex, hsame] at hshown'
    obtain rfl := hshown.unique hnode hshown'
    rw [hleaf] at hleafFor
    rw [hleaf'] at hleafFor'
    exact sameBinding_of_leaf hhash haddress hfit hfit' hleafFor hleafFor'

end Bindings

section TwoEntries

/-- A hash of byte strings that builds a term instead of hashing. -/
def idealHash (b : Bytes) : IdealDigest := b.foldr (fun x d => .node (.leaf x.toNat) d) (.leaf 256)

theorem idealHash_injective : Function.Injective idealHash := by
  intro b
  induction b with
  | nil =>
    intro b' h
    cases b' with
    | nil => rfl
    | cons x b' => cases h
  | cons x b ih =>
    intro b' h
    cases b' with
    | nil => cases h
    | cons x' b' =>
      obtain ⟨hx, hb⟩ := IdealDigest.node.inj h
      rw [UInt8.toNat_inj.mp (IdealDigest.leaf.inj hx), ih hb]

def listedIdentity : Identity where
  suites := [.classical]
  iks := SortedMap.empty.insert 0x01 [1, 2]
  version := 0
  devices := []
  keypkgs := ⟨"", ⟨[]⟩, none⟩
  recovery := ⟨[]⟩
  names := ["a"]
  prev := none
  ts := 0
  sig := []

/-- The entry of the identity under its name. -/
def listedLeaf : IdealDigest :=
  idealHash (0x00 :: Cbor.encode (leafData "a" [1, 2] 0 ⟨listedIdentity.detCbor⟩))

theorem log_never_rebinds_two : ∃ path,
    InclusionProof.verifyIdentity idealHashing idealHash ContentId.mk ⟨2, 0, some listedLeaf, path⟩
      (idealHead 2 (.node listedLeaf (.leaf 0))) listedIdentity "a" = .ok () := by
  have hconnected : Connected idealHashing (idealHead 1 listedLeaf)
      (idealHead 2 (.node listedLeaf (.leaf 0))) := by
    refine .single ⟨⟨1, 2, [some (.leaf 0)]⟩, ?_⟩
    have hold : (idealHead 1 listedLeaf).rootHash = idealHashing.asContentId listedLeaf := rfl
    have hnew : (idealHead 2 (.node listedLeaf (.leaf 0))).rootHash =
        idealHashing.asContentId (.node listedLeaf (.leaf 0)) := rfl
    rw [verifyConsistency_eq_ok idealHashing hold hnew (by decide)]
    exact ⟨by decide, [.leaf 0], rfl, by decide +kernel⟩
  have hfirst : InclusionProof.verifyIdentity idealHashing idealHash ContentId.mk
      ⟨1, 0, some listedLeaf, []⟩ (idealHead 1 listedLeaf) listedIdentity "a" = .ok () := by
    rw [InclusionProof.verifyIdentity_eq_ok]
    refine ⟨by decide +kernel, ?_⟩
    unfold InclusionProof.verifyAgainst
    rw [if_neg (by decide), verifyRoot_eq_ok, foldInclusion_iff]
    exact ⟨listedLeaf, listedLeaf, [], rfl, rfl, by decide, (climb_zero 0).symm, rfl, rfl⟩
  have hfit : LeafFits ContentId.mk listedIdentity "a" := by
    intro ik hik
    obtain rfl : [1, 2] = ik := Option.some.inj hik
    decide +kernel
  exact (log_never_rebinds idealHashing idealHash ContentId.mk idealHashing_node_injective
    idealHash_injective (fun _ _ h => ContentId.mk.inj h) hconnected hfit hfirst).1

end TwoEntries
end Dmtap.Kt
