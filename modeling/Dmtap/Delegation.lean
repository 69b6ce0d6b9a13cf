import Dmtap.Capability
import Dmtap.Identity.Keys
import Mathlib.Data.List.Chain

/-! Delegation chains of capability tokens. The verifier compares each token with its direct
parent only; narrowing composes, so the leaf is inside every ancestor. -/
namespace Dmtap
open Dmtap.Lib Dmtap.Cbor

/-- The domain separator of token signatures, `DMTAP-v0/cap-token` and a zero byte. -/
def capTokenDs : Bytes := utf8 "DMTAP-v0/cap-token" ++ [0]

inductive CapabilityError
  | badSignature
  | attenuationViolation
  | brokenChain
  | windowNotNested
  | untrustedRoot
  | notYetValid
  | expired
  | revoked
  | announceRollback
  deriving DecidableEq, Repr

section Covering

/-- Equal, or `child` is `parent` followed by a slash and more. -/
def scopeCovers (parent child : String) : Bool :=
  parent == child ||
    ((parent.toList.isPrefixOf? child.toList).map fun rest => rest.head? == some '/').getD false

/-- Caveats are only added; caveats that are no text map cover nothing. -/
def caveatsTightened (parent child : Option Cv) : Bool :=
  match parent with
  | none => true
  | some (.textMap parentPairs) =>
    match child with
    | none => parentPairs.isEmpty
    | some (.textMap childPairs) =>
      parentPairs.all fun p => childPairs.any fun c => c.1 == p.1 && c.2 == p.2
    | some _ => false
  | some _ => false

def capabilityCovers (parent child : Capability) : Bool :=
  scopeCovers parent.resource child.resource && scopeCovers parent.ability child.ability &&
    caveatsTightened parent.caveats child.caveats

/-- A scope below another one: the same, or extended after a slash. -/
def SubScope (parent child : String) : Prop :=
  child = parent ∨ ∃ rest, child = parent ++ "/" ++ rest

theorem SubScope.trans {a b c : String} (hab : SubScope a b) (hbc : SubScope b c) :
    SubScope a c := by
  rcases hab with rfl | ⟨r, rfl⟩
  · exact hbc
  · rcases hbc with rfl | ⟨s, rfl⟩
    · exact Or.inr ⟨r, rfl⟩
    · exact Or.inr ⟨r ++ ("/" ++ s), by simp only [String.append_assoc]⟩

theorem scopeCovers_iff {parent child : String} :
    scopeCovers parent child = true ↔ SubScope parent child := by
  have hrest : ((parent.toList.isPrefixOf? child.toList).map
      fun rest => rest.head? == some '/').getD false = true ↔
      ∃ rest, child = parent ++ "/" ++ rest := by
    cases h : parent.toList.isPrefixOf? child.toList with
    | none =>
      refine iff_of_false (by simp) ?_
      rintro ⟨rest, rfl⟩
      have happ : parent.toList ++ ('/' :: rest.toList) = (parent ++ "/" ++ rest).toList := by
        simp
      rw [List.isPrefixOf?_eq_some_iff_append_eq.mpr happ] at h
      cases h
    | some l =>
      have happ := List.isPrefixOf?_eq_some_iff_append_eq.mp h
      constructor
      · intro hl
        cases l with
        | nil => simp at hl
        | cons x l =>
          have hx : x = '/' := by simpa using hl
          subst hx
          refine ⟨String.ofList l, ?_⟩
          apply String.toList_injective
          simpa using happ.symm
      · rintro ⟨rest, rfl⟩
        have hl : l = '/' :: rest.toList := by simpa using happ
        simp [hl]
  unfold scopeCovers SubScope
  rw [Bool.or_eq_true, beq_iff_eq, hrest, eq_comm]

namespace Capability

/-- The entries of the caveats map; absent caveats have none. -/
def caveatEntries (c : Capability) : List (String × Cv) :=
  match c.caveats with
  | some (.textMap m) => m
  | _ => []

/-- Caveats as decoding yields them. -/
def CaveatsTextMap (c : Capability) : Prop := ∀ v ∈ c.caveats, ∃ m, v = .textMap m

theorem caveatsTextMap_of_fromCv {cv : Cv} {c : Capability} (h : fromCv cv = .ok c) :
    c.CaveatsTextMap := by
  have hyields : Record.Yields id (fun _ => True) reader [] (fun c _ => c.CaveatsTextMap) := by
    apply Record.yields_field
    intro _ resource _ _
    apply Record.yields_field
    intro _ ability _ _
    apply Record.yields_optField
    · exact Record.yields_deny_pure (by simp [CaveatsTextMap])
    · intro v caveats _ hv
      have htext : ∃ m, caveats = .textMap m := by
        unfold caveatsFromCv at hv
        split at hv <;> cases hv
        · exact ⟨_, rfl⟩
        · exact ⟨[], rfl⟩
      exact Record.yields_deny_pure (by simpa [CaveatsTextMap] using htext)
  obtain ⟨m, rest, -, hrun⟩ := Fields.read_eq_ok.mp h
  obtain ⟨-, l, hc, -⟩ := hyields (fun _ _ => trivial) hrun
  exact hc

/-- The grant `child` is no wider than the grant `parent`. -/
structure Covers (parent child : Capability) : Prop where
  resource : SubScope parent.resource child.resource
  ability : SubScope parent.ability child.ability
  caveats : ∀ entry ∈ parent.caveatEntries, entry ∈ child.caveatEntries

theorem Covers.trans {a b c : Capability} (hab : a.Covers b) (hbc : b.Covers c) : a.Covers c where
  resource := hab.resource.trans hbc.resource
  ability := hab.ability.trans hbc.ability
  caveats := fun entry h => hbc.caveats entry (hab.caveats entry h)

theorem caveatsTightened_iff {parent child : Capability} (hp : parent.CaveatsTextMap)
    (hc : child.CaveatsTextMap) :
    caveatsTightened parent.caveats child.caveats = true ↔
      ∀ entry ∈ parent.caveatEntries, entry ∈ child.caveatEntries := by
  unfold CaveatsTextMap at hp hc
  unfold caveatEntries caveatsTightened
  cases hpc : parent.caveats with
  | none => simp
  | some v =>
    obtain ⟨m, rfl⟩ := hp v hpc
    cases hcc : child.caveats with
    | none => simp [List.eq_nil_iff_forall_not_mem]
    | some w =>
      obtain ⟨m', rfl⟩ := hc w hcc
      have hmem : ∀ p : String × Cv,
          (m'.any fun c => c.1 == p.1 && c.2 == p.2) = true ↔ p ∈ m' := by
        intro p
        rw [List.any_eq_true]
        constructor
        · rintro ⟨c, hc, heq⟩
          have hcp : c = p := by simpa [Prod.ext_iff] using heq
          rw [← hcp]
          exact hc
        · intro h
          exact ⟨p, h, by simp⟩
      simp only [List.all_eq_true, hmem]

/-- On decoded caveats the executable test decides the covering relation. -/
theorem capabilityCovers_iff {parent child : Capability} (hp : parent.CaveatsTextMap)
    (hc : child.CaveatsTextMap) : capabilityCovers parent child = true ↔ parent.Covers child := by
  unfold capabilityCovers
  rw [Bool.and_eq_true, Bool.and_eq_true, scopeCovers_iff, scopeCovers_iff,
    caveatsTightened_iff hp hc]
  constructor
  · rintro ⟨⟨hr, ha⟩, hcav⟩
    exact ⟨hr, ha, hcav⟩
  · intro h
    exact ⟨⟨h.resource, h.ability⟩, h.caveats⟩

end Capability
end Covering

namespace CapabilityToken

section Verify
variable (E : Ed25519) (blake3 : Bytes → Digest)

/-- The signature only, under the token's own issuer. -/
def verify (t : CapabilityToken) : Except IdentityError Unit :=
  if t.suite.isSupported = false then .error (.unsupportedSuite t.suite.asU8)
  else E.verifyDomain t.iss capTokenDs t.signingBody t.sig

/-- The walk of `verifyChain`: `child` is the token whose parent comes next. -/
def verifyChainFrom (child : CapabilityToken) :
    List CapabilityToken → Except CapabilityError Unit
  | [] => if child.prnt.isSome then .error .brokenChain else .ok ()
  | parent :: chain => do
    (parent.verify E).mapError fun _ => .badSignature
    if child.prnt ≠ some (parent.contentId blake3) then .error .brokenChain
    else if child.iss ≠ parent.aud then .error .brokenChain
    else if child.nbf < parent.nbf ∨ parent.exp < child.exp then .error .windowNotNested
    else if child.caps.any fun c => !parent.caps.any fun p => capabilityCovers p c then
      .error .attenuationViolation
    else verifyChainFrom parent chain

/-- `chain` lists the ancestors, nearest parent first. -/
def verifyChain (t : CapabilityToken) (chain : List CapabilityToken) :
    Except CapabilityError Unit := do
  (t.verify E).mapError fun _ => .badSignature
  t.verifyChainFrom E blake3 chain

def verifyChainRooted (t : CapabilityToken) (chain : List CapabilityToken) (trustedRoot : Bytes) :
    Except CapabilityError Unit := do
  t.verifyChain E blake3 chain
  let rootIss := (chain.getLast?.map iss).getD t.iss
  if rootIss ≠ trustedRoot then .error .untrustedRoot else .ok ()

def verifyAt (t : CapabilityToken) (now : UInt64) (revocations : List ContentId) :
    Except CapabilityError Unit := do
  (t.verify E).mapError fun _ => .badSignature
  if now < t.nbf then .error .notYetValid
  else if t.exp ≤ now then .error .expired
  else if revocations.any fun r => r = t.contentId blake3 then .error .revoked
  else .ok ()

end Verify

/-- How a token names its parent. -/
structure Names (blake3 : Bytes → Digest) (child parent : CapabilityToken) : Prop where
  prnt : child.prnt = some (parent.contentId blake3)
  iss : child.iss = parent.aud

/-- The child grants nothing that the parent does not, and within its window. -/
structure Narrows (child parent : CapabilityToken) : Prop where
  caps : ∀ c ∈ child.caps, ∃ p ∈ parent.caps, p.Covers c
  nbf : parent.nbf ≤ child.nbf
  exp : child.exp ≤ parent.exp

theorem Narrows.trans {a b c : CapabilityToken} (hab : a.Narrows b) (hbc : b.Narrows c) :
    a.Narrows c where
  caps := by
    intro x hx
    obtain ⟨y, hy, hxy⟩ := hab.caps x hx
    obtain ⟨z, hz, hyz⟩ := hbc.caps y hy
    exact ⟨z, hz, hyz.trans hxy⟩
  nbf := UInt64.le_trans hbc.nbf hab.nbf
  exp := UInt64.le_trans hab.exp hbc.exp

instance : Trans Narrows Narrows Narrows := ⟨Narrows.trans⟩

/-- Every capability of the token carries decoded caveats. -/
def CaveatsTextMaps (t : CapabilityToken) : Prop := ∀ c ∈ t.caps, c.CaveatsTextMap

/-- Decoding guarantees it. -/
theorem caveatsTextMaps_of_fromDetCbor {b : Bytes} {t : CapabilityToken}
    (h : fromDetCbor b = .ok t) : t.CaveatsTextMaps := by
  have hyields : Record.Yields id (fun _ => True) reader [] (fun t _ => t.CaveatsTextMaps) := by
    apply Record.yields_field
    intro _ suite _ _
    apply Record.yields_field
    intro _ iss _ _
    apply Record.yields_field
    intro _ aud _ _
    apply Record.yields_field
    intro v caps _ hv
    have hcaps : ∀ c ∈ caps, c.CaveatsTextMap := by
      obtain ⟨a, -, hmap⟩ := except_bind_eq_ok.mp hv
      intro c hc
      obtain ⟨cv, -, hcv⟩ := exists_of_mem_mapM hmap hc
      exact Capability.caveatsTextMap_of_fromCv hcv
    apply Record.yields_guard
    intro _
    apply Record.yields_field
    intro _ nbf _ _
    apply Record.yields_field
    intro _ exp _ _
    apply Record.yields_field
    intro _ nonce _ _
    have hrest : ∀ prnt acc, Record.Yields id (fun _ => True) (do
        let sig ← Fields.req 9 asBytes
        Fields.denyUnknown
        return ⟨suite, iss, aud, caps, nbf, exp, nonce, prnt, sig⟩ :
          FieldReader CborError CapabilityToken) acc (fun t _ => t.CaveatsTextMaps) := by
      intro prnt acc
      apply Record.yields_field
      intro _ sig _ _
      exact Record.yields_deny_pure hcaps
    apply Record.yields_optField
    · exact hrest none _
    · intro _ prnt _ _
      exact hrest (some prnt) _
  obtain ⟨m, -, hread⟩ := fromDetCbor_read_eq_ok h
  obtain ⟨_, rest, -, hrun⟩ := Fields.read_eq_ok.mp hread
  obtain ⟨-, l, ht, -⟩ := hyields (fun _ _ => trivial) hrun
  exact ht

section Specs
variable {E : Ed25519} {blake3 : Bytes → Digest}

private theorem caps_covered_iff {child parent : CapabilityToken} (hc : child.CaveatsTextMaps)
    (hp : parent.CaveatsTextMaps) :
    ((child.caps.any fun c => !parent.caps.any fun p => capabilityCovers p c) = false) ↔
      ∀ c ∈ child.caps, ∃ p ∈ parent.caps, p.Covers c := by
  rw [List.any_eq_false]
  constructor
  · intro h c hcm
    have hany : (parent.caps.any fun p => capabilityCovers p c) = true := by
      simpa using h c hcm
    obtain ⟨p, hpm, hcov⟩ := List.any_eq_true.mp hany
    exact ⟨p, hpm, (Capability.capabilityCovers_iff (hp p hpm) (hc c hcm)).mp hcov⟩
  · intro h c hcm
    obtain ⟨p, hpm, hcov⟩ := h c hcm
    have hany : (parent.caps.any fun p => capabilityCovers p c) = true :=
      List.any_eq_true.mpr ⟨p, hpm, (Capability.capabilityCovers_iff (hp p hpm) (hc c hcm)).mpr hcov⟩
    simp [hany]

/-- One hop of the walk. -/
theorem verifyChainFrom_cons_eq_ok {child parent : CapabilityToken} {chain : List CapabilityToken}
    (hc : child.CaveatsTextMaps) (hp : parent.CaveatsTextMaps) :
    child.verifyChainFrom E blake3 (parent :: chain) = .ok () ↔
      parent.verify E = .ok () ∧ (child.Names blake3 parent ∧ child.Narrows parent) ∧
        parent.verifyChainFrom E blake3 chain = .ok () := by
  rw [verifyChainFrom]
  constructor
  · intro h
    obtain ⟨hv, h⟩ := except_check_bind_eq_ok.mp h
    split_ifs at h with hprnt hiss hwindow hcaps
    have hnames : child.Names blake3 parent := ⟨not_not.mp hprnt, not_not.mp hiss⟩
    have hcovered := (caps_covered_iff hc hp).mp (Bool.eq_false_iff.mpr hcaps)
    have hnbf : parent.nbf ≤ child.nbf := UInt64.not_lt.mp fun hlt => hwindow (Or.inl hlt)
    have hexp : child.exp ≤ parent.exp := UInt64.not_lt.mp fun hlt => hwindow (Or.inr hlt)
    exact ⟨except_mapError_eq_ok.mp hv, ⟨hnames, hcovered, hnbf, hexp⟩, h⟩
  · rintro ⟨hv, ⟨hnames, hnarrows⟩, h⟩
    have hcovered := (caps_covered_iff hc hp).mpr hnarrows.caps
    have hwindow : ¬ (child.nbf < parent.nbf ∨ parent.exp < child.exp) := by
      rintro (hlt | hlt)
      · exact UInt64.not_lt.mpr hnarrows.nbf hlt
      · exact UInt64.not_lt.mpr hnarrows.exp hlt
    refine except_check_bind_eq_ok.mpr ⟨except_mapError_eq_ok.mpr hv, ?_⟩
    rw [if_neg (not_not.mpr hnames.prnt), if_neg (not_not.mpr hnames.iss), if_neg hwindow,
      if_neg (Bool.eq_false_iff.mp hcovered)]
    exact h

/-- The walk, as a condition on the whole chain. -/
theorem verifyChainFrom_eq_ok {t : CapabilityToken} {chain : List CapabilityToken}
    (hcav : ∀ a ∈ t :: chain, a.CaveatsTextMaps) :
    t.verifyChainFrom E blake3 chain = .ok () ↔
      (∀ a ∈ chain, a.verify E = .ok ()) ∧
        (t :: chain).IsChain (fun child parent => child.Names blake3 parent ∧ child.Narrows parent) ∧
        ((t :: chain).getLast (List.cons_ne_nil t chain)).prnt = none := by
  induction chain generalizing t with
  | nil =>
    unfold verifyChainFrom
    cases h : t.prnt <;> simp [h]
  | cons parent chain ih =>
    have ht : t.CaveatsTextMaps := hcav t List.mem_cons_self
    have hrest : ∀ a ∈ parent :: chain, a.CaveatsTextMaps :=
      fun a ha => hcav a (List.mem_cons_of_mem t ha)
    rw [verifyChainFrom_cons_eq_ok ht (hrest parent List.mem_cons_self), ih hrest,
      List.forall_mem_cons, List.isChain_cons_cons, List.getLast_cons_cons]
    tauto

theorem verifyChain_eq_ok {t : CapabilityToken} {chain : List CapabilityToken}
    (hcav : ∀ a ∈ t :: chain, a.CaveatsTextMaps) :
    t.verifyChain E blake3 chain = .ok () ↔
      (∀ a ∈ t :: chain, a.verify E = .ok ()) ∧
        (t :: chain).IsChain (fun child parent => child.Names blake3 parent ∧ child.Narrows parent) ∧
        ((t :: chain).getLast (List.cons_ne_nil t chain)).prnt = none := by
  unfold verifyChain
  rw [except_check_bind_eq_ok, except_mapError_eq_ok, List.forall_mem_cons, and_assoc,
    ← verifyChainFrom_eq_ok hcav]

theorem verifyChainRooted_eq_ok {t : CapabilityToken} {chain : List CapabilityToken} {k : Bytes} :
    t.verifyChainRooted E blake3 chain k = .ok () ↔
      t.verifyChain E blake3 chain = .ok () ∧
        ((t :: chain).getLast (List.cons_ne_nil t chain)).iss = k := by
  have hroot : (chain.getLast?.map iss).getD t.iss =
      ((t :: chain).getLast (List.cons_ne_nil t chain)).iss := by
    cases chain with
    | nil => rfl
    | cons a chain =>
      rw [List.getLast?_eq_getLast_of_ne_nil (List.cons_ne_nil a chain), List.getLast_cons_cons]
      rfl
  unfold verifyChainRooted
  rw [except_check_bind_eq_ok, hroot]
  simp

theorem verifyAt_eq_ok {t : CapabilityToken} {now : UInt64} {revocations : List ContentId} :
    t.verifyAt E blake3 now revocations = .ok () ↔
      t.verify E = .ok () ∧ (t.nbf ≤ now ∧ now < t.exp) ∧ t.contentId blake3 ∉ revocations := by
  unfold verifyAt
  rw [except_check_bind_eq_ok, except_mapError_eq_ok]
  refine and_congr_right fun _ => ?_
  split_ifs with hnbf hexp hrev
  · simp [UInt64.not_le.mpr hnbf]
  · simp [UInt64.not_lt.mpr hexp]
  · have hmem : t.contentId blake3 ∈ revocations := by simpa using hrev
    simp [hmem]
  · have hmem : t.contentId blake3 ∉ revocations := by simpa using hrev
    simp [hmem, UInt64.not_lt.mp hnbf, UInt64.not_le.mp hexp]

end Specs

section Main
variable (E : Ed25519) (blake3 : Bytes → Digest)

/-- Whatever the length of the chain, the leaf stays inside every ancestor. -/
theorem delegation_never_escalates (t : CapabilityToken) (chain : List CapabilityToken)
    (hcav : ∀ a ∈ t :: chain, a.CaveatsTextMaps) (h : t.verifyChain E blake3 chain = .ok ()) :
    (∀ a ∈ chain, t.Narrows a) ∧ (t :: chain).IsChain (Names blake3) ∧
      ((t :: chain).getLast (List.cons_ne_nil t chain)).prnt = none ∧
      ∀ k, t.verifyChainRooted E blake3 chain k = .ok () →
        ((t :: chain).getLast (List.cons_ne_nil t chain)).iss = k ∧
          ∀ now revocations, t.verifyAt E blake3 now revocations = .ok () →
            ∀ a ∈ t :: chain, a.nbf ≤ now ∧ now < a.exp := by
  obtain ⟨-, hlinks, hroot⟩ := (verifyChain_eq_ok hcav).mp h
  have hnames : (t :: chain).IsChain (Names blake3) := hlinks.imp fun _ _ hlink => hlink.1
  have hnarrows : (t :: chain).IsChain Narrows := hlinks.imp fun _ _ hlink => hlink.2
  have hinside : ∀ a ∈ chain, t.Narrows a := fun a ha => hnarrows.rel_cons ha
  refine ⟨hinside, hnames, hroot, ?_⟩
  intro k hk
  refine ⟨(verifyChainRooted_eq_ok.mp hk).2, ?_⟩
  intro now revocations hat
  obtain ⟨-, ⟨hnbf, hexp⟩, -⟩ := verifyAt_eq_ok.mp hat
  rw [List.forall_mem_cons]
  refine ⟨⟨hnbf, hexp⟩, ?_⟩
  intro a ha
  have hta := hinside a ha
  exact ⟨UInt64.le_trans hta.nbf hnbf, UInt64.lt_of_lt_of_le hexp hta.exp⟩

/-- Only the token's own address is looked up: for a token that can be used at some time, no
ancestor in the list has an effect. -/
theorem revoked_ancestor_rejects_iff (t : CapabilityToken) (chain : List CapabilityToken)
    (h : t.verifyChain E blake3 chain = .ok ()) (revocations : List ContentId)
    (_hrev : ∃ a ∈ t :: chain, a.contentId blake3 ∈ revocations) :
    (∀ now, ∃ e, t.verifyAt E blake3 now revocations = .error e) ↔
      t.contentId blake3 ∈ revocations ∨ t.exp ≤ t.nbf := by
  have hverify : t.verify E = .ok () := by
    obtain ⟨hv, -⟩ := except_check_bind_eq_ok.mp h
    exact except_mapError_eq_ok.mp hv
  have herror : ∀ now, (∃ e, t.verifyAt E blake3 now revocations = .error e) ↔
      ¬ t.verifyAt E blake3 now revocations = .ok () := by
    intro now
    cases hat : t.verifyAt E blake3 now revocations <;> simp
  simp only [herror, verifyAt_eq_ok, hverify, true_and]
  by_cases hmem : t.contentId blake3 ∈ revocations
  · simp [hmem]
  · simp only [hmem, not_false_eq_true, and_true, false_or]
    constructor
    · intro hnow
      exact UInt64.not_lt.mp fun hlt => hnow t.nbf ⟨UInt64.le_refl _, hlt⟩
    · intro hle now hnow
      exact UInt64.not_lt.mpr hle (UInt64.lt_of_le_of_lt hnow.1 hnow.2)

end Main

section TwoTokens

/-- The Ed25519 public keys of the seeds `01…01` and `02…02`. -/
def rootKey : Bytes := toBe 32 0x8a88e3dd7409f195fd52db2d3cba5d72ca6709bf1d94121bf3748801b40f6f5c

def leafKey : Bytes := toBe 32 0x8139770ea87d175f56a35466c34c7ecccb8d8a91b4ee37a25df60f5b8fc9b394

def rootToken : CapabilityToken where
  suite := .classical
  iss := rootKey
  aud := leafKey
  caps := [⟨"m", "r", none⟩]
  nbf := 0
  exp := 9
  nonce := []
  prnt := none
  sig := toBe 32 0xa72f68c90fae9442d7655a10a57eee7086cb68fc1d08305cbbbaa7a8b6afbf1c ++
    toBe 32 0x4f3a00ba378e41d90c62dc6002cf4c4d73c5188540e07ed62aed5fa9aeea600c

/-- The BLAKE3 digest of the root token. -/
def rootDigest : Digest :=
  ⟨toBe 32 0xe0cd63da11abe925c387b17befbd20ee485650a6aee029b64bd8fd562bc5c0d6, length_toBe _ _⟩

def leafToken : CapabilityToken where
  suite := .classical
  iss := leafKey
  aud := []
  caps := [⟨"m/c", "r", none⟩]
  nbf := 1
  exp := 9
  nonce := []
  prnt := some ⟨mhBlake3 :: rootDigest.val⟩
  sig := toBe 32 0xe3a2181deafbb3f38ea7bb2e7d575d59418569621dbe64468707d3cc20d68051 ++
    toBe 32 0x67b044c54f8bf603655ed1ed4fe9835feb14ef665fb1adb58f8263f8320f720d

def leafDigest : Digest :=
  ⟨toBe 32 0xfa1ddd38f58de020d9f273dca5cba45350c5132a1d2bb4088e10531240b85b17, length_toBe _ _⟩

/-- Ed25519 as far as these two tokens need it. -/
def twoSignatures : Ed25519 where
  publicKey := fun ik => if ik.val = List.replicate 32 1 then rootKey else leafKey
  sign := fun ik _ => if ik.val = List.replicate 32 1 then rootToken.sig else leafToken.sig
  isPoint := fun pk => pk = rootKey ∨ pk = leafKey
  verifyStrict := fun pk msg sig =>
    (pk, msg, sig) = (rootKey, capTokenDs ++ rootToken.signingBody, rootToken.sig) ∨
      (pk, msg, sig) = (leafKey, capTokenDs ++ leafToken.signingBody, leafToken.sig)

/-- BLAKE3 as far as these two tokens need it. -/
def twoTokenDigests (b : Bytes) : Digest := if b = rootToken.detCbor then rootDigest else leafDigest

private theorem leaf_verifyChain :
    leafToken.verifyChain twoSignatures twoTokenDigests [rootToken] = .ok () := by
  decide +kernel

theorem delegation_never_escalates_two_tokens :
    leafToken.verifyChainRooted twoSignatures twoTokenDigests [rootToken] rootKey = .ok () ∧
      leafToken.Narrows rootToken := by
  have hcav : ∀ a ∈ [leafToken, rootToken], a.CaveatsTextMaps := by
    simp [CaveatsTextMaps, Capability.CaveatsTextMap, leafToken, rootToken]
  have hmain := delegation_never_escalates twoSignatures twoTokenDigests leafToken [rootToken] hcav
    leaf_verifyChain
  exact ⟨by decide +kernel, hmain.1 rootToken List.mem_cons_self⟩

theorem revoked_ancestor_rejects_iff_two_tokens :
    (∀ now, ∃ e, leafToken.verifyAt twoSignatures twoTokenDigests now
      [rootToken.contentId twoTokenDigests] = .error e) ↔
      leafToken.contentId twoTokenDigests ∈ [rootToken.contentId twoTokenDigests] ∨
        leafToken.exp ≤ leafToken.nbf :=
  revoked_ancestor_rejects_iff twoSignatures twoTokenDigests leafToken [rootToken] leaf_verifyChain
    [rootToken.contentId twoTokenDigests] ⟨rootToken, by simp, by simp⟩

/-- The parent is revoked, and the leaf is still accepted. -/
theorem revoked_ancestor_accepted :
    leafToken.verifyChain twoSignatures twoTokenDigests [rootToken] = .ok () ∧
      leafToken.verifyAt twoSignatures twoTokenDigests 5 [rootToken.contentId twoTokenDigests] =
        .ok () := by
  exact ⟨leaf_verifyChain, by decide +kernel⟩

end TwoTokens

end CapabilityToken
end Dmtap
