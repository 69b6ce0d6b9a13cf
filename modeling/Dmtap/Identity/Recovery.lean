import Dmtap.Cbor.Rewrites
import Dmtap.Identity.Objects

/-! Recovery policies and their wire form. A predicate that asks for a number of phrases other
than one is accepted, and written back as one that asks for one phrase. -/
namespace Dmtap
open Dmtap.Lib Dmtap.Cbor

/-- The published material of a way to recover; key 0 of its map names the variant. -/
inductive RecoveryMethod
  | phrase (recoveryKey : Bytes)
  | device (deviceKey : Bytes) (label : String)
  | social (guardians : List Bytes) (threshold : UInt8)

namespace RecoveryMethod

def fields : RecoveryMethod → Fields
  | phrase recoveryKey => [(0, .u64 1), (1, .bytes recoveryKey)]
  | device deviceKey label => [(0, .u64 2), (1, .bytes deviceKey), (2, .text label)]
  | social guardians threshold =>
    [(0, .u64 3), (1, .array (guardians.map .bytes)), (2, .u64 threshold.toUInt64)]

def toCv (m : RecoveryMethod) : Cv := .map m.fields

def reader : FieldReader CborError RecoveryMethod := do
  let disc ← Fields.req 0 asU64
  if disc = 1 then do
    let recoveryKey ← Fields.req 1 asBytes
    Fields.denyUnknown
    return phrase recoveryKey
  else if disc = 2 then do
    let deviceKey ← Fields.req 1 asBytes
    let label ← Fields.req 2 asText
    Fields.denyUnknown
    return device deviceKey label
  else if disc = 3 then do
    let guardians ← Fields.req 1 (asArrayOf asBytes)
    let threshold ← Fields.req 2 asU8
    Fields.denyUnknown
    return social guardians threshold
  else throw (.unknownDiscriminant disc)

def fromCv : Cv → Except CborError RecoveryMethod := Fields.read reader

theorem readsFields : ReadsFields reader fields := by
  apply yields_req lossless_u64
  intro disc
  by_cases h1 : disc = 1
  · subst h1
    rw [if_pos rfl]
    apply yields_req lossless_bytes
    intro recoveryKey
    exact Record.yields_deny_pure (by simp [fields])
  rw [if_neg h1]
  by_cases h2 : disc = 2
  · subst h2
    rw [if_pos rfl]
    apply yields_req lossless_bytes
    intro deviceKey
    apply yields_req lossless_text
    intro label
    exact Record.yields_deny_pure (by simp [fields])
  rw [if_neg h2]
  by_cases h3 : disc = 3
  · subst h3
    rw [if_pos rfl]
    apply yields_req (lossless_array lossless_bytes)
    intro guardians
    apply yields_req lossless_u8
    intro threshold
    exact Record.yields_deny_pure (by simp [fields])
  rw [if_neg h3]
  exact Record.yields_throw _

theorem lossless : Lossless fromCv toCv := readsFields.lossless

end RecoveryMethod

/-- How many factors of one kind satisfy a threshold. -/
inductive MethodPredicate
  | phrase
  | devices (n : UInt8)
  | guardians (n : UInt8)
  | ik
  deriving DecidableEq, Repr

namespace MethodPredicate

def method : MethodPredicate → String
  | phrase => "phrase"
  | devices _ => "device"
  | guardians _ => "social"
  | ik => "ik"

/-- How many factors the predicate asks for, one for the kinds without a count. -/
def count : MethodPredicate → UInt8
  | devices n => n
  | guardians n => n
  | phrase => 1
  | ik => 1

def fields (p : MethodPredicate) : Fields :=
  [(1, .text p.method), (2, .u64 p.count.toUInt64)]

def toCv (p : MethodPredicate) : Cv := .map p.fields

/-- Only the count of `"ik"` is required to be one. -/
def ofMethod (method : String) (n : UInt8) : Except CborError MethodPredicate :=
  if n < 1 then .error .intRange
  else if method = "phrase" then .ok phrase
  else if method = "device" then .ok (devices n)
  else if method = "social" then .ok (guardians n)
  else if method = "ik" then if n = 1 then .ok ik else .error .intRange
  else .error .typeMismatch

def reader : FieldReader CborError MethodPredicate := do
  let method ← Fields.req 1 asText
  let count ← Fields.req 2 asU64
  Fields.denyUnknown
  let n ← Record.ofExcept id (asU8 (.u64 count))
  Record.ofExcept id (ofMethod method n)

def fromCv : Cv → Except CborError MethodPredicate := Fields.read reader

def isPhrase : Cv → Bool
  | .text s => s = "phrase"
  | _ => false

def isOne : Cv → Bool
  | .u64 n => n = 1
  | _ => false

/-- The received predicate names phrases, with a count other than one. -/
def countsPhrases (cv : Cv) : Bool :=
  cv.fields.any (fun p => p.1 = 1 && isPhrase p.2) && cv.fields.any (fun p => p.1 = 2 && !isOne p.2)

theorem ofMethod_eq_ok {s : String} {n : UInt8} {p : MethodPredicate} (h : ofMethod s n = .ok p) :
    1 ≤ n ∧ p.method = s ∧ p.count = if s = "phrase" then 1 else n := by
  unfold ofMethod at h
  split_ifs at h with hn hphrase hdevice hsocial hik hone
  · obtain rfl := Except.ok.inj h
    exact ⟨UInt8.not_lt.mp hn, hphrase.symm, (if_pos hphrase).symm⟩
  · obtain rfl := Except.ok.inj h
    exact ⟨UInt8.not_lt.mp hn, hdevice.symm, (if_neg hphrase).symm⟩
  · obtain rfl := Except.ok.inj h
    exact ⟨UInt8.not_lt.mp hn, hsocial.symm, (if_neg hphrase).symm⟩
  · obtain rfl := Except.ok.inj h
    refine ⟨UInt8.not_lt.mp hn, hik.symm, ?_⟩
    rw [if_neg hphrase, hone]
    rfl

theorem reads : Takes reader [] (fun p l => ∃ s n, l = [(1, .text s), (2, .u64 n.toUInt64)] ∧
    ofMethod s n = .ok p) := by
  apply Record.yields_field
  intro v s _ hs
  apply Record.yields_field
  intro w count _ hcount
  apply Record.yields_deny
  intro p t h
  obtain ⟨n, u, hrun, h⟩ := Reader.run_bind_eq_ok.mp h
  obtain ⟨hn, rfl⟩ := Record.ofExcept_run hrun
  obtain ⟨hp, rfl⟩ := Record.ofExcept_run h
  have hback : count = n.toUInt64 := Cv.u64.inj (asU8_eq_ok.mp hn)
  have hv : v = .text s := by
    cases v <;> cases hs
    rfl
  have hw : w = .u64 count := by
    cases w <;> cases hcount
    rfl
  refine ⟨rfl, s, n, ?_, hp⟩
  rw [hv, hw, hback]
  rfl

private theorem one_lightest : ∀ n : UInt8, 1 ≤ n → n ≠ 1 →
    weight (enc (.u64 (1 : UInt8).toUInt64)) < weight (enc (.u64 n.toUInt64)) := by
  decide +kernel

/-- The count alone can be respelt, and only that of phrases. -/
private theorem respelt_fields {s : String} {n : UInt8} {p : MethodPredicate}
    (h : ofMethod s n = .ok p) : RespeltFields (fun q => q.1 = 2 → s = "phrase" → n = 1)
      [(1, .text s), (2, .u64 n.toUInt64)] p.fields := by
  obtain ⟨hn, hmethod, hcount⟩ := ofMethod_eq_ok h
  unfold fields
  rw [hmethod, hcount]
  refine List.Forall₂.cons ⟨rfl, Or.inl ⟨fun hkey => ?_, rfl⟩⟩
    (List.Forall₂.cons ⟨rfl, ?_⟩ List.Forall₂.nil)
  · exact absurd (show (1 : UInt64) = 2 from hkey) (by decide)
  · by_cases hphrase : s = "phrase"
    · rw [if_pos hphrase]
      by_cases hone : n = 1
      · rw [hone]
        exact Or.inl ⟨fun _ _ => rfl, rfl⟩
      · exact Or.inr ⟨fun hall => hone (hall rfl hphrase), one_lightest n hn hone⟩
    · rw [if_neg hphrase]
      exact Or.inl ⟨fun _ hs => absurd hs hphrase, rfl⟩

private theorem countsPhrases_eq_false {m : Fields} {s : String} {n : UInt8}
    (h : m.Perm [(1, .text s), (2, .u64 n.toUInt64)]) :
    countsPhrases (.map m) = false ↔ ∀ q ∈ m, q.1 = 2 → s = "phrase" → n = 1 := by
  have hone : n.toUInt64 = 1 ↔ n = 1 := by
    constructor
    · intro heq
      exact UInt8.toUInt64_inj.mp heq
    · intro heq
      rw [heq]
      rfl
  unfold countsPhrases Cv.fields
  simp only [h.any_eq, h.mem_iff]
  simp [isPhrase, isOne, hone]

theorem rewrites : Rewrites fromCv toCv (fun cv => countsPhrases cv = false) := by
  intro cv p hcv h
  cases cv with
  | map m =>
    obtain ⟨l, ⟨s, n, rfl, hp⟩, hperm⟩ := reads.perm hcv h
    have hrespelt := (respelt_fields hp).respelt (Cv.keysDistinct_map.mp hcv).1 hperm
    rw [← countsPhrases_eq_false hperm] at hrespelt
    exact hrespelt
  | _ => cases h

end MethodPredicate

/-- Any one of the predicates satisfies the threshold. -/
structure Threshold where
  anyOf : List MethodPredicate

namespace Threshold

def fields (t : Threshold) : Fields := [(1, .array (t.anyOf.map MethodPredicate.toCv))]

def toCv (t : Threshold) : Cv := .map t.fields

def reader : FieldReader CborError Threshold := do
  let anyOf ← Fields.req 1 (asArrayOf MethodPredicate.fromCv)
  Fields.denyUnknown
  return { anyOf }

def fromCv : Cv → Except CborError Threshold := Fields.read reader

/-- Some predicate of the received threshold counts phrases. -/
def countsPhrases (cv : Cv) : Bool :=
  cv.fields.any (fun p => p.1 = 1 && p.2.elements.any MethodPredicate.countsPhrases)

theorem respellsFields : RespellsFields
    (fun p => p.1 = 1 → ∀ v ∈ p.2.elements, MethodPredicate.countsPhrases v = false)
    reader fields := by
  apply respells_req (rewrites_array MethodPredicate.rewrites) (fun v => by simp)
  intro anyOf
  apply respells_deny_pure
  intro taken htaken
  exact htaken

theorem rewrites : Rewrites fromCv toCv (fun cv => countsPhrases cv = false) := by
  apply respellsFields.rewrites.congr
  intro cv
  simp [countsPhrases]

end Threshold

structure RecoveryPolicy where
  suite : Suite
  ik : Bytes
  version : UInt64
  methods : List RecoveryMethod
  recoverThreshold : Threshold
  rotateThreshold : Threshold
  prev : Option ContentId
  ts : UInt64
  sig : Bytes

namespace RecoveryPolicy

def fields (includeSig : Bool) (p : RecoveryPolicy) : Fields :=
  [(1, p.suite.toCv), (2, .bytes p.ik), (3, .u64 p.version),
    (4, .array (p.methods.map RecoveryMethod.toCv)), (5, p.recoverThreshold.toCv),
    (6, p.rotateThreshold.toCv)] ++ Fields.opt 7 ContentId.toCv p.prev ++ [(8, .u64 p.ts)] ++
    if includeSig then [(9, .bytes p.sig)] else []

def detCbor (p : RecoveryPolicy) : Bytes := encode (.map (fields true p))

def signingBody (p : RecoveryPolicy) : Bytes := encode (.map (fields false p))

/-- What guardians counter-sign, and what the next version names as its predecessor. -/
def contentId (blake3 : Bytes → Digest) (p : RecoveryPolicy) : ContentId := .of blake3 p.detCbor

def reader : FieldReader IdentityError RecoveryPolicy := do
  let suite ← Fields.req 1 suiteFromCv
  let ik ← Fields.req 2 asBytes
  let version ← Fields.req 3 asU64
  let methods ← Fields.req 4 (asArrayOf RecoveryMethod.fromCv)
  let recoverThreshold ← Fields.req 5 Threshold.fromCv
  let rotateThreshold ← Fields.req 6 Threshold.fromCv
  let prev ← Fields.take 7 ContentId.fromCv
  let ts ← Fields.req 8 asU64
  let sig ← Fields.req 9 asBytes
  Fields.denyUnknown
  return { suite, ik, version, methods, recoverThreshold, rotateThreshold, prev, ts, sig }

def fromDetCbor : Bytes → Except IdentityError RecoveryPolicy :=
  Cbor.fromDetCbor (Fields.read reader)

/-- An entry that is a threshold with a predicate that counts phrases. -/
def countsPhrasesInside (p : UInt64 × Cv) : Bool :=
  (p.1 = 5 || p.1 = 6) && Threshold.countsPhrases p.2

/-- A threshold in the received bytes asks for a number of phrases other than one. -/
def countsPhrases (bytes : Bytes) : Bool :=
  match decode bytes with
  | .ok cv => cv.fields.any countsPhrasesInside
  | .error _ => false

private theorem exact_iff {k : UInt64} (hk : k ≠ 5 ∧ k ≠ 6) (v : Cv) :
    countsPhrasesInside (k, v) = false ↔ True := by
  simp [countsPhrasesInside, hk]

theorem respellsFields :
    RespellsFields (fun p => countsPhrasesInside p = false) reader (fields true) := by
  apply respells_req lossless_suite.rewrites (exact_iff (by decide))
  intro suite
  apply respells_req lossless_bytes.rewrites (exact_iff (by decide))
  intro ik
  apply respells_req lossless_u64.rewrites (exact_iff (by decide))
  intro version
  apply respells_req (lossless_array RecoveryMethod.lossless).rewrites (exact_iff (by decide))
  intro methods
  apply respells_req Threshold.rewrites (fun v => by simp [countsPhrasesInside])
  intro recoverThreshold
  apply respells_req Threshold.rewrites (fun v => by simp [countsPhrasesInside])
  intro rotateThreshold
  apply respells_take ContentId.lossless.rewrites (exact_iff (by decide))
  intro prev
  apply respells_req lossless_u64.rewrites (exact_iff (by decide))
  intro ts
  apply respells_req lossless_bytes.rewrites (exact_iff (by decide))
  intro sig
  apply respells_deny_pure
  intro taken htaken
  simpa [fields] using htaken

theorem countsPhrases_eq_false {b : Bytes} {m : Fields} (h : decode b = .ok (.map m)) :
    countsPhrases b = false ↔ ∀ p ∈ m, countsPhrasesInside p = false := by
  rw [countsPhrases, h]
  simp [Cv.fields]

theorem detCbor_eq_iff {b : Bytes} {p : RecoveryPolicy} (h : fromDetCbor b = .ok p) :
    p.detCbor = b ↔ countsPhrases b = false := by
  obtain ⟨m, hm, hread⟩ := fromDetCbor_read_eq_ok h
  rw [countsPhrases_eq_false hm]
  exact respellsFields.rewrites.encode_eq_iff hm hread

/-- A policy is written back as it was received exactly when no threshold counts phrases, and
then its content address is that of the received bytes. -/
theorem policy_canonical_iff (blake3 : Bytes → Digest) {b : Bytes} {p : RecoveryPolicy}
    (h : fromDetCbor b = .ok p) :
    (p.detCbor = b ↔ countsPhrases b = false) ∧
      (countsPhrases b = false → p.contentId blake3 = ContentId.of blake3 b) := by
  have hiff := detCbor_eq_iff h
  refine ⟨hiff, fun hcounts => ?_⟩
  rw [contentId, hiff.mpr hcounts]

/-- A policy recovered by `n` phrases and rotated by two guardians. -/
def phrasesBytes (n : UInt8) : Bytes :=
  [0xa8, 0x01, 0x01, 0x02, 0x40, 0x03, 0x00, 0x04, 0x80, 0x05, 0xa1, 0x01, 0x81, 0xa2, 0x01, 0x66,
    0x70, 0x68, 0x72, 0x61, 0x73, 0x65, 0x02, n, 0x06, 0xa1, 0x01, 0x81, 0xa2, 0x01, 0x66, 0x73,
    0x6f, 0x63, 0x69, 0x61, 0x6c, 0x02, 0x02, 0x08, 0x00, 0x09, 0x40]

theorem policy_canonical_one_phrase :
    ∃ p, fromDetCbor (phrasesBytes 1) = .ok p ∧ p.detCbor = phrasesBytes 1 := by
  have hok : (fromDetCbor (phrasesBytes 1)).toOption.any (fun _ => true) = true := by
    decide
  obtain ⟨p, hp, -⟩ := exists_ok_of_any hok
  have hone : countsPhrases (phrasesBytes 1) = false := by decide
  exact ⟨p, hp, (policy_canonical_iff (fun _ => ⟨List.replicate 32 0, rfl⟩) hp).1.mpr hone⟩

theorem policy_two_phrases_rewritten :
    ∃ p, fromDetCbor (phrasesBytes 2) = .ok p ∧ p.detCbor ≠ phrasesBytes 2 := by
  have hne : (fromDetCbor (phrasesBytes 2)).toOption.any
      (fun p => decide (p.detCbor ≠ phrasesBytes 2)) = true := by
    decide
  obtain ⟨p, hp, hdet⟩ := exists_ok_of_any hne
  exact ⟨p, hp, of_decide_eq_true hdet⟩

end RecoveryPolicy
end Dmtap
