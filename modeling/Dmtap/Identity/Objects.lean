import Dmtap.Lib.SortedMap
import Dmtap.Wire

/-! Identities, device certificates and key rotations, and their wire form. -/
namespace Dmtap
open Dmtap.Lib Dmtap.Cbor

inductive IdentityError
  | badSignature
  | brokenChain
  | unsupportedSuite (b : UInt8)
  | malformed (what : String)
  | badKeyLength
  | badEncoding (e : CborError)
  | recoveryThresholdInvalid
  deriving DecidableEq, Repr

instance : ErrorFrom CborError IdentityError := ⟨.badEncoding⟩

instance : ErrorFrom IdentityError IdentityError := ⟨id⟩

/-- Device capabilities, strings on the wire. -/
inductive Cap
  | send
  | recv
  | relay
  | mix
  | gateway
  | admin
  deriving DecidableEq, Repr

namespace Cap

def asStr : Cap → String
  | send => "send"
  | recv => "recv"
  | relay => "relay"
  | mix => "mix"
  | gateway => "gateway"
  | admin => "admin"

def fromStr (s : String) : Except CborError Cap :=
  if s = "send" then .ok send
  else if s = "recv" then .ok recv
  else if s = "relay" then .ok relay
  else if s = "mix" then .ok mix
  else if s = "gateway" then .ok gateway
  else if s = "admin" then .ok admin
  else .error .typeMismatch

def fromCv (cv : Cv) : Except CborError Cap := do
  let s ← asText cv
  fromStr s

def toCv (c : Cap) : Cv := .text c.asStr

theorem asStr_of_fromStr {s : String} {c : Cap} (h : fromStr s = .ok c) : c.asStr = s := by
  unfold fromStr at h
  split_ifs at h with h1 h2 h3 h4 h5 h6
  · cases h; exact h1.symm
  · cases h; exact h2.symm
  · cases h; exact h3.symm
  · cases h; exact h4.symm
  · cases h; exact h5.symm
  · cases h; exact h6.symm

theorem lossless : Lossless fromCv toCv := by
  intro cv c hcv h
  obtain ⟨s, hs, h⟩ := except_bind_eq_ok.mp h
  have henc := lossless_text hcv hs
  rw [← henc, toCv, asStr_of_fromStr h]

end Cap

/-- The published bundle of key packages. -/
structure KeyPackageBundleRef where
  loc : String
  id : ContentId
  suites : Option (List Suite)

namespace KeyPackageBundleRef

def fields (k : KeyPackageBundleRef) : Fields :=
  [(1, .text k.loc), (2, k.id.toCv)] ++ Fields.opt 3 (fun s => .array (s.map Suite.toCv)) k.suites

def toCv (k : KeyPackageBundleRef) : Cv := .map k.fields

def reader : FieldReader CborError KeyPackageBundleRef := do
  let loc ← Fields.req 1 asText
  let id ← Fields.req 2 ContentId.fromCv
  let suites ← Fields.take 3 (asArrayOf suiteFromCv)
  Fields.denyUnknown
  return { loc, id, suites }

def fromCv : Cv → Except CborError KeyPackageBundleRef := Fields.read reader

theorem readsFields : ReadsFields reader fields := by
  apply yields_req lossless_text
  intro loc
  apply yields_req ContentId.lossless
  intro id
  apply yields_take (lossless_array lossless_suite)
  intro suites
  exact Record.yields_deny_pure (by simp [fields])

theorem lossless : Lossless fromCv toCv := readsFields.lossless

end KeyPackageBundleRef

/-- A device signing key, signed by the root identity key. -/
structure DeviceCert where
  suite : Suite
  ik : Bytes
  deviceKey : Bytes
  label : String
  created : UInt64
  expires : Option UInt64
  caps : List Cap
  sig : Bytes

namespace DeviceCert

def fields (includeSig : Bool) (c : DeviceCert) : Fields :=
  [(1, c.suite.toCv), (2, .bytes c.ik), (3, .bytes c.deviceKey), (4, .text c.label),
    (5, .u64 c.created)] ++ Fields.opt 6 .u64 c.expires ++
    [(7, .array (c.caps.map Cap.toCv))] ++ if includeSig then [(8, .bytes c.sig)] else []

def toCv (includeSig : Bool) (c : DeviceCert) : Cv := .map (fields includeSig c)

def detCbor (c : DeviceCert) : Bytes := encode (c.toCv true)

def signingBody (c : DeviceCert) : Bytes := encode (c.toCv false)

def reader : FieldReader CborError DeviceCert := do
  let suite ← Fields.req 1 suiteFromCv
  let ik ← Fields.req 2 asBytes
  let deviceKey ← Fields.req 3 asBytes
  let label ← Fields.req 4 asText
  let created ← Fields.req 5 asU64
  let expires ← Fields.take 6 asU64
  let caps ← Fields.req 7 (asArrayOf Cap.fromCv)
  let sig ← Fields.req 8 asBytes
  Fields.denyUnknown
  return { suite, ik, deviceKey, label, created, expires, caps, sig }

def fromCv : Cv → Except CborError DeviceCert := Fields.read reader

def fromDetCbor : Bytes → Except IdentityError DeviceCert := Cbor.fromDetCbor fromCv

theorem readsFields : ReadsFields reader (fields true) := by
  apply yields_req lossless_suite
  intro suite
  apply yields_req lossless_bytes
  intro ik
  apply yields_req lossless_bytes
  intro deviceKey
  apply yields_req lossless_text
  intro label
  apply yields_req lossless_u64
  intro created
  apply yields_take lossless_u64
  intro expires
  apply yields_req (lossless_array Cap.lossless)
  intro caps
  apply yields_req lossless_bytes
  intro sig
  exact Record.yields_deny_pure (by simp [fields])

theorem lossless : Lossless fromCv (toCv true) := readsFields.lossless

theorem canonical : Canonical fromDetCbor detCbor := lossless.canonical

theorem signsReceived : SignsReceived fromDetCbor signingBody (· ≠ 8) := by
  refine readsFields.signsReceived (fun c => ?_)
  unfold fields
  cases c.expires <;> rfl

end DeviceCert

/-- The identity keys, one for each suite byte. -/
abbrev Iks := SortedMap UInt8 Bytes

namespace Iks

def fields (iks : Iks) : Fields := iks.entries.map (fun p => (p.1.toUInt64, .bytes p.2))

def toCv (iks : Iks) : Cv := .map (fields iks)

def insertPair (iks : Iks) (p : UInt64 × Cv) : Except CborError Iks := do
  let key ← asU8 (.u64 p.1)
  let val ← asBytes p.2
  return iks.insert key val

def fromCv (cv : Cv) : Except CborError Iks := do
  let inner ← Fields.fromCv cv
  inner.foldlM insertPair SortedMap.empty

theorem insertPair_perm {iks iks' : Iks} {p : UInt64 × Cv} (hp : ∀ q ∈ iks.fields, q.1 ≠ p.1)
    (h : iks.insertPair p = .ok iks') : iks'.fields.Perm (p :: iks.fields) := by
  obtain ⟨key, hkey, h⟩ := except_bind_eq_ok.mp h
  obtain ⟨val, hval, h⟩ := except_bind_eq_ok.mp h
  obtain rfl : iks.insert key val = iks' := Except.ok.inj h
  obtain ⟨k, cv⟩ := p
  have hk : k = key.toUInt64 := Cv.u64.inj (asU8_eq_ok.mp hkey)
  have hcv : cv = .bytes val := by
    cases cv <;> cases hval
    rfl
  subst hk hcv
  have hnew : key ∉ iks.entries.map Prod.fst := by
    intro hmem
    obtain ⟨q, hq, hqk⟩ := List.mem_map.mp hmem
    refine hp (q.1.toUInt64, .bytes q.2) (List.mem_map_of_mem hq) ?_
    rw [hqk]
  exact (insertEntry_perm hnew).map _

theorem foldlM_perm {m : Fields} {iks iks' : Iks} (hm : (m.map Prod.fst).Nodup)
    (hd : ∀ p ∈ m, ∀ q ∈ iks.fields, q.1 ≠ p.1) (h : m.foldlM insertPair iks = .ok iks') :
    iks'.fields.Perm (m ++ iks.fields) := by
  induction m generalizing iks with
  | nil =>
    obtain rfl : iks = iks' := Except.ok.inj h
    exact List.Perm.refl _
  | cons p m ih =>
    rw [List.foldlM_cons] at h
    obtain ⟨iks₁, h₁, h⟩ := except_bind_eq_ok.mp h
    obtain ⟨hpm, hm⟩ := List.nodup_cons.mp hm
    have hperm := insertPair_perm (hd p List.mem_cons_self) h₁
    have hd₁ : ∀ p' ∈ m, ∀ q ∈ iks₁.fields, q.1 ≠ p'.1 := by
      intro p' hp' q hq
      rcases List.mem_cons.mp (hperm.mem_iff.mp hq) with rfl | hq
      · intro heq
        exact hpm (heq ▸ List.mem_map_of_mem hp')
      · exact hd p' (List.mem_cons_of_mem _ hp') q hq
    exact (ih hm hd₁ h).trans ((hperm.append_left m).trans List.perm_middle)

theorem lossless : Lossless fromCv toCv := by
  intro cv iks hcv h
  obtain ⟨m, hm, h⟩ := except_bind_eq_ok.mp h
  cases cv with
  | map m' =>
    obtain rfl : m' = m := Except.ok.inj hm
    have hnodup := (Cv.keysDistinct_map.mp hcv).1
    have hperm := foldlM_perm hnodup (by simp [fields, SortedMap.empty]) h
    rw [fields, fields, SortedMap.empty, List.map_nil, List.append_nil] at hperm
    rw [toCv, enc_map, enc_map, encEntries_congr ((hperm.map entry).symm) (nodup_entries hnodup)]
    rfl
  | _ => cases hm

end Iks

/-- The published identity: a signed, versioned object. -/
structure Identity where
  suites : List Suite
  iks : Iks
  version : UInt64
  devices : List DeviceCert
  keypkgs : KeyPackageBundleRef
  recovery : ContentId
  names : List String
  prev : Option ContentId
  ts : UInt64
  sig : List Bytes

namespace Identity

def fields (includeSig : Bool) (i : Identity) : Fields :=
  [(1, .array (i.suites.map Suite.toCv)), (2, i.iks.toCv), (3, .u64 i.version),
    (4, .array (i.devices.map (DeviceCert.toCv true))), (5, i.keypkgs.toCv),
    (6, i.recovery.toCv), (7, .array (i.names.map .text))] ++
    Fields.opt 8 ContentId.toCv i.prev ++ [(9, .u64 i.ts)] ++
    if includeSig then [(10, .array (i.sig.map .bytes))] else []

def detCbor (i : Identity) : Bytes := encode (.map (fields true i))

def signingBody (i : Identity) : Bytes := encode (.map (fields false i))

def contentId (blake3 : Bytes → Digest) (i : Identity) : ContentId := .of blake3 i.detCbor

def reader : FieldReader CborError Identity := do
  let suites ← Fields.req 1 (asArrayOf suiteFromCv)
  let iks ← Fields.req 2 Iks.fromCv
  let version ← Fields.req 3 asU64
  let devices ← Fields.req 4 (asArrayOf DeviceCert.fromCv)
  let keypkgs ← Fields.req 5 KeyPackageBundleRef.fromCv
  let recovery ← Fields.req 6 ContentId.fromCv
  let names ← Fields.req 7 (asArrayOf asText)
  let prev ← Fields.take 8 ContentId.fromCv
  let ts ← Fields.req 9 asU64
  let sig ← Fields.req 10 (asArrayOf asBytes)
  Fields.denyUnknown
  return { suites, iks, version, devices, keypkgs, recovery, names, prev, ts, sig }

def fromCv : Cv → Except CborError Identity := Fields.read reader

def fromDetCbor : Bytes → Except IdentityError Identity := Cbor.fromDetCbor fromCv

theorem readsFields : ReadsFields reader (fields true) := by
  apply yields_req (lossless_array lossless_suite)
  intro suites
  apply yields_req Iks.lossless
  intro iks
  apply yields_req lossless_u64
  intro version
  apply yields_req (lossless_array DeviceCert.lossless)
  intro devices
  apply yields_req KeyPackageBundleRef.lossless
  intro keypkgs
  apply yields_req ContentId.lossless
  intro recovery
  apply yields_req (lossless_array lossless_text)
  intro names
  apply yields_take ContentId.lossless
  intro prev
  apply yields_req lossless_u64
  intro ts
  apply yields_req (lossless_array lossless_bytes)
  intro sig
  exact Record.yields_deny_pure (by simp [fields])

theorem canonical : Canonical fromDetCbor detCbor := readsFields.lossless.canonical

theorem signsReceived : SignsReceived fromDetCbor signingBody (· ≠ 10) := by
  refine readsFields.signsReceived (fun i => ?_)
  unfold fields
  cases i.prev <;> rfl

end Identity

/-- A record that installs a new root key. -/
structure KeyRotation where
  suite : Suite
  oldIk : Bytes
  newIk : Bytes
  reason : String
  ts : UInt64
  prev : Option ContentId
  sig : Bytes
  rotateQuorum : Option Bytes

namespace KeyRotation

def fields (includeSig includeQuorum : Bool) (r : KeyRotation) : Fields :=
  [(1, r.suite.toCv), (2, .bytes r.oldIk), (3, .bytes r.newIk), (4, .text r.reason),
    (5, .u64 r.ts)] ++ Fields.opt 6 ContentId.toCv r.prev ++
    (if includeSig then [(7, .bytes r.sig)] else []) ++
    if includeQuorum then Fields.opt 8 .bytes r.rotateQuorum else []

def detCbor (r : KeyRotation) : Bytes := encode (.map (fields true true r))

/-- The body of the continuity signature, which covers the quorum signature. -/
def signingBody (r : KeyRotation) : Bytes := encode (.map (fields false true r))

def quorumBody (r : KeyRotation) : Bytes := encode (.map (fields false false r))

def contentId (blake3 : Bytes → Digest) (r : KeyRotation) : ContentId := .of blake3 r.detCbor

def reader : FieldReader IdentityError KeyRotation := do
  let suite ← Fields.req 1 suiteFromCv
  let oldIk ← Fields.req 2 asBytes
  let newIk ← Fields.req 3 asBytes
  let reason ← Fields.req 4 asText
  let ts ← Fields.req 5 asU64
  let prev ← Fields.take 6 ContentId.fromCv
  let sig ← Fields.req 7 asBytes
  let rotateQuorum ← Fields.take 8 asBytes
  Fields.denyUnknown
  return { suite, oldIk, newIk, reason, ts, prev, sig, rotateQuorum }

def fromDetCbor : Bytes → Except IdentityError KeyRotation :=
  Cbor.fromDetCbor (Fields.read reader)

theorem readsFields : ReadsFields reader (fields true true) := by
  apply yields_req lossless_suite
  intro suite
  apply yields_req lossless_bytes
  intro oldIk
  apply yields_req lossless_bytes
  intro newIk
  apply yields_req lossless_text
  intro reason
  apply yields_req lossless_u64
  intro ts
  apply yields_take ContentId.lossless
  intro prev
  apply yields_req lossless_bytes
  intro sig
  apply yields_take lossless_bytes
  intro rotateQuorum
  exact Record.yields_deny_pure (by simp [fields])

theorem canonical : Canonical fromDetCbor detCbor := readsFields.lossless.canonical

theorem signsReceived : SignsReceived fromDetCbor signingBody (· ≠ 7) := by
  refine readsFields.signsReceived (fun r => ?_)
  unfold fields
  cases r.prev <;> cases r.rotateQuorum <;> rfl

theorem quorumReceived :
    SignsReceived fromDetCbor quorumBody (fun k => k ≠ 7 ∧ k ≠ 8) := by
  refine readsFields.signsReceived (fun r => ?_)
  unfold fields
  cases r.prev <;> cases r.rotateQuorum <;> rfl

end KeyRotation
end Dmtap
