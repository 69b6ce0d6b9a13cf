import Dmtap.Lib.Bytes
import Dmtap.Lib.SortedMap

/-! Algorithm suites, and the mark of the highest suite seen from each contact. -/
namespace Dmtap
open Dmtap.Lib

inductive Suite
  | classical
  | pqHybrid
  | reservedAeadGcm
  | reservedAnchorSlhDsa
  | reservedHashSha3
  deriving DecidableEq, Repr

namespace Suite

/-- Every registered code point is a known suite; any other byte is refused. -/
def fromU8 (b : UInt8) : Option Suite :=
  if b = 0x01 then some classical
  else if b = 0x02 then some pqHybrid
  else if b = 0x03 then some reservedAeadGcm
  else if b = 0x04 then some reservedAnchorSlhDsa
  else if b = 0x05 then some reservedHashSha3
  else none

def asU8 : Suite → UInt8
  | classical => 0x01
  | pqHybrid => 0x02
  | reservedAeadGcm => 0x03
  | reservedAnchorSlhDsa => 0x04
  | reservedHashSha3 => 0x05

/-- The suites that the message layer can sign, seal and verify. -/
def moteSupported (s : Suite) : Bool := s = classical || s = pqHybrid

/-- The suites for which the identity and public-object layers are implemented. -/
def isSupported (s : Suite) : Bool := s = classical

theorem asU8_of_fromU8 {b : UInt8} {s : Suite} (h : fromU8 b = some s) : s.asU8 = b := by
  unfold fromU8 at h
  split_ifs at h with h1 h2 h3 h4 h5 <;> cases h <;> simp_all [asU8]

theorem fromU8_asU8 (s : Suite) : fromU8 s.asU8 = some s := by
  cases s <;> rfl

theorem asU8_injective {s s' : Suite} (h : s.asU8 = s'.asU8) : s = s' := by
  have hs := fromU8_asU8 s
  rw [h, fromU8_asU8 s'] at hs
  exact (Option.some.inj hs).symm

end Suite

inductive SuiteRatchetError
  | suiteDowngrade
  deriving DecidableEq, Repr

/-- The highest suite accepted from each contact, by the contact's identity key. -/
structure SuiteRatchet where
  floors : SortedMap Bytes UInt8

namespace SuiteRatchet

def new : SuiteRatchet := ⟨SortedMap.empty⟩

def check (r : SuiteRatchet) (contact : Bytes) (suite : Suite) : Except SuiteRatchetError Unit :=
  match r.floors.get? contact with
  | some floor => if suite.asU8 < floor then .error .suiteDowngrade else .ok ()
  | none => .ok ()

/-- Raise the mark; it never falls. -/
def observe (r : SuiteRatchet) (contact : Bytes) (suite : Suite) : SuiteRatchet :=
  let e := (r.floors.get? contact).getD 0
  ⟨r.floors.insert contact (if e < suite.asU8 then suite.asU8 else e)⟩

/-- Check, and on success observe. -/
def accept (r : SuiteRatchet) (contact : Bytes) (suite : Suite) :
    Except SuiteRatchetError Unit × SuiteRatchet :=
  match r.check contact suite with
  | .error e => (.error e, r)
  | .ok () => (.ok (), r.observe contact suite)

/-- The mark of the contact lies above the suite. -/
def Above (r : SuiteRatchet) (contact : Bytes) (suite : Suite) : Prop :=
  ∃ floor, r.floors.get? contact = some floor ∧ suite.asU8 < floor

variable {r : SuiteRatchet} {contact other : Bytes} {suite suite' : Suite}

theorem check_of_above (h : r.Above contact suite) :
    r.check contact suite = .error .suiteDowngrade := by
  obtain ⟨floor, hget, hlt⟩ := h
  rw [check, hget]
  exact if_pos hlt

theorem check_of_not_above (h : ¬ r.Above contact suite) : r.check contact suite = .ok () := by
  unfold check
  cases hget : r.floors.get? contact with
  | none => rfl
  | some floor => exact if_neg fun hlt => h ⟨floor, hget, hlt⟩

theorem observe_get? (other : Bytes) :
    (r.observe contact suite).floors.get? other =
      if other = contact then
        some (if (r.floors.get? contact).getD 0 < suite.asU8 then suite.asU8
          else (r.floors.get? contact).getD 0)
      else r.floors.get? other :=
  SortedMap.get?_insert _ _ _ _

/-- Accepting a suite moves the mark of no other contact. -/
theorem above_observe_of_ne (h : other ≠ contact) :
    (r.observe contact suite).Above other suite' ↔ r.Above other suite' := by
  unfold Above
  rw [observe_get?, if_neg h]

/-- Accepting a suite leaves no mark above it. -/
theorem not_above_observe (h : ¬ r.Above contact suite) :
    ¬ (r.observe contact suite).Above contact suite := by
  rintro ⟨floor, hget, hlt⟩
  rw [observe_get?, if_pos rfl] at hget
  have hfloor := Option.some.inj hget
  split_ifs at hfloor with hraise
  · rw [← hfloor] at hlt
    exact UInt8.lt_irrefl _ hlt
  · rw [← hfloor] at hlt
    cases hold : r.floors.get? contact with
    | none =>
      rw [hold] at hlt
      exact UInt8.not_lt_zero hlt
    | some old =>
      rw [hold] at hlt
      exact h ⟨old, hold, hlt⟩

end SuiteRatchet
end Dmtap
