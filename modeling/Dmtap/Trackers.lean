import Dmtap.Delegation
import Dmtap.Lib.HighWater
import Dmtap.Location
import Dmtap.Mixnet

/-! Anti-rollback trackers. Each keeps the highest value accepted from every peer, and refuses
what would fall back behind it. -/
namespace Dmtap
open Dmtap.Lib Dmtap.Cbor

def capAnnounceDs : Bytes := utf8 "DMTAP-v0/cap-announce" ++ [0]

/-- A peer's signed list of its capabilities. -/
structure CapabilityAnnouncement where
  suite : Suite
  iss : Bytes
  capsVersion : UInt64
  caps : List Capability
  ts : UInt64
  sig : Bytes

namespace CapabilityAnnouncement

def fields (includeSig : Bool) (a : CapabilityAnnouncement) : Fields :=
  [(1, a.suite.toCv), (2, .bytes a.iss), (3, .u64 a.capsVersion),
    (4, .array (a.caps.map Capability.toCv)), (5, .u64 a.ts)] ++
    if includeSig then [(6, .bytes a.sig)] else []

def signingBody (a : CapabilityAnnouncement) : Bytes := encode (.map (fields false a))

def verify (E : Ed25519) (a : CapabilityAnnouncement) : Except IdentityError Unit :=
  if a.suite.isSupported = false then .error (.unsupportedSuite a.suite.asU8)
  else E.verifyDomain a.iss capAnnounceDs a.signingBody a.sig

end CapabilityAnnouncement

local instance bytesLawfulOrderLT : Std.LawfulOrderLT Bytes := inferInstance

/-- Take a checked value for a peer if it is higher than the last one, and remember it. -/
def acceptNewer {ε : Type} (seen : SortedMap Bytes UInt64) (checked : Except ε Unit) (stale : ε)
    (peer : Bytes) (version : UInt64) : Except ε Unit × SortedMap Bytes UInt64 :=
  match checked with
  | .error e => (.error e, seen)
  | .ok () =>
    match seen.get? peer with
    | some last =>
      if version ≤ last then (.error stale, seen) else (.ok (), seen.insert peer version)
    | none => (.ok (), seen.insert peer version)

/-- The highest announcement version accepted from each peer. -/
structure CapsVersionTracker where
  seen : SortedMap Bytes UInt64

namespace CapsVersionTracker

def new : CapsVersionTracker := ⟨.empty⟩

def lastVersion (t : CapsVersionTracker) (peer : Bytes) : Option UInt64 := t.seen.get? peer

def accept (E : Ed25519) (t : CapsVersionTracker) (ann : CapabilityAnnouncement) :
    Except CapabilityError Unit × CapsVersionTracker :=
  let checked := (ann.verify E).mapError fun _ => CapabilityError.badSignature
  let (r, seen) := acceptNewer t.seen checked .announceRollback ann.iss ann.capsVersion
  (r, ⟨seen⟩)

end CapsVersionTracker

inductive MixDirectoryError
  | sigInvalid
  | stale
  deriving DecidableEq, Repr

/-- The highest directory version accepted from each authority. -/
structure MixDirectoryTracker where
  seen : SortedMap Bytes UInt64

namespace MixDirectoryTracker

def new : MixDirectoryTracker := ⟨.empty⟩

def lastVersion (t : MixDirectoryTracker) (authority : Bytes) : Option UInt64 :=
  t.seen.get? authority

def accept (E : Ed25519) (t : MixDirectoryTracker) (dir : MixDirectory) :
    Except MixDirectoryError Unit × MixDirectoryTracker :=
  let checked := (dir.verify E).mapError fun _ => MixDirectoryError.sigInvalid
  let (r, seen) := acceptNewer t.seen checked .stale dir.authority dir.version
  (r, ⟨seen⟩)

end MixDirectoryTracker

/-- The highest sequence number accepted for each key. -/
structure LocationTracker where
  seen : SortedMap Bytes UInt64

namespace LocationTracker

def new : LocationTracker := ⟨.empty⟩

def highestSeq (t : LocationTracker) (ik : Bytes) : Option UInt64 := t.seen.get? ik

/-- Rebuild a tracker; of several marks for a key the highest stays. -/
def fromHighWaterMarks (marks : List (Bytes × UInt64)) : LocationTracker :=
  marks.foldl (fun t p => ⟨t.seen.insert p.1 (max ((t.seen.get? p.1).getD p.2) p.2)⟩) new

/-- The marks to be journaled. -/
def highWaterMarks (t : LocationTracker) : List (Bytes × UInt64) := t.seen.entries

/-- The rollback check alone, for a record that is validated already. -/
def accept (t : LocationTracker) (r : LocationRecord) :
    Except LocationError Unit × LocationTracker :=
  let (result, seen) := acceptNewer t.seen (.ok ()) LocationError.stale r.ik r.seq
  (result, ⟨seen⟩)

/-- Validate, then accept, and return the addresses. -/
def admitRecord (E : Ed25519) (t : LocationTracker) (r : LocationRecord) (now skewMs : UInt64)
    (supported : List UInt8) : Except LocationError (List String) × LocationTracker :=
  match r.validate E now skewMs supported with
  | .error e => (.error e, t)
  | .ok () =>
    match t.accept r with
    | (.error e, t) => (.error e, t)
    | (.ok (), t) => (.ok r.addrs, t)

end LocationTracker

/-- A call on a location tracker, of either entry point. -/
inductive LocationCall
  | accept (r : LocationRecord)
  | admitRecord (r : LocationRecord) (now skewMs : UInt64) (supported : List UInt8)

namespace LocationCall

def record : LocationCall → LocationRecord
  | accept r => r
  | admitRecord r _ _ _ => r

/-- The outcome; addresses are returned by `admitRecord` only. -/
def outcome (E : Ed25519) (t : LocationTracker) :
    LocationCall → Except LocationError (List String) × LocationTracker
  | accept r => ((t.accept r).1.map fun _ => [], (t.accept r).2)
  | admitRecord r now skewMs supported => t.admitRecord E r now skewMs supported

end LocationCall

section Keepers
variable (E : Ed25519)

def SuiteRatchet.keeper :
    Keeper SuiteRatchet (Bytes × Suite) SuiteRatchetError Unit Bytes UInt8 where
  mark r contact := r.floors.get? contact
  key i := i.1
  value i := i.2.asU8
  call r i := r.accept i.1 i.2

def CapsVersionTracker.keeper :
    Keeper CapsVersionTracker CapabilityAnnouncement CapabilityError Unit Bytes UInt64 where
  mark := lastVersion
  key := CapabilityAnnouncement.iss
  value := CapabilityAnnouncement.capsVersion
  call := accept E

def MixDirectoryTracker.keeper :
    Keeper MixDirectoryTracker MixDirectory MixDirectoryError Unit Bytes UInt64 where
  mark := lastVersion
  key := MixDirectory.authority
  value := MixDirectory.version
  call := accept E

def LocationTracker.keeper :
    Keeper LocationTracker LocationCall LocationError (List String) Bytes UInt64 where
  mark := highestSeq
  key i := i.record.ik
  value i := i.record.seq
  call t i := i.outcome E t

end Keepers

section Raises
variable {E : Ed25519}

/-- Either nothing is kept, or the value passed the check, is higher than the mark of its peer and
becomes that mark. -/
theorem acceptNewer_cases {ε : Type} (seen : SortedMap Bytes UInt64) (checked : Except ε Unit)
    (stale : ε) (peer : Bytes) (version : UInt64) :
    (∃ e, acceptNewer seen checked stale peer version = (.error e, seen)) ∨
      (checked = .ok () ∧ (∀ m ∈ seen.get? peer, m < version) ∧
        acceptNewer seen checked stale peer version = (.ok (), seen.insert peer version)) := by
  unfold acceptNewer
  cases checked with
  | error e => exact Or.inl ⟨e, rfl⟩
  | ok u =>
    cases hget : seen.get? peer with
    | none =>
      refine Or.inr ⟨rfl, fun m hm => ?_, rfl⟩
      cases hm
    | some last =>
      dsimp only
      split_ifs with hle
      · exact Or.inl ⟨stale, rfl⟩
      · refine Or.inr ⟨rfl, fun m hm => ?_, rfl⟩
        obtain rfl : last = m := Option.some.inj hm
        exact UInt64.not_le.mp hle

theorem SuiteRatchet.raises : SuiteRatchet.keeper.Raises (· ≤ ·) := by
  apply Keeper.Raises.of_cases
  rintro r ⟨contact, suite⟩
  change (∃ e, r.accept contact suite = (.error e, r)) ∨ _
  unfold SuiteRatchet.accept
  by_cases habove : r.Above contact suite
  · rw [SuiteRatchet.check_of_above habove]
    exact Or.inl ⟨_, rfl⟩
  · have hfloor : ∀ m, r.floors.get? contact = some m → m ≤ suite.asU8 := by
      intro m hm
      exact UInt8.not_lt.mp fun hlt => habove ⟨m, hm, hlt⟩
    refine Or.inr ⟨(), r.observe contact suite, ?_, hfloor, ?_⟩
    · change r.accept contact suite = _
      rw [SuiteRatchet.accept, SuiteRatchet.check_of_not_above habove]
    · intro k
      change (r.observe contact suite).floors.get? k = _
      rw [SuiteRatchet.observe_get?]
      have hmark : (if (r.floors.get? contact).getD 0 < suite.asU8 then suite.asU8
          else (r.floors.get? contact).getD 0) = suite.asU8 := by
        split_ifs with hraise
        · rfl
        · have hge : suite.asU8 ≤ (r.floors.get? contact).getD 0 := UInt8.not_lt.mp hraise
          cases hget : r.floors.get? contact with
          | none =>
            rw [hget] at hge
            exact UInt8.le_antisymm (UInt8.zero_le) hge
          | some m =>
            rw [hget] at hge
            exact UInt8.le_antisymm (hfloor m hget) hge
      rw [hmark]
      rfl

theorem CapsVersionTracker.accept_cases (t : CapsVersionTracker) (ann : CapabilityAnnouncement) :
    (∃ e, t.accept E ann = (.error e, t)) ∨
      (∀ m ∈ t.seen.get? ann.iss, m < ann.capsVersion) ∧
        t.accept E ann = (.ok (), ⟨t.seen.insert ann.iss ann.capsVersion⟩) := by
  unfold CapsVersionTracker.accept
  rcases acceptNewer_cases t.seen ((ann.verify E).mapError fun _ => CapabilityError.badSignature)
    .announceRollback ann.iss ann.capsVersion with ⟨e, h⟩ | ⟨-, hlt, h⟩
  · simp only [h]
    exact Or.inl ⟨e, rfl⟩
  · refine Or.inr ⟨hlt, ?_⟩
    simp only [h]

theorem CapsVersionTracker.raises : (CapsVersionTracker.keeper E).Raises (· < ·) := by
  apply Keeper.Raises.of_cases
  intro t ann
  rcases t.accept_cases ann with h | ⟨hlt, h⟩
  · exact Or.inl h
  · exact Or.inr ⟨(), _, h, hlt, SortedMap.get?_insert _ _ _⟩

theorem MixDirectoryTracker.accept_cases (t : MixDirectoryTracker) (dir : MixDirectory) :
    (∃ e, t.accept E dir = (.error e, t)) ∨
      (∀ m ∈ t.seen.get? dir.authority, m < dir.version) ∧
        t.accept E dir = (.ok (), ⟨t.seen.insert dir.authority dir.version⟩) := by
  unfold MixDirectoryTracker.accept
  rcases acceptNewer_cases t.seen ((dir.verify E).mapError fun _ => MixDirectoryError.sigInvalid)
    .stale dir.authority dir.version with ⟨e, h⟩ | ⟨-, hlt, h⟩
  · simp only [h]
    exact Or.inl ⟨e, rfl⟩
  · refine Or.inr ⟨hlt, ?_⟩
    simp only [h]

theorem MixDirectoryTracker.raises : (MixDirectoryTracker.keeper E).Raises (· < ·) := by
  apply Keeper.Raises.of_cases
  intro t dir
  rcases t.accept_cases dir with h | ⟨hlt, h⟩
  · exact Or.inl h
  · exact Or.inr ⟨(), _, h, hlt, SortedMap.get?_insert _ _ _⟩

theorem LocationTracker.accept_cases (t : LocationTracker) (r : LocationRecord) :
    (∃ e, t.accept r = (.error e, t)) ∨
      (∀ m ∈ t.seen.get? r.ik, m < r.seq) ∧
        t.accept r = (.ok (), ⟨t.seen.insert r.ik r.seq⟩) := by
  unfold LocationTracker.accept
  rcases acceptNewer_cases t.seen (.ok ()) LocationError.stale r.ik r.seq with ⟨e, h⟩ | ⟨-, hlt, h⟩
  · simp only [h]
    exact Or.inl ⟨e, rfl⟩
  · refine Or.inr ⟨hlt, ?_⟩
    simp only [h]

/-- Both entry points end in `accept`, or stop before it with nothing changed. -/
theorem LocationCall.outcome_cases (t : LocationTracker) (i : LocationCall) :
    (∃ e, i.outcome E t = (.error e, t)) ∨
      (∀ m ∈ t.seen.get? i.record.ik, m < i.record.seq) ∧
        ∃ addrs, i.outcome E t = (.ok addrs, ⟨t.seen.insert i.record.ik i.record.seq⟩) := by
  cases i with
  | accept r =>
    unfold LocationCall.outcome
    dsimp only
    rcases t.accept_cases r with ⟨e, h⟩ | ⟨hlt, h⟩
    · rw [h]
      exact Or.inl ⟨e, rfl⟩
    · rw [h]
      exact Or.inr ⟨hlt, [], rfl⟩
  | admitRecord r now skewMs supported =>
    unfold LocationCall.outcome LocationTracker.admitRecord
    dsimp only
    cases r.validate E now skewMs supported with
    | error e => exact Or.inl ⟨e, rfl⟩
    | ok u =>
      dsimp only
      rcases t.accept_cases r with ⟨e, h⟩ | ⟨hlt, h⟩
      · rw [h]
        exact Or.inl ⟨e, rfl⟩
      · rw [h]
        exact Or.inr ⟨hlt, r.addrs, rfl⟩

theorem LocationTracker.raises : (LocationTracker.keeper E).Raises (· < ·) := by
  apply Keeper.Raises.of_cases
  intro t i
  rcases i.outcome_cases t with h | ⟨hlt, addrs, h⟩
  · exact Or.inl h
  · exact Or.inr ⟨addrs, _, h, hlt, SortedMap.get?_insert _ _ _⟩

end Raises

section Rebuild

/-- A journal of a tracker: every mark of it, in any order, and among them marks that an earlier
state of the tracker had. -/
structure LocationTracker.Journal (t : LocationTracker) (marks : List (Bytes × UInt64)) : Prop where
  complete : ∀ p ∈ t.highWaterMarks, p ∈ marks
  stale : ∀ p ∈ marks, ∃ m, t.highestSeq p.1 = some m ∧ p.2 ≤ m

/-- One more mark. -/
theorem LocationTracker.highestSeq_fromHighWaterMarks_append (marks : List (Bytes × UInt64))
    (p : Bytes × UInt64) (ik : Bytes) :
    (fromHighWaterMarks (marks ++ [p])).highestSeq ik =
      if ik = p.1 then some (max (((fromHighWaterMarks marks).highestSeq p.1).getD p.2) p.2)
      else (fromHighWaterMarks marks).highestSeq ik := by
  unfold fromHighWaterMarks
  rw [List.foldl_append]
  exact SortedMap.get?_insert _ _ _ _

private theorem uint64_max_cases (a b : UInt64) :
    (max a b = a ∧ b ≤ a) ∨ (max a b = b ∧ a ≤ b) := by
  change ((if a ≤ b then b else a) = a ∧ b ≤ a) ∨ ((if a ≤ b then b else a) = b ∧ a ≤ b)
  by_cases h : a ≤ b
  · rw [if_pos h]
    exact Or.inr ⟨rfl, h⟩
  · rw [if_neg h]
    exact Or.inl ⟨rfl, UInt64.le_of_lt (UInt64.not_le.mp h)⟩

/-- A rebuilt mark is one of the marks of its key, -/
theorem LocationTracker.mem_of_highestSeq {marks : List (Bytes × UInt64)} {ik : Bytes}
    {m : UInt64} (h : (fromHighWaterMarks marks).highestSeq ik = some m) : (ik, m) ∈ marks := by
  induction marks using List.reverseRecOn generalizing ik m with
  | nil => cases h
  | append_singleton marks p ih =>
    rw [highestSeq_fromHighWaterMarks_append] at h
    split_ifs at h with hik
    · have hm := Option.some.inj h
      rcases uint64_max_cases (((fromHighWaterMarks marks).highestSeq p.1).getD p.2) p.2 with
        ⟨hmax, -⟩ | ⟨hmax, -⟩
      · cases hold : (fromHighWaterMarks marks).highestSeq p.1 with
        | none =>
          rw [hold] at hm hmax
          rw [← hm, hmax, hik]
          exact List.mem_append_right _ (List.mem_singleton_self p)
        | some old =>
          have hmem := ih hold
          rw [← hm, hmax, hold, hik]
          exact List.mem_append_left _ hmem
      · rw [← hm, hmax, hik]
        exact List.mem_append_right _ (List.mem_singleton_self p)
    · exact List.mem_append_left _ (ih h)

/-- and none of them is higher. -/
theorem LocationTracker.le_highestSeq {marks : List (Bytes × UInt64)} {p : Bytes × UInt64}
    (h : p ∈ marks) : ∃ m, (fromHighWaterMarks marks).highestSeq p.1 = some m ∧ p.2 ≤ m := by
  induction marks using List.reverseRecOn with
  | nil => cases h
  | append_singleton marks q ih =>
    rw [highestSeq_fromHighWaterMarks_append]
    have hmax := uint64_max_cases (((fromHighWaterMarks marks).highestSeq q.1).getD q.2) q.2
    rcases List.mem_append.mp h with h | h
    · obtain ⟨m, hm, hle⟩ := ih h
      by_cases hik : p.1 = q.1
      · rw [if_pos hik]
        rw [← hik, hm] at hmax ⊢
        refine ⟨_, rfl, ?_⟩
        rcases hmax with ⟨heq, -⟩ | ⟨heq, hlt⟩
        · rw [heq]
          exact hle
        · rw [heq]
          exact UInt64.le_trans hle hlt
      · rw [if_neg hik]
        exact ⟨m, hm, hle⟩
    · obtain rfl := List.mem_singleton.mp h
      rw [if_pos rfl]
      refine ⟨_, rfl, ?_⟩
      rcases hmax with ⟨heq, hle⟩ | ⟨heq, -⟩
      · rw [heq]
        exact hle
      · rw [heq]
        exact UInt64.le_refl _

theorem LocationTracker.Journal.rebuild {t : LocationTracker} {marks : List (Bytes × UInt64)}
    (h : t.Journal marks) : fromHighWaterMarks marks = t := by
  have hget : ∀ ik, (fromHighWaterMarks marks).highestSeq ik = t.highestSeq ik := by
    intro ik
    cases hnew : (fromHighWaterMarks marks).highestSeq ik with
    | some m =>
      obtain ⟨m', hm', hle⟩ := h.stale _ (mem_of_highestSeq hnew)
      change t.highestSeq ik = some m' at hm'
      obtain ⟨m'', hm'', hle'⟩ := le_highestSeq (h.complete _ (SortedMap.get?_eq_some_iff.mp hm'))
      obtain rfl : m = m'' := Option.some.inj (hnew.symm.trans hm'')
      have heq : m = m' := UInt64.le_antisymm hle hle'
      rw [hm', heq]
    | none =>
      cases hold : t.highestSeq ik with
      | none => rfl
      | some m =>
        obtain ⟨m', hm', -⟩ := le_highestSeq (h.complete _ (SortedMap.get?_eq_some_iff.mp hold))
        rw [hnew] at hm'
        cases hm'
  have hseen : (fromHighWaterMarks marks).seen = t.seen := SortedMap.ext_get? hget
  cases t
  exact congrArg LocationTracker.mk hseen

end Rebuild

/-- All four trackers keep the greatest value that they accepted from each peer, whatever they are
called with, and a location tracker is restored by any journal of its marks. -/
theorem trackers_keep_greatest (E : Ed25519) :
    SuiteRatchet.keeper.KeepsGreatest (· ≤ ·) .new ∧
      (CapsVersionTracker.keeper E).KeepsGreatest (· < ·) .new ∧
      (MixDirectoryTracker.keeper E).KeepsGreatest (· < ·) .new ∧
      (LocationTracker.keeper E).KeepsGreatest (· < ·) .new ∧
      ∀ t marks, LocationTracker.Journal t marks → .fromHighWaterMarks marks = t := by
  have hle8 : IsTrans UInt8 (· ≤ ·) := ⟨fun _ _ _ => UInt8.le_trans⟩
  have hlt64 : IsTrans UInt64 (· < ·) := ⟨fun _ _ _ => UInt64.lt_trans⟩
  refine ⟨?_, ?_, ?_, ?_, ?_⟩
  · exact SuiteRatchet.raises.keepsGreatest (fun _ _ h => h) (fun _ => rfl)
  · exact CapsVersionTracker.raises.keepsGreatest (fun _ _ => UInt64.le_of_lt) (fun _ => rfl)
  · exact MixDirectoryTracker.raises.keepsGreatest (fun _ _ => UInt64.le_of_lt) (fun _ => rfl)
  · exact LocationTracker.raises.keepsGreatest (fun _ _ => UInt64.le_of_lt) (fun _ => rfl)
  · intro t marks h
    exact h.rebuild

end Dmtap
