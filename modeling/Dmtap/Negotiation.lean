import Dmtap.Trackers
import Mathlib.Order.Bounds.Basic
import Mathlib.Order.Lattice

/-! The suite of a message: the sender takes the highest suite that both sides have, and the recipient
holds it against the highest one it has accepted from that sender. -/
namespace Dmtap
open Dmtap.Lib

/-- Suites are ordered by their bytes. -/
instance : LinearOrder Suite :=
  LinearOrder.lift' (fun s => s.asU8.toNat) fun _ _ h => Suite.asU8_injective (UInt8.toNat_inj.mp h)

inductive SuiteNegotiationError
  | intersectionEmpty
  deriving DecidableEq, Repr

def SuiteNegotiationError.code : SuiteNegotiationError → UInt16
  | .intersectionEmpty => 0x0102

def SuiteRatchetError.code : SuiteRatchetError → UInt16
  | .suiteDowngrade => 0x020F

/-- The highest suite of both lists. -/
def negotiateSuite (sender recipient : List Suite) : Except SuiteNegotiationError Suite :=
  match (sender.filter fun s => s ∈ recipient).max? with
  | some s => .ok s
  | none => .error .intersectionEmpty

section Negotiate
variable {sender recipient sender' recipient' : List Suite} {s : Suite}

/-- The suites that both lists have. -/
def commonSuites (sender recipient : List Suite) : Set Suite := {s | s ∈ sender ∧ s ∈ recipient}

theorem negotiateSuite_eq_ok_iff :
    negotiateSuite sender recipient = .ok s ↔ IsGreatest (commonSuites sender recipient) s := by
  have hmem (t : Suite) : t ∈ sender.filter (fun s => s ∈ recipient) ↔
      t ∈ commonSuites sender recipient := by
    simp [commonSuites]
  have hgreatest : (sender.filter fun s => s ∈ recipient).max? = some s ↔
      IsGreatest (commonSuites sender recipient) s := by
    rw [List.max?_eq_some_iff, hmem]
    simp only [hmem]
    rfl
  rw [← hgreatest, negotiateSuite]
  cases (sender.filter fun s => s ∈ recipient).max? with
  | none => simp
  | some t => simp

/-- The negotiation fails only where there is nothing in common. -/
theorem negotiateSuite_eq_error_iff {e : SuiteNegotiationError} :
    negotiateSuite sender recipient = .error e ↔ commonSuites sender recipient = ∅ := by
  have hnone : (sender.filter fun s => s ∈ recipient).max? = none ↔
      commonSuites sender recipient = ∅ := by
    rw [List.max?_eq_none_iff, List.filter_eq_nil_iff, Set.eq_empty_iff_forall_notMem]
    simp [commonSuites]
  rw [← hnone, negotiateSuite]
  cases (sender.filter fun s => s ∈ recipient).max? with
  | none => simp
  | some t => simp

/-- Both sides come to the same suite. -/
theorem negotiateSuite_comm : negotiateSuite sender recipient = negotiateSuite recipient sender := by
  have hcommon : commonSuites sender recipient = commonSuites recipient sender := by
    ext t
    exact and_comm
  cases h : negotiateSuite sender recipient with
  | ok s =>
    have hs := negotiateSuite_eq_ok_iff.mp h
    rw [hcommon] at hs
    exact (negotiateSuite_eq_ok_iff.mpr hs).symm
  | error e =>
    have he := negotiateSuite_eq_error_iff.mp h
    rw [hcommon] at he
    exact (negotiateSuite_eq_error_iff.mpr he).symm

theorem commonSuites_mono (hs : sender ⊆ sender') (hr : recipient ⊆ recipient') :
    commonSuites sender recipient ⊆ commonSuites sender' recipient' :=
  fun _ h => ⟨hs h.1, hr h.2⟩

end Negotiate

inductive ExchangeError
  | negotiation (e : SuiteNegotiationError)
  | ratchet (e : SuiteRatchetError)
  deriving DecidableEq, Repr

/-- A message of a contact, and the suites that the two sides have when it is sent. -/
structure Exchange where
  contact : Bytes
  sender : List Suite
  recipient : List Suite

namespace Exchange

def common (x : Exchange) : Set Suite := commonSuites x.sender x.recipient

/-- The sender negotiates, the recipient checks and records. -/
def deliver (r : SuiteRatchet) (x : Exchange) : Except ExchangeError Suite × SuiteRatchet :=
  match negotiateSuite x.sender x.recipient with
  | .error e => (.error (.negotiation e), r)
  | .ok s =>
    let (checked, r) := r.accept x.contact s
    ((checked.mapError .ratchet).map fun _ => s, r)

def deliverAll (r : SuiteRatchet) (run : List Exchange) : SuiteRatchet :=
  run.foldl (fun r x => (deliver r x).2) r

variable {r : SuiteRatchet} {x : Exchange} {contact : Bytes} {s : Suite}

theorem deliver_of_error {e : SuiteNegotiationError}
    (h : negotiateSuite x.sender x.recipient = .error e) :
    deliver r x = (.error (.negotiation e), r) := by
  rw [deliver, h]

theorem deliver_of_above (h : negotiateSuite x.sender x.recipient = .ok s)
    (habove : r.Above x.contact s) : deliver r x = (.error (.ratchet .suiteDowngrade), r) := by
  have hrefused : r.accept x.contact s = (.error .suiteDowngrade, r) := by
    unfold SuiteRatchet.accept
    rw [SuiteRatchet.check_of_above habove]
  rw [deliver, h]
  dsimp only
  rw [hrefused]
  rfl

theorem deliver_of_not_above (h : negotiateSuite x.sender x.recipient = .ok s)
    (habove : ¬ r.Above x.contact s) : deliver r x = (.ok s, r.observe x.contact s) := by
  have htaken : r.accept x.contact s = (.ok (), r.observe x.contact s) := by
    unfold SuiteRatchet.accept
    rw [SuiteRatchet.check_of_not_above habove]
  rw [deliver, h]
  dsimp only
  rw [htaken]
  rfl

theorem above_observe_iff {other : Bytes} {s' : Suite} (h : ¬ r.Above contact s') :
    (r.observe contact s').Above other s ↔ r.Above other s ∨ (contact = other ∧ s < s') := by
  have hlt : s < s' ↔ s.asU8 < s'.asU8 := UInt8.lt_iff_toNat_lt.symm
  have htaken : r.accept contact s' = (.ok (), r.observe contact s') := by
    unfold SuiteRatchet.accept
    rw [SuiteRatchet.check_of_not_above h]
  by_cases hcontact : other = contact
  · subst hcontact
    have hmoved := SuiteRatchet.raises.moved r (other, s') () (congrArg Prod.fst htaken) other
    have hfloor : (r.observe other s').floors.get? other = some s'.asU8 := by
      simpa [SuiteRatchet.keeper, htaken] using hmoved
    unfold SuiteRatchet.Above
    rw [hfloor]
    constructor
    · rintro ⟨floor, hget, hs⟩
      obtain rfl : s'.asU8 = floor := Option.some.inj hget
      exact Or.inr ⟨rfl, hlt.mpr hs⟩
    · rintro (⟨floor, hget, hs⟩ | ⟨-, hs⟩)
      · refine ⟨s'.asU8, rfl, UInt8.lt_of_lt_of_le hs ?_⟩
        exact UInt8.not_lt.mp fun hlower => h ⟨floor, hget, hlower⟩
      · exact ⟨s'.asU8, rfl, hlt.mp hs⟩
  · rw [SuiteRatchet.above_observe_of_ne hcontact]
    simp [Ne.symm hcontact]

/-- One message lifts the mark of its sender above every suite below the best common one, and
leaves all other marks. -/
theorem above_deliver_iff : (deliver r x).2.Above contact s ↔
    r.Above contact s ∨ (x.contact = contact ∧ ∃ t ∈ x.common, s < t) := by
  cases hneg : negotiateSuite x.sender x.recipient with
  | error e =>
    have hempty : x.common = ∅ := negotiateSuite_eq_error_iff.mp hneg
    rw [deliver_of_error hneg, hempty]
    simp
  | ok t =>
    have hgreatest : IsGreatest x.common t := negotiateSuite_eq_ok_iff.mp hneg
    have hbest : (∃ u ∈ x.common, s < u) ↔ s < t := by
      constructor
      · rintro ⟨u, hu, hs⟩
        exact hs.trans_le (hgreatest.2 hu)
      · exact fun hs => ⟨t, hgreatest.1, hs⟩
    rw [hbest]
    by_cases habove : r.Above x.contact t
    · rw [deliver_of_above hneg habove]
      refine (or_iff_left_of_imp ?_).symm
      rintro ⟨rfl, hs⟩
      obtain ⟨floor, hget, hfloor⟩ := habove
      exact ⟨floor, hget, UInt8.lt_trans (UInt8.lt_iff_toNat_lt.mpr hs) hfloor⟩
    · rw [deliver_of_not_above hneg habove]
      exact above_observe_iff habove

theorem above_deliverAll_iff (run : List Exchange) : (deliverAll r run).Above contact s ↔
    r.Above contact s ∨ ∃ y ∈ run, y.contact = contact ∧ ∃ t ∈ y.common, s < t := by
  induction run generalizing r with
  | nil => simp [deliverAll]
  | cons x run ih =>
    have hstep : (deliver r x).2.Above contact s ↔
        r.Above contact s ∨ (x.contact = contact ∧ ∃ t ∈ x.common, s < t) := above_deliver_iff
    change (deliverAll (deliver r x).2 run).Above contact s ↔ _
    rw [ih, hstep, or_assoc, List.exists_mem_cons_iff]

/-- Over any run of messages of any contacts: the suite of a message is the highest that both sides
have, and the recipient refuses it exactly when an earlier message of this contact could use a higher
one. Two sides that only ever add suites never refuse each other. -/
theorem delivery_outcome (run : List Exchange) (x : Exchange) :
    ((∃ e, (deliver (deliverAll .new run) x).1 = .error (.negotiation e)) ↔ x.common = ∅) ∧
    (∀ s, (deliver (deliverAll .new run) x).1 = .ok s ↔ IsGreatest x.common s ∧
      ¬ ∃ y ∈ run, y.contact = x.contact ∧ ∃ t ∈ y.common, s < t) ∧
    ((∀ y ∈ run, y.contact = x.contact → y.sender ⊆ x.sender ∧ y.recipient ⊆ x.recipient) →
      ∀ s, (deliver (deliverAll .new run) x).1 = .ok s ↔ IsGreatest x.common s) := by
  have hnew (contact : Bytes) (s : Suite) : ¬ SuiteRatchet.new.Above contact s := by
    rintro ⟨floor, hget, -⟩
    exact nomatch hget
  have hok (s : Suite) : (deliver (deliverAll .new run) x).1 = .ok s ↔ IsGreatest x.common s ∧
      ¬ ∃ y ∈ run, y.contact = x.contact ∧ ∃ t ∈ y.common, s < t := by
    have habove : (deliverAll .new run).Above x.contact s ↔ SuiteRatchet.new.Above x.contact s ∨
        ∃ y ∈ run, y.contact = x.contact ∧ ∃ t ∈ y.common, s < t := above_deliverAll_iff run
    rw [or_iff_right (hnew _ _)] at habove
    rw [← habove]
    cases hneg : negotiateSuite x.sender x.recipient with
    | error e =>
      have hempty : x.common = ∅ := negotiateSuite_eq_error_iff.mp hneg
      rw [deliver_of_error hneg, hempty]
      simp [IsGreatest]
    | ok t =>
      have hgreatest : IsGreatest x.common t := negotiateSuite_eq_ok_iff.mp hneg
      by_cases hrefused : (deliverAll .new run).Above x.contact t
      · rw [deliver_of_above hneg hrefused]
        simp only [reduceCtorEq, false_iff]
        rintro ⟨hs, hs'⟩
        obtain rfl : t = s := hgreatest.unique hs
        exact hs' hrefused
      · rw [deliver_of_not_above hneg hrefused, Except.ok.injEq]
        constructor
        · rintro rfl
          exact ⟨hgreatest, hrefused⟩
        · exact fun hs => hgreatest.unique hs.1
  refine ⟨?_, hok, fun hgrow s => ?_⟩
  · cases hneg : negotiateSuite x.sender x.recipient with
    | error e =>
      have hempty : x.common = ∅ := negotiateSuite_eq_error_iff.mp hneg
      rw [deliver_of_error hneg]
      exact iff_of_true ⟨e, rfl⟩ hempty
    | ok t =>
      have hgreatest : IsGreatest x.common t := negotiateSuite_eq_ok_iff.mp hneg
      refine iff_of_false ?_ (Set.nonempty_iff_ne_empty.mp hgreatest.nonempty)
      rintro ⟨e, he⟩
      by_cases hrefused : (deliverAll .new run).Above x.contact t
      · rw [deliver_of_above hneg hrefused] at he
        cases he
      · rw [deliver_of_not_above hneg hrefused] at he
        cases he
  · rw [hok]
    refine and_iff_left_of_imp fun hs => ?_
    rintro ⟨y, hy, hcontact, t, ht, hlt⟩
    obtain ⟨hsender, hrecipient⟩ := hgrow y hy hcontact
    exact hlt.not_ge (hs.2 (commonSuites_mono hsender hrecipient ht))

/-- A message of a contact before and after both sides add a suite. -/
def classicalExchange : Exchange := ⟨[1], [.classical], [.classical]⟩

def hybridExchange : Exchange := ⟨[1], [.classical, .pqHybrid], [.pqHybrid, .classical]⟩

theorem isGreatest_hybridExchange : IsGreatest hybridExchange.common .pqHybrid := by
  refine ⟨⟨by decide, by decide⟩, fun s hs => ?_⟩
  rcases List.mem_cons.mp hs.1 with rfl | hs
  · decide
  · exact (List.mem_singleton.mp hs).le

/-- The better suite is taken up, and the way back is refused. -/
theorem delivery_outcome_upgrade :
    (deliver (deliverAll .new [classicalExchange]) hybridExchange).1 = .ok .pqHybrid ∧
      ∀ s, (deliver (deliverAll .new [hybridExchange]) classicalExchange).1 ≠ .ok s := by
  constructor
  · refine ((delivery_outcome [classicalExchange] hybridExchange).2.2 ?_ .pqHybrid).mpr
      isGreatest_hybridExchange
    exact List.forall_mem_singleton.mpr fun _ => by decide
  · intro s hok
    obtain ⟨hgreatest, hbetter⟩ :=
      ((delivery_outcome [hybridExchange] classicalExchange).2.1 s).mp hok
    obtain rfl := List.mem_singleton.mp hgreatest.1.1
    exact hbetter ⟨hybridExchange, List.mem_cons_self, rfl, .pqHybrid,
      isGreatest_hybridExchange.1, by decide⟩

end Exchange
end Dmtap
