import Dmtap.Lib.Overflow
import Dmtap.Pub.Feed

/-! The sequence arithmetic of feeds in a build with overflow checks: which lists of entries, and
which calls of a follower, step past the last position of all. -/
namespace Dmtap.Pub
open Dmtap.Lib Dmtap.Cbor

/-- The last position of all. -/
def maxSeq : UInt64 := 18446744073709551615

section Checked
variable (blake3 : Bytes → Digest) (verifyDomain : Bytes → Bytes → Bytes → Bytes → Bool)

/-- The loop of `verifyFeedChain` with a checked addition; no outcome where it overflows. -/
def verifyFeedChainFromChecked : Option FeedEntry → List FeedEntry → Option (Except PubError Unit)
  | _, [] => some (.ok ())
  | before, e :: entries =>
    if FeedEntry.prevMisplaced e.seq e.prev then some (.error .feedChainBroken)
    else
      match before with
      | none => verifyFeedChainFromChecked (some e) entries
      | some p => do
        let next ← checkedAdd p.seq 1
        if e.seq ≠ next then some (.error .feedChainBroken)
        else if e.prev ≠ some (p.entryId blake3) then some (.error .feedChainBroken)
        else verifyFeedChainFromChecked (some e) entries

def verifyFeedChainChecked (entries : List FeedEntry) : Option (Except PubError Unit) :=
  verifyFeedChainFromChecked blake3 none entries

def verifyFeedChainToHeadChecked (entries : List FeedEntry) (head : FeedHead) :
    Option (Except PubError Unit) := do
  let chain ← verifyFeedChainChecked blake3 entries
  return do
    chain
    match entries.getLast? with
    | none => .error .feedChainBroken
    | some last =>
      if last.seq ≠ head.seq ∨ last.entryId blake3 ≠ head.tip then .error .feedChainBroken
      else .ok ()

namespace FeedFollower

def checkJoinChecked (f : FeedFollower) (first : FeedEntry) : Option (Except PubError Unit) :=
  match f.lastSeq with
  | none => some (.ok ())
  | some last => do
    let next ← checkedAdd last 1
    if next < first.seq then some (.error .feedChainBroken)
    else if first.seq = next then
      match first.prev, f.lastTip with
      | some p, some t => some (if p = t then .ok () else .error .feedChainBroken)
      | _, _ => some (.error .feedChainBroken)
    else some (.ok ())

/-- Methods that an overflow ends without an outcome. -/
abbrev CheckedMethod := ExceptT PubError (StateT FeedFollower Option)

def attempt {α : Type} (x : Option (Except PubError α)) : CheckedMethod α :=
  ExceptT.mk (StateT.lift x)

/-- `accept` with checked additions. -/
def acceptChecked (head : FeedHead) (entries : List FeedEntry) : CheckedMethod RollbackDecision := do
  let f ← get
  if head.publisher ≠ f.publisher then throw .feedSigInvalid
  else
    attempt (some (head.verify verifyDomain))
    let decision ← attempt (some (f.decision head))
    match entries with
    | [] =>
      if decision = .acceptNew then throw .feedChainBroken
      else return decision
    | first :: _ =>
      attempt (verifyFeedChainToHeadChecked blake3 entries head)
      attempt (f.checkJoinChecked first)
      attempt (some (f.checkCommitted blake3 entries))
      modify (commit blake3 head entries)
      return decision

/-- The follower after a run of calls, none of which overflows. -/
def followChecked (f : FeedFollower) (fetches : List Fetch) : Option FeedFollower :=
  fetches.foldlM (fun f x => ((acceptChecked blake3 verifyDomain x.head x.entries).run.run f).map
    Prod.snd) f

end FeedFollower
end Checked

section Lists
variable (blake3 : Bytes → Digest)

/-- Entries that chain, with positions as numbers. -/
structure ChainsUp (entries : List FeedEntry) : Prop where
  placed : ∀ e ∈ entries, FeedEntry.prevMisplaced e.seq e.prev = false
  linked : entries.IsChain (fun p e => e.pos = p.pos + 1 ∧ p.Links blake3 e)

/-- The entries chain up to the last position of all, and there is a further entry. -/
def RunsOver (entries : List FeedEntry) : Prop :=
  ∃ before p e, before ++ [p, e] <+: entries ∧ p.seq = maxSeq ∧ ChainsUp blake3 (before ++ [p]) ∧
    FeedEntry.prevMisplaced e.seq e.prev = false

variable {blake3} {p e : FeedEntry} {entries : List FeedEntry} {head : FeedHead}

theorem checkedAdd_one_eq_none_iff {n : UInt64} : checkedAdd n 1 = none ↔ n = maxSeq := by
  have hlt := n.toNat_lt
  have hmax : maxSeq.toNat = 2 ^ 64 - 1 := rfl
  rw [checkedAdd_eq_none_iff, ← UInt64.toNat_inj, hmax, UInt64.toNat_one]
  constructor
  · intro h
    omega
  · intro h
    omega

theorem checkedAdd_one {n : UInt64} (h : n ≠ maxSeq) : checkedAdd n 1 = some (n + 1) := by
  cases hadd : checkedAdd n 1 with
  | none => exact absurd (checkedAdd_one_eq_none_iff.mp hadd) h
  | some m => rw [eq_add_of_checkedAdd hadd]

theorem toNat_add_one_of_ne {n : UInt64} (h : n ≠ maxSeq) : (n + 1).toNat = n.toNat + 1 := by
  have hlt := n.toNat_lt
  have hne : n.toNat ≠ maxSeq.toNat := fun heq => h (UInt64.toNat_inj.mp heq)
  have hmax : maxSeq.toNat = 2 ^ 64 - 1 := rfl
  exact toNat_add_one (by omega)

/-- Past the last position of all the positions start over, where a predecessor is not allowed. -/
theorem precedes_iff (he : FeedEntry.prevMisplaced e.seq e.prev = false) :
    p.Precedes blake3 e ↔ e.pos = p.pos + 1 ∧ p.Links blake3 e := by
  constructor
  · rintro ⟨hseq, hlink⟩
    have hprev : e.prev = some (p.entryId blake3) := hlink
    have hne : p.seq ≠ maxSeq := by
      intro hmax
      rw [hseq, hmax, hprev] at he
      exact Bool.noConfusion he
    refine ⟨?_, hlink⟩
    unfold FeedEntry.pos
    rw [hseq]
    exact toNat_add_one_of_ne hne
  · rintro ⟨hpos, hlink⟩
    refine ⟨?_, hlink⟩
    have hlt := e.seq.toNat_lt
    have hpos' : e.seq.toNat = p.seq.toNat + 1 := hpos
    apply UInt64.toNat_inj.mp
    rw [toNat_add_one (by omega), hpos']

/-- A list that passes the chain rules never steps past the last position. -/
theorem verifyFeedChain_eq_ok_iff_chainsUp :
    verifyFeedChain blake3 entries = .ok () ↔ ChainsUp blake3 entries := by
  rw [verifyFeedChain_eq_ok_iff]
  constructor
  · rintro ⟨hplaced, hchain⟩
    exact ⟨hplaced, hchain.imp_of_mem_imp fun p e _ he h => (precedes_iff (hplaced e he)).mp h⟩
  · rintro ⟨hplaced, hchain⟩
    exact ⟨hplaced, hchain.imp_of_mem_imp fun p e _ he h => (precedes_iff (hplaced e he)).mpr h⟩

theorem not_runsOver_of_length (h : entries.length ≤ 1) : ¬ RunsOver blake3 entries := by
  rintro ⟨before, p, e, hpre, -⟩
  have hle := hpre.length_le
  rw [List.length_append] at hle
  change before.length + 2 ≤ _ at hle
  omega

theorem exists_cons_of_prefix {before : List FeedEntry} {q e' : FeedEntry}
    (h : before ++ [q, e'] <+: e :: entries) : ∃ more, before ++ [q] = e :: more := by
  cases before with
  | nil =>
    obtain ⟨rfl, -⟩ := List.cons_prefix_cons.mp h
    exact ⟨[], rfl⟩
  | cons b before =>
    rw [List.cons_append] at h
    obtain ⟨rfl, -⟩ := List.cons_prefix_cons.mp h
    exact ⟨before ++ [q], rfl⟩

/-- One step of the loop. -/
theorem runsOver_cons_cons_iff (hp : FeedEntry.prevMisplaced p.seq p.prev = false) :
    RunsOver blake3 (p :: e :: entries) ↔ FeedEntry.prevMisplaced e.seq e.prev = false ∧
      (p.seq = maxSeq ∨ (e.pos = p.pos + 1 ∧ p.Links blake3 e) ∧
        RunsOver blake3 (e :: entries)) := by
  constructor
  · rintro ⟨before, q, e', hpre, hmax, ⟨hplaced, hlinked⟩, he'⟩
    cases before with
    | nil =>
      obtain ⟨rfl, hnext⟩ := List.cons_prefix_cons.mp hpre
      obtain ⟨rfl, -⟩ := List.cons_prefix_cons.mp hnext
      exact ⟨he', Or.inl hmax⟩
    | cons b before =>
      rw [List.cons_append] at hpre hplaced hlinked
      obtain ⟨rfl, hnext⟩ := List.cons_prefix_cons.mp hpre
      obtain ⟨more, hmore⟩ := exists_cons_of_prefix hnext
      obtain ⟨-, hplaced⟩ := List.forall_mem_cons.mp hplaced
      have hstep := hlinked
      rw [hmore] at hstep
      refine ⟨hplaced e (by rw [hmore]; exact List.mem_cons_self),
        Or.inr ⟨(List.isChain_cons_cons.mp hstep).1, ?_⟩⟩
      exact ⟨before, q, e', hnext, hmax, ⟨hplaced, hlinked.tail⟩, he'⟩
  · rintro ⟨he, hmax | ⟨hstep, before, q, e', hpre, hmax, ⟨hplaced, hlinked⟩, he'⟩⟩
    · refine ⟨[], p, e, ⟨entries, rfl⟩, hmax, ⟨fun x hx => ?_, List.isChain_singleton _⟩, he⟩
      rw [List.mem_singleton.mp hx]
      exact hp
    · obtain ⟨more, hmore⟩ := exists_cons_of_prefix hpre
      refine ⟨p :: before, q, e', List.cons_prefix_cons.mpr ⟨rfl, hpre⟩, hmax, ⟨?_, ?_⟩, he'⟩
      · exact List.forall_mem_cons.mpr ⟨hp, hplaced⟩
      · rw [List.cons_append, hmore]
        rw [hmore] at hlinked
        exact List.isChain_cons_cons.mpr ⟨hstep, hlinked⟩

/-- The loop ends without an outcome exactly on these lists, and otherwise as it does in a build
that wraps around. By induction on the entries after `p`. -/
theorem verifyFeedChainFromChecked_spec (hp : FeedEntry.prevMisplaced p.seq p.prev = false) :
    (RunsOver blake3 (p :: entries) → verifyFeedChainFromChecked blake3 (some p) entries = none) ∧
      (¬ RunsOver blake3 (p :: entries) → verifyFeedChainFromChecked blake3 (some p) entries =
        some (verifyFeedChainFrom blake3 (some p) entries)) := by
  induction entries generalizing p with
  | nil =>
    have hnot : ¬ RunsOver blake3 [p] := not_runsOver_of_length (le_refl _)
    exact ⟨fun h => absurd h hnot, fun _ => rfl⟩
  | cons e entries ih =>
    rw [runsOver_cons_cons_iff hp]
    unfold verifyFeedChainFromChecked verifyFeedChainFrom
    dsimp only
    cases hmis : FeedEntry.prevMisplaced e.seq e.prev with
    | true =>
      rw [if_pos rfl, if_pos rfl]
      exact ⟨fun h => Bool.noConfusion h.1, fun _ => rfl⟩
    | false =>
      rw [if_neg Bool.false_ne_true, if_neg Bool.false_ne_true]
      obtain ⟨hover, hagree⟩ := ih hmis
      by_cases hmax : p.seq = maxSeq
      · rw [checkedAdd_one_eq_none_iff.mpr hmax]
        exact ⟨fun _ => rfl, fun h => absurd ⟨rfl, Or.inl hmax⟩ h⟩
      · rw [checkedAdd_one hmax, Option.bind_eq_bind, Option.bind_some, ← precedes_iff hmis]
        unfold FeedEntry.Precedes FeedEntry.Links
        by_cases hseq : e.seq = p.seq + 1
        · rw [if_neg (not_not.mpr hseq), if_neg (not_not.mpr hseq)]
          by_cases hprev : e.prev = some (p.entryId blake3)
          · rw [if_neg (not_not.mpr hprev), if_neg (not_not.mpr hprev)]
            constructor
            · rintro ⟨-, hat | ⟨-, hrest⟩⟩
              · exact absurd hat hmax
              · exact hover hrest
            · intro h
              exact hagree fun hrest => h ⟨rfl, Or.inr ⟨⟨hseq, hprev⟩, hrest⟩⟩
          · rw [if_pos hprev, if_pos hprev]
            refine ⟨?_, fun _ => rfl⟩
            rintro ⟨-, hat | ⟨⟨-, hlink⟩, -⟩⟩
            · exact absurd hat hmax
            · exact absurd hlink hprev
        · rw [if_pos hseq, if_pos hseq]
          refine ⟨?_, fun _ => rfl⟩
          rintro ⟨-, hat | ⟨⟨hstep, -⟩, -⟩⟩
          · exact absurd hat hmax
          · exact absurd hstep hseq

theorem verifyFeedChainChecked_spec :
    (RunsOver blake3 entries → verifyFeedChainChecked blake3 entries = none) ∧
      (¬ RunsOver blake3 entries →
        verifyFeedChainChecked blake3 entries = some (verifyFeedChain blake3 entries)) := by
  unfold verifyFeedChainChecked verifyFeedChain
  cases entries with
  | nil =>
    have hnot : ¬ RunsOver blake3 [] := not_runsOver_of_length (Nat.zero_le 1)
    exact ⟨fun h => absurd h hnot, fun _ => rfl⟩
  | cons e entries =>
    unfold verifyFeedChainFromChecked verifyFeedChainFrom
    dsimp only
    cases hmis : FeedEntry.prevMisplaced e.seq e.prev with
    | true =>
      rw [if_pos rfl, if_pos rfl]
      refine ⟨?_, fun _ => rfl⟩
      rintro ⟨before, q, e', hpre, -, ⟨hplaced, -⟩, -⟩
      obtain ⟨more, hmore⟩ := exists_cons_of_prefix hpre
      have he := hplaced e (by rw [hmore]; exact List.mem_cons_self)
      rw [hmis] at he
      exact Bool.noConfusion he
    | false =>
      rw [if_neg Bool.false_ne_true, if_neg Bool.false_ne_true]
      exact verifyFeedChainFromChecked_spec hmis

/-- The binding to the head adds nothing. -/
theorem verifyFeedChainToHeadChecked_spec :
    (RunsOver blake3 entries → verifyFeedChainToHeadChecked blake3 entries head = none) ∧
      (¬ RunsOver blake3 entries → verifyFeedChainToHeadChecked blake3 entries head =
        some (verifyFeedChainToHead blake3 entries head)) := by
  obtain ⟨hover, hagree⟩ := @verifyFeedChainChecked_spec blake3 entries
  unfold verifyFeedChainToHeadChecked
  constructor
  · intro h
    rw [hover h]
    rfl
  · intro h
    rw [hagree h]
    rfl

end Lists

namespace FeedFollower
section Calls
variable (blake3 : Bytes → Digest) (verifyDomain : Bytes → Bytes → Bytes → Bytes → Bool)

/-- A call of `accept` that steps past the last position: with a verified head that is not behind
the retained one, either the range itself runs over, or the retained position is already the last
one and the range is bound to the head. -/
structure Overflows (f : FeedFollower) (x : Fetch) : Prop where
  published : x.head.publisher = f.publisher
  verified : x.head.verify verifyDomain = .ok ()
  ahead : ∃ d, f.decision x.head = .ok d
  exceeds : RunsOver blake3 x.entries ∨ f.lastSeq = some maxSeq ∧ ChainsUp blake3 x.entries ∧
    ∃ last, x.entries.getLast? = some last ∧ last.seq = x.head.seq ∧
      last.entryId blake3 = x.head.tip

variable {blake3 verifyDomain} {f : FeedFollower} {x : Fetch} {first : FeedEntry}

theorem checkJoinChecked_of_max (h : f.lastSeq = some maxSeq) : f.checkJoinChecked first = none := by
  unfold checkJoinChecked
  rw [h]
  rfl

theorem checkJoinChecked_of_ne (h : f.lastSeq ≠ some maxSeq) :
    f.checkJoinChecked first = some (f.checkJoin first) := by
  unfold checkJoinChecked checkJoin
  cases hlast : f.lastSeq with
  | none => rfl
  | some last =>
    dsimp only
    have hne : last ≠ maxSeq := fun heq => h (by rw [hlast, heq])
    rw [checkedAdd_one hne, Option.bind_eq_bind, Option.bind_some]
    by_cases hgap : last + 1 < first.seq
    · rw [if_pos hgap, if_pos hgap]
    · rw [if_neg hgap, if_neg hgap]
      by_cases hnext : first.seq = last + 1
      · rw [if_pos hnext, if_pos hnext]
        cases first.prev with
        | none => rfl
        | some p =>
          cases f.lastTip with
          | none => rfl
          | some t => rfl
      · rw [if_neg hnext, if_neg hnext]

theorem acceptChecked_of_overflows (h : Overflows blake3 verifyDomain f x) :
    (acceptChecked blake3 verifyDomain x.head x.entries).run.run f = none := by
  obtain ⟨d, hdec⟩ := h.ahead
  change (if x.head.publisher ≠ f.publisher then
    (throw .feedSigInvalid : CheckedMethod RollbackDecision) else _).run.run f = none
  rw [if_neg (not_not.mpr h.published), h.verified, hdec]
  obtain ⟨head, entries⟩ := x
  rcases h.exceeds with hover | ⟨hmax, hchain, last, hlast, hseq, htip⟩
  · cases entries with
    | nil => exact absurd hover (not_runsOver_of_length (Nat.zero_le 1))
    | cons first rest =>
      dsimp only at hover ⊢
      rw [verifyFeedChainToHeadChecked_spec.1 hover]
      rfl
  · cases entries with
    | nil => cases hlast
    | cons first rest =>
      dsimp only at hchain hlast ⊢
      have hok := verifyFeedChainToHead_eq_ok_iff.mpr
        ⟨verifyFeedChain_eq_ok_iff_chainsUp.mpr hchain, last, hlast, hseq, htip⟩
      rw [checkJoinChecked_of_max hmax]
      by_cases hover : RunsOver blake3 (first :: rest)
      · rw [verifyFeedChainToHeadChecked_spec.1 hover]
        rfl
      · rw [verifyFeedChainToHeadChecked_spec.2 hover, hok]
        rfl

/-- Every other call ends as in a build that wraps around. -/
theorem acceptChecked_of_not_overflows (h : ¬ Overflows blake3 verifyDomain f x) :
    (acceptChecked blake3 verifyDomain x.head x.entries).run.run f =
      some (f.outcome blake3 verifyDomain x, f.step blake3 verifyDomain x) := by
  obtain ⟨head, entries⟩ := x
  change (if head.publisher ≠ f.publisher then
      (throw .feedSigInvalid : CheckedMethod RollbackDecision) else _).run.run f =
    some ((if head.publisher ≠ f.publisher then
      (throw .feedSigInvalid : Method RollbackDecision) else _).run.run f)
  by_cases hpub : head.publisher = f.publisher
  · rw [if_neg (not_not.mpr hpub), if_neg (not_not.mpr hpub)]
    cases hverify : head.verify verifyDomain with
    | error e => rfl
    | ok u =>
      cases hdec : f.decision head with
      | error e => rfl
      | ok d =>
        cases entries with
        | nil =>
          cases d with
          | acceptNew => rfl
          | acceptIdempotent => rfl
        | cons first rest =>
          have hnot : ¬ (RunsOver blake3 (first :: rest) ∨ f.lastSeq = some maxSeq ∧
              ChainsUp blake3 (first :: rest) ∧ ∃ last, (first :: rest).getLast? = some last ∧
                last.seq = head.seq ∧ last.entryId blake3 = head.tip) :=
            fun hexceeds => h ⟨hpub, hverify, ⟨d, hdec⟩, hexceeds⟩
          obtain ⟨hover, hretained⟩ := not_or.mp hnot
          dsimp only
          rw [verifyFeedChainToHeadChecked_spec.2 hover]
          cases hchain : verifyFeedChainToHead blake3 (first :: rest) head with
          | error e => rfl
          | ok u =>
            have hlast : f.lastSeq ≠ some maxSeq := by
              intro hmax
              obtain ⟨hok, hbound⟩ := verifyFeedChainToHead_eq_ok_iff.mp hchain
              exact hretained ⟨hmax, verifyFeedChain_eq_ok_iff_chainsUp.mp hok, hbound⟩
            rw [checkJoinChecked_of_ne hlast]
            cases f.checkJoin first with
            | error e => rfl
            | ok u =>
              cases f.checkCommitted blake3 (first :: rest) with
              | error e => rfl
              | ok u => rfl
  · rw [if_pos hpub, if_pos hpub]
    rfl

end Calls
section Main

/-- The additions fit on every list that does not go on past the last position, and along every run
whose calls do not step past it. -/
theorem seq_arithmetic_fits_iff (blake3 : Bytes → Digest)
    (verifyDomain : Bytes → Bytes → Bytes → Bytes → Bool) :
    (∀ entries, verifyFeedChainChecked blake3 entries = some (verifyFeedChain blake3 entries) ↔
      ¬ RunsOver blake3 entries) ∧
    ∀ publisher fetches,
      (new publisher).followChecked blake3 verifyDomain fetches =
          some ((new publisher).follow blake3 verifyDomain fetches) ↔
        ∀ before x after, fetches = before ++ x :: after →
          ¬ Overflows blake3 verifyDomain ((new publisher).follow blake3 verifyDomain before) x := by
  constructor
  · intro entries
    obtain ⟨hover, hagree⟩ := @verifyFeedChainChecked_spec blake3 entries
    constructor
    · intro h hruns
      rw [hover hruns] at h
      cases h
    · exact hagree
  · intro publisher fetches
    refine foldlM_eq_some_iff (fun f x h => ?_) (fun f x h => ?_)
    · rw [acceptChecked_of_not_overflows h]
      rfl
    · rw [acceptChecked_of_overflows h]
      rfl

/-- An entry at the last position. -/
def lastEntry : FeedEntry := ⟨maxSeq, ⟨[0x1e]⟩, some ⟨[0x1e]⟩, 0⟩

/-- Its BLAKE3 digest. -/
def lastDigest : Digest :=
  ⟨[0x7f, 0x57, 0x95, 0x25, 0xf5, 0xc4, 0x08, 0x01, 0x63, 0x7f, 0x94, 0x67, 0x9d, 0x97, 0xb3, 0xae,
    0xdf, 0x1e, 0x67, 0xc5, 0xee, 0xa9, 0xba, 0xeb, 0x3a, 0x4d, 0xf1, 0xae, 0x2f, 0x05, 0xfc, 0xc2],
    rfl⟩

def lastHead : FeedHead :=
  ⟨0, .classical, [7], maxSeq, ⟨mhBlake3 :: lastDigest.val⟩, 0, [7], [], ""⟩

/-- A list that goes on past the last position, and a follower that is given the head at the last
position a second time. -/
theorem last_position_overflows :
    FeedEntry.fromDetCbor lastEntry.detCbor = .ok lastEntry ∧
      verifyFeedChainChecked (fun _ => lastDigest) [lastEntry, lastEntry] = none ∧
      lastHead.verify (fun _ _ _ _ => true) = .ok () ∧
      ((new [7]).followChecked (fun _ => lastDigest) (fun _ _ _ _ => true)
        [⟨lastHead, [lastEntry]⟩]).isSome = true ∧
      ((new [7]).followChecked (fun _ => lastDigest) (fun _ _ _ _ => true)
        [⟨lastHead, [lastEntry]⟩, ⟨lastHead, [lastEntry]⟩]).isNone = true := by
  refine ⟨rfl, rfl, rfl, ?_, ?_⟩
  · decide
  · decide

end Main
end FeedFollower
end Dmtap.Pub
