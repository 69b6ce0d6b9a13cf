import Dmtap.Lib.Segment
import Dmtap.Lib.SortedMap
import Dmtap.Pub.Objects

/-! Following an author feed. A follower remembers what it accepted at every position; over any
run of fetches all it ever accepted is one linked segment that ends at the retained tip. -/
namespace Dmtap.Pub
open Dmtap.Lib Dmtap.Cbor

/-- The domain separator of feed head signatures, `DMTAP-PUB-v0/feed` and a zero byte. -/
def pubFeedDs : Bytes := utf8 "DMTAP-PUB-v0/feed" ++ [0]

section Checks
variable (verifyDomain : Bytes → Bytes → Bytes → Bytes → Bool) (blake3 : Bytes → Digest)

/-- The key `signer` must be the publisher's own here. -/
def FeedHead.verify (head : FeedHead) : Except PubError Unit :=
  if head.v ≠ pubV0 ∨ head.suite.isSupported = false then .error .unsupportedVersion
  else if verifyDomain head.signer pubFeedDs head.signingPreimage head.sig = false then
    .error .feedSigInvalid
  else if head.signer ≠ head.publisher then .error .feedSigInvalid
  else .ok ()

/-- The loop of `verifyFeedChain`, with the entry before the current one. -/
def verifyFeedChainFrom : Option FeedEntry → List FeedEntry → Except PubError Unit
  | _, [] => .ok ()
  | before, e :: entries =>
    if FeedEntry.prevMisplaced e.seq e.prev then .error .feedChainBroken
    else
      match before with
      | none => verifyFeedChainFrom (some e) entries
      | some p =>
        if e.seq ≠ p.seq + 1 then .error .feedChainBroken
        else if e.prev ≠ some (p.entryId blake3) then .error .feedChainBroken
        else verifyFeedChainFrom (some e) entries

def verifyFeedChain (entries : List FeedEntry) : Except PubError Unit :=
  verifyFeedChainFrom blake3 none entries

/-- The range ends at the position and the tip that the signed head commits to. -/
def verifyFeedChainToHead (entries : List FeedEntry) (head : FeedHead) : Except PubError Unit := do
  verifyFeedChain blake3 entries
  match entries.getLast? with
  | none => .error .feedChainBroken
  | some last =>
    if last.seq ≠ head.seq ∨ last.entryId blake3 ≠ head.tip then .error .feedChainBroken
    else .ok ()

end Checks

inductive RollbackDecision
  | acceptNew
  | acceptIdempotent
  deriving DecidableEq, Repr

def checkAntiRollback (lastAcceptedSeq : UInt64) (lastTip : Option ContentId)
    (presentedSeq : UInt64) (presentedTip : ContentId) : Except PubError RollbackDecision :=
  if presentedSeq < lastAcceptedSeq then .error .feedRollback
  else if lastAcceptedSeq < presentedSeq then .ok .acceptNew
  else
    match lastTip with
    | some t => if t ≠ presentedTip then .error .feedChainBroken else .ok .acceptIdempotent
    | none => .ok .acceptIdempotent

/-- A consumer of one author feed; `accepted` holds the entry id at every accepted position. -/
structure FeedFollower where
  publisher : Bytes
  lastSeq : Option UInt64
  lastTip : Option ContentId
  accepted : SortedMap UInt64 ContentId

namespace FeedFollower

def new (publisher : Bytes) : FeedFollower := ⟨publisher, none, none, .empty⟩

/-- Methods on a mutable follower: what was written before an error stays written. -/
abbrev Method := ExceptT PubError (StateM FeedFollower)

/-- A check that only reads: its error is returned as it is. -/
def check {α : Type} (x : Except PubError α) : Method α := ExceptT.mk (pure x)

/-- How the head compares with what is retained; nothing is on first contact. -/
def decision (f : FeedFollower) (head : FeedHead) : Except PubError RollbackDecision :=
  match f.lastSeq with
  | some last => checkAntiRollback last f.lastTip head.seq head.tip
  | none => .ok .acceptNew

/-- No gap after the retained history, and a continuation names the retained tip. -/
def checkJoin (f : FeedFollower) (first : FeedEntry) : Except PubError Unit :=
  match f.lastSeq with
  | none => .ok ()
  | some last =>
    if last + 1 < first.seq then .error .feedChainBroken
    else if first.seq = last + 1 then
      match first.prev, f.lastTip with
      | some p, some t => if p = t then .ok () else .error .feedChainBroken
      | _, _ => .error .feedChainBroken
    else .ok ()

section
variable (blake3 : Bytes → Digest)

/-- Nothing may contradict an accepted position. -/
def checkCommitted (f : FeedFollower) : List FeedEntry → Except PubError Unit
  | [] => .ok ()
  | e :: entries =>
    match f.accepted.get? e.seq with
    | some known =>
      if known ≠ e.entryId blake3 then .error .feedChainBroken else checkCommitted f entries
    | none => checkCommitted f entries

/-- Record the entries, and the head unless it is below the retained one. -/
def commit (head : FeedHead) (entries : List FeedEntry) (f : FeedFollower) : FeedFollower :=
  let g := { f with
    accepted := f.accepted.insertAll FeedEntry.seq (FeedEntry.entryId blake3) entries }
  if f.lastSeq.all (fun l => decide (l ≤ head.seq)) then
    { g with lastSeq := some head.seq, lastTip := some head.tip }
  else g

/-- Ingest one fetch: a signed head and a range of entries. -/
def accept (verifyDomain : Bytes → Bytes → Bytes → Bytes → Bool) (head : FeedHead)
    (entries : List FeedEntry) : Method RollbackDecision := do
  let f ← get
  if head.publisher ≠ f.publisher then throw .feedSigInvalid
  else
    check (head.verify verifyDomain)
    let decision ← check (f.decision head)
    match entries with
    | [] =>
      if decision = .acceptNew then throw .feedChainBroken
      else return decision
    | first :: _ =>
      check (verifyFeedChainToHead blake3 entries head)
      check (f.checkJoin first)
      check (f.checkCommitted blake3 entries)
      modify (commit blake3 head entries)
      return decision

end
end FeedFollower

section Chains
variable {blake3 : Bytes → Digest}

/-- The position of an entry as a number. -/
def FeedEntry.pos (e : FeedEntry) : ℕ := e.seq.toNat

/-- The entry `e'` names `e` as its predecessor. -/
def FeedEntry.Links (blake3 : Bytes → Digest) (e e' : FeedEntry) : Prop :=
  e'.prev = some (e.entryId blake3)

/-- The last position of all, after which `+ 1` overflows, is not used. -/
def FeedEntry.Bounded (e : FeedEntry) : Prop := e.pos < 2 ^ 64 - 1

theorem toNat_add_one {n : UInt64} (h : n.toNat < 2 ^ 64 - 1) : (n + 1).toNat = n.toNat + 1 := by
  rw [UInt64.toNat_add, UInt64.toNat_one]
  omega

/-- A segment of feed entries. -/
abbrev FeedSegment (blake3 : Bytes → Digest) (s : Set FeedEntry) (lo hi : ℕ) : Prop :=
  Segment FeedEntry.pos (FeedEntry.Links blake3) s lo hi

/-- An entry that the chain rules allow after `p`. -/
def FeedEntry.Precedes (blake3 : Bytes → Digest) (p e : FeedEntry) : Prop :=
  e.seq = p.seq + 1 ∧ p.Links blake3 e

theorem verifyFeedChainFrom_eq_ok_iff {p : FeedEntry} {entries : List FeedEntry} :
    verifyFeedChainFrom blake3 (some p) entries = .ok () ↔
      (∀ e ∈ entries, FeedEntry.prevMisplaced e.seq e.prev = false) ∧
        (p :: entries).IsChain (FeedEntry.Precedes blake3) := by
  induction entries generalizing p with
  | nil =>
    constructor
    · intro _
      exact ⟨fun e he => (List.not_mem_nil he).elim, List.isChain_singleton _⟩
    · intro _
      rfl
  | cons e entries ih =>
    rw [List.forall_mem_cons, List.isChain_cons_cons]
    unfold verifyFeedChainFrom
    dsimp only
    constructor
    · intro h
      split_ifs at h with hmis hseq hprev
      rw [ne_eq, not_not] at hseq hprev
      obtain ⟨hrest, hchain⟩ := ih.mp h
      exact ⟨⟨Bool.eq_false_of_not_eq_true hmis, hrest⟩, ⟨hseq, hprev⟩, hchain⟩
    · rintro ⟨⟨hmis, hrest⟩, ⟨hseq, hprev⟩, hchain⟩
      have hprev' : e.prev = some (p.entryId blake3) := hprev
      rw [if_neg (by rw [hmis]; exact Bool.false_ne_true), if_neg (not_not.mpr hseq),
        if_neg (not_not.mpr hprev')]
      exact ih.mpr ⟨hrest, hchain⟩

/-- What the loop checks: every entry by itself, and every two neighbours. -/
theorem verifyFeedChain_eq_ok_iff {entries : List FeedEntry} :
    verifyFeedChain blake3 entries = .ok () ↔
      (∀ e ∈ entries, FeedEntry.prevMisplaced e.seq e.prev = false) ∧
        entries.IsChain (FeedEntry.Precedes blake3) := by
  unfold verifyFeedChain
  cases entries with
  | nil =>
    constructor
    · intro _
      exact ⟨fun e he => (List.not_mem_nil he).elim, List.isChain_nil⟩
    · intro _
      rfl
  | cons e entries =>
    rw [List.forall_mem_cons]
    unfold verifyFeedChainFrom
    dsimp only
    constructor
    · intro h
      split_ifs at h with hmis
      obtain ⟨hrest, hchain⟩ := verifyFeedChainFrom_eq_ok_iff.mp h
      exact ⟨⟨Bool.eq_false_of_not_eq_true hmis, hrest⟩, hchain⟩
    · rintro ⟨⟨hmis, hrest⟩, hchain⟩
      rw [if_neg (by rw [hmis]; exact Bool.false_ne_true)]
      exact verifyFeedChainFrom_eq_ok_iff.mpr ⟨hrest, hchain⟩

/-- What binds a range to a head besides the chain rules is its last entry. -/
theorem verifyFeedChainToHead_eq_ok_iff {entries : List FeedEntry} {head : FeedHead} :
    verifyFeedChainToHead blake3 entries head = .ok () ↔
      verifyFeedChain blake3 entries = .ok () ∧ ∃ last, entries.getLast? = some last ∧
        last.seq = head.seq ∧ last.entryId blake3 = head.tip := by
  unfold verifyFeedChainToHead
  rw [except_bind_eq_ok]
  cases hlast : entries.getLast? with
  | none =>
    constructor
    · rintro ⟨_, -, h⟩
      cases h
    · rintro ⟨-, last, h, -⟩
      cases h
  | some last =>
    dsimp only
    constructor
    · rintro ⟨_, hchain, h⟩
      split_ifs at h with hbind
      rw [not_or, not_not, not_not] at hbind
      exact ⟨hchain, last, rfl, hbind⟩
    · rintro ⟨hchain, last', hlast', hseq, htip⟩
      obtain rfl := Option.some.inj hlast'
      refine ⟨(), hchain, ?_⟩
      rw [if_neg (not_or.mpr ⟨not_not.mpr hseq, not_not.mpr htip⟩)]

theorem isChain_of_verifyFeedChain {first : FeedEntry} {rest : List FeedEntry}
    (hb : ∀ e ∈ first :: rest, e.Bounded) (h : verifyFeedChain blake3 (first :: rest) = .ok ()) :
    (first :: rest).IsChain (fun e e' => e'.pos = e.pos + 1 ∧ e.Links blake3 e') := by
  refine ((verifyFeedChain_eq_ok_iff.mp h).2).imp_of_mem_imp (fun p e hp _ hpre => ?_)
  refine ⟨?_, hpre.2⟩
  unfold FeedEntry.pos
  rw [hpre.1]
  exact toNat_add_one (hb p hp)

/-- A range that is bound to a head is a segment up to the head's position, and the entry there
is the head's tip. -/
theorem segment_of_verifyFeedChainToHead {first : FeedEntry} {rest : List FeedEntry}
    {head : FeedHead} (hb : ∀ e ∈ first :: rest, e.Bounded)
    (h : verifyFeedChainToHead blake3 (first :: rest) head = .ok ()) :
    FeedSegment blake3 {e | e ∈ first :: rest} first.pos head.seq.toNat ∧
      ∃ last ∈ first :: rest, last.seq = head.seq ∧ last.entryId blake3 = head.tip := by
  obtain ⟨hchain, last, hlast, hbind⟩ := verifyFeedChainToHead_eq_ok_iff.mp h
  have hne : first :: rest ≠ [] := List.cons_ne_nil _ _
  rw [List.getLast?_eq_some_getLast hne, Option.some.injEq] at hlast
  subst hlast
  have hseg := segment_of_isChain (isChain_of_verifyFeedChain hb hchain)
  have hlast : ((first :: rest).getLast hne).pos = head.seq.toNat := by
    unfold FeedEntry.pos
    rw [hbind.1]
  rw [hlast] at hseg
  exact ⟨hseg, (first :: rest).getLast hne, List.getLast_mem hne, hbind⟩

theorem le_of_checkAntiRollback {last seq : UInt64} {lastTip : Option ContentId} {tip : ContentId}
    {d : RollbackDecision} (h : checkAntiRollback last lastTip seq tip = .ok d) : last ≤ seq := by
  unfold checkAntiRollback at h
  split_ifs at h with hlt hgt
  · exact UInt64.le_of_lt hgt
  · exact UInt64.not_lt.mp hlt

end Chains

namespace FeedFollower
section Steps
variable {blake3 : Bytes → Digest} {verifyDomain : Bytes → Bytes → Bytes → Bytes → Bool}
  {f g : FeedFollower} {head : FeedHead} {entries : List FeedEntry}

theorem checkCommitted_eq_ok (h : f.checkCommitted blake3 entries = .ok ()) :
    ∀ e ∈ entries, ∀ known, f.accepted.get? e.seq = some known → known = e.entryId blake3 := by
  induction entries with
  | nil =>
    intro e he
    cases he
  | cons e entries ih =>
    unfold checkCommitted at h
    cases hget : f.accepted.get? e.seq with
    | none =>
      rw [hget] at h
      refine List.forall_mem_cons.mpr ⟨fun known hknown => ?_, ih h⟩
      rw [hget] at hknown
      cases hknown
    | some c =>
      rw [hget] at h
      dsimp only at h
      split_ifs at h with hc
      rw [ne_eq, not_not] at hc
      refine List.forall_mem_cons.mpr ⟨fun known hknown => ?_, ih h⟩
      rw [hget] at hknown
      rw [← Option.some.inj hknown, hc]

theorem checkJoin_eq_ok {first : FeedEntry} {last : UInt64} (hlast : f.lastSeq = some last)
    (h : f.checkJoin first = .ok ()) :
    first.seq ≤ last + 1 ∧ (first.seq = last + 1 → first.prev = f.lastTip) := by
  unfold checkJoin at h
  rw [hlast] at h
  dsimp only at h
  split_ifs at h with hgap hnext
  · refine ⟨UInt64.not_lt.mp hgap, fun _ => ?_⟩
    split at h
    · rename_i p t hp ht
      split_ifs at h with hpt
      rw [hp, ht, hpt]
    · cases h
  · exact ⟨UInt64.not_lt.mp hgap, fun heq => absurd heq hnext⟩

/-- A failed check returns at once and writes nothing. -/
theorem check_bind_run {α β : Type} {x : Except PubError α} {k : α → Method β}
    {r : Except PubError β} (h : (check x >>= k).run.run f = (r, g)) :
    (∃ e, r = .error e ∧ g = f) ∨ ∃ a, x = .ok a ∧ (k a).run.run f = (r, g) := by
  cases x with
  | error e =>
    left
    obtain ⟨rfl, rfl⟩ := Prod.mk.inj h
    exact ⟨e, rfl, rfl⟩
  | ok a => exact Or.inr ⟨a, rfl, h⟩

/-- What a fetch can do: fail and change nothing, repeat the retained head and change nothing,
or pass every check and be recorded. -/
theorem accept_cases {r : Except PubError RollbackDecision}
    (h : (accept blake3 verifyDomain head entries).run.run f = (r, g)) :
    (∃ e, r = .error e ∧ g = f) ∨ (∃ d, r = .ok d ∧ entries = [] ∧ g = f) ∨
      ∃ d first rest, r = .ok d ∧ entries = first :: rest ∧ f.decision head = .ok d ∧
        verifyFeedChainToHead blake3 entries head = .ok () ∧ f.checkJoin first = .ok () ∧
        f.checkCommitted blake3 entries = .ok () ∧ g = commit blake3 head entries f := by
  change (if head.publisher ≠ f.publisher then (throw .feedSigInvalid : Method RollbackDecision)
    else _).run.run f = (r, g) at h
  split_ifs at h with hpub
  · obtain ⟨rfl, rfl⟩ := Prod.mk.inj h
    exact Or.inl ⟨_, rfl, rfl⟩
  rcases check_bind_run h with herr | ⟨_, -, h⟩
  · exact Or.inl herr
  rcases check_bind_run h with herr | ⟨d, hdec, h⟩
  · exact Or.inl herr
  cases entries with
  | nil =>
    dsimp only at h
    split_ifs at h with hnew
    · obtain ⟨rfl, rfl⟩ := Prod.mk.inj h
      exact Or.inl ⟨_, rfl, rfl⟩
    · obtain ⟨rfl, rfl⟩ := Prod.mk.inj h
      exact Or.inr (Or.inl ⟨d, rfl, rfl, rfl⟩)
  | cons first rest =>
    rcases check_bind_run h with herr | ⟨_, hchain, h⟩
    · exact Or.inl herr
    rcases check_bind_run h with herr | ⟨_, hjoin, h⟩
    · exact Or.inl herr
    rcases check_bind_run h with herr | ⟨_, hcommitted, h⟩
    · exact Or.inl herr
    obtain ⟨rfl, rfl⟩ := Prod.mk.inj h
    exact Or.inr (Or.inr ⟨d, first, rest, rfl, rfl, hdec, hchain, hjoin, hcommitted, rfl⟩)

end Steps

section Invariant
variable (blake3 : Bytes → Digest)

/-- The follower's state as a record of the set of accepted entries. -/
structure Follows (f : FeedFollower) (s : Set FeedEntry) : Prop where
  records : ∀ k c, f.accepted.get? k = some c ↔ ∃ e ∈ s, e.seq = k ∧ e.entryId blake3 = c
  tip : f.lastTip = f.lastSeq.bind f.accepted.get?
  segment : (f.lastSeq = none ∧ s = ∅) ∨
    ∃ lo last, f.lastSeq = some last ∧ FeedSegment blake3 s lo last.toNat

variable {blake3} {verifyDomain : Bytes → Bytes → Bytes → Bytes → Bool} {f : FeedFollower}
  {head : FeedHead} {entries : List FeedEntry} {s : Set FeedEntry}

theorem follows_new (publisher : Bytes) : Follows blake3 (new publisher) ∅ where
  records := by
    intro k c
    simp [new]
  tip := rfl
  segment := Or.inl ⟨rfl, rfl⟩

theorem le_of_decision {d : RollbackDecision} {last : UInt64} (hlast : f.lastSeq = some last)
    (h : f.decision head = .ok d) : last ≤ head.seq := by
  unfold decision at h
  rw [hlast] at h
  exact le_of_checkAntiRollback h

/-- A head that passed the rollback check is recorded. -/
theorem commit_eq {d : RollbackDecision} (h : f.decision head = .ok d) :
    commit blake3 head entries f =
      ⟨f.publisher, some head.seq, some head.tip,
        f.accepted.insertAll FeedEntry.seq (FeedEntry.entryId blake3) entries⟩ := by
  have hall : f.lastSeq.all (fun l => decide (l ≤ head.seq)) = true := by
    cases hlast : f.lastSeq with
    | none => rfl
    | some last => exact decide_eq_true (le_of_decision hlast h)
  unfold commit
  rw [if_pos hall]

/-- A fetch that contradicts no accepted position repeats the entries accepted before. -/
theorem Follows.agree (hf : Follows blake3 f s)
    (hinj : Set.InjOn (FeedEntry.entryId blake3) (s ∪ {e | e ∈ entries}))
    (h : f.checkCommitted blake3 entries = .ok ()) :
    ∀ x ∈ s, ∀ y ∈ entries, x.pos = y.pos → x = y := by
  intro x hx y hy hpos
  have hseq : x.seq = y.seq := UInt64.toNat_inj.mp hpos
  have hknown : f.accepted.get? y.seq = some (x.entryId blake3) :=
    (hf.records _ _).mpr ⟨x, hx, hseq, rfl⟩
  exact hinj (Or.inl hx) (Or.inr hy) (checkCommitted_eq_ok h y hy _ hknown)

/-- Recording the entries of a range records their set. -/
theorem records_insertAll (hf : Follows blake3 f s)
    (hagree : ∀ x ∈ s, ∀ y ∈ entries, x.pos = y.pos → x = y)
    (hunique : Set.InjOn FeedEntry.pos {e | e ∈ entries}) (k : UInt64) (c : ContentId) :
    (f.accepted.insertAll FeedEntry.seq (FeedEntry.entryId blake3) entries).get? k = some c ↔
      ∃ e ∈ s ∪ {e | e ∈ entries}, e.seq = k ∧ e.entryId blake3 = c := by
  have hval : ∀ x ∈ entries, ∀ y ∈ entries, x.seq = y.seq →
      x.entryId blake3 = y.entryId blake3 := by
    intro x hx y hy hseq
    rw [hunique hx hy (congrArg UInt64.toNat hseq)]
  by_cases hk : ∃ y ∈ entries, y.seq = k
  · obtain ⟨y, hy, rfl⟩ := hk
    rw [SortedMap.get?_insertAll_of_mem _ hval hy]
    constructor
    · intro hc
      exact ⟨y, Or.inr hy, rfl, Option.some.inj hc⟩
    · rintro ⟨e, he, hseq, rfl⟩
      have hpos : e.pos = y.pos := congrArg UInt64.toNat hseq
      have hey : e = y := by
        rcases he with he | he
        · exact hagree e he y hy hpos
        · exact hunique he hy hpos
      rw [hey]
  · have hne : ∀ y ∈ entries, y.seq ≠ k := fun y hy hseq => hk ⟨y, hy, hseq⟩
    rw [SortedMap.get?_insertAll_of_forall_ne _ hne, hf.records]
    constructor
    · rintro ⟨e, he, hek⟩
      exact ⟨e, Or.inl he, hek⟩
    · rintro ⟨e, he, hek⟩
      rcases he with he | he
      · exact ⟨e, he, hek⟩
      · exact absurd hek.1 (hne e he)

/-- The entry at the retained position is the one that a continuation must name. -/
theorem Follows.lastTip_eq (hf : Follows blake3 f s) {last : UInt64} (hlast : f.lastSeq = some last)
    {x : FeedEntry} (hx : x ∈ s) (hpos : x.pos = last.toNat) :
    f.lastTip = some (x.entryId blake3) := by
  rw [hf.tip, hlast]
  exact (hf.records _ _).mpr ⟨x, hx, UInt64.toNat_inj.mp hpos, rfl⟩

/-- A range that joins the retained history extends its segment. -/
theorem Follows.segment_union {first : FeedEntry} {rest : List FeedEntry} {lo : ℕ} {last : UInt64}
    (hf : Follows blake3 f s) (hb : ∀ e ∈ s, e.Bounded) (hlast : f.lastSeq = some last)
    (hs : FeedSegment blake3 s lo last.toNat)
    (hr : FeedSegment blake3 {e | e ∈ first :: rest} first.pos head.seq.toNat)
    (hagree : ∀ x ∈ s, ∀ y ∈ first :: rest, x.pos = y.pos → x = y)
    (hle : last ≤ head.seq) (hjoin : f.checkJoin first = .ok ()) :
    FeedSegment blake3 (s ∪ {e | e ∈ first :: rest}) (min lo first.pos) head.seq.toNat := by
  obtain ⟨hgap, hnext⟩ := checkJoin_eq_ok hlast hjoin
  obtain ⟨x, hx, hxpos⟩ := hs.covers last.toNat hs.le (le_refl _)
  have hsucc : (last + 1).toNat = last.toNat + 1 := by
    have hbound := hb x hx
    unfold FeedEntry.Bounded at hbound
    exact toNat_add_one (by omega)
  have hmeet : first.pos ≤ last.toNat + 1 := by
    rw [← hsucc]
    exact hgap
  refine hs.glue hr hmeet hle hagree (fun hstart y hy hypos z hz hzpos => ?_)
  have hseq : first.seq = last + 1 := by
    apply UInt64.toNat_inj.mp
    rw [hsucc]
    exact hstart
  have hz' : z = first := hr.unique hz List.mem_cons_self hzpos
  unfold FeedEntry.Links
  rw [hz', hnext hseq, hf.lastTip_eq hlast hy hypos]

/-- One recorded fetch. -/
theorem Follows.commit {first : FeedEntry} {rest : List FeedEntry} {d : RollbackDecision}
    (hf : Follows blake3 f s) (hb : ∀ e ∈ s ∪ {e | e ∈ first :: rest}, e.Bounded)
    (hinj : Set.InjOn (FeedEntry.entryId blake3) (s ∪ {e | e ∈ first :: rest}))
    (hdec : f.decision head = .ok d)
    (hchain : verifyFeedChainToHead blake3 (first :: rest) head = .ok ())
    (hjoin : f.checkJoin first = .ok ())
    (hcommitted : f.checkCommitted blake3 (first :: rest) = .ok ()) :
    Follows blake3 (commit blake3 head (first :: rest) f) (s ∪ {e | e ∈ first :: rest}) := by
  obtain ⟨hr, tip, htip, htipSeq, htipId⟩ :=
    segment_of_verifyFeedChainToHead (fun e he => hb e (Or.inr he)) hchain
  have hagree := hf.agree hinj hcommitted
  have hrecords := records_insertAll hf hagree hr.unique
  rw [commit_eq hdec]
  refine ⟨hrecords, ?_, Or.inr ?_⟩
  · exact ((hrecords _ _).mpr ⟨tip, Or.inr htip, htipSeq, htipId⟩).symm
  · rcases hf.segment with ⟨hnone, hempty⟩ | ⟨lo, last, hlast, hs⟩
    · refine ⟨first.pos, head.seq, rfl, ?_⟩
      rw [hempty, Set.empty_union]
      exact hr
    · exact ⟨min lo first.pos, head.seq, rfl, hf.segment_union (fun e he => hb e (Or.inl he))
        hlast hs hr hagree (le_of_decision hlast hdec) hjoin⟩

end Invariant

/-- One call of `accept`. -/
structure Fetch where
  head : FeedHead
  entries : List FeedEntry

section Runs
variable (blake3 : Bytes → Digest) (verifyDomain : Bytes → Bytes → Bytes → Bytes → Bool)

def outcome (f : FeedFollower) (x : Fetch) : Except PubError RollbackDecision :=
  ((accept blake3 verifyDomain x.head x.entries).run.run f).1

/-- The follower after the call, whether it succeeded or not. -/
def step (f : FeedFollower) (x : Fetch) : FeedFollower :=
  ((accept blake3 verifyDomain x.head x.entries).run.run f).2

/-- The entries that the call accepts. -/
def taken (f : FeedFollower) (x : Fetch) : List FeedEntry :=
  match f.outcome blake3 verifyDomain x with
  | .ok _ => x.entries
  | .error _ => []

def follow (f : FeedFollower) (fetches : List Fetch) : FeedFollower :=
  fetches.foldl (step blake3 verifyDomain) f

/-- All entries accepted along a run. -/
def everAccepted : FeedFollower → List Fetch → List FeedEntry
  | _, [] => []
  | f, x :: fetches =>
    f.taken blake3 verifyDomain x ++ everAccepted (f.step blake3 verifyDomain x) fetches

variable {blake3 verifyDomain} {f : FeedFollower} {s P : Set FeedEntry}

theorem step_eq_of_error {x : Fetch} {e : PubError}
    (h : f.outcome blake3 verifyDomain x = .error e) : f.step blake3 verifyDomain x = f := by
  have hrun : (accept blake3 verifyDomain x.head x.entries).run.run f =
      (f.outcome blake3 verifyDomain x, f.step blake3 verifyDomain x) := rfl
  rcases accept_cases hrun with ⟨_, -, hg⟩ | ⟨_, -, -, hg⟩ | ⟨d, _, _, hok, -⟩
  · exact hg
  · exact hg
  · rw [h] at hok
    cases hok

theorem lastSeq_le_step (x : Fetch) {last : UInt64} (hlast : f.lastSeq = some last) :
    ∃ next, (f.step blake3 verifyDomain x).lastSeq = some next ∧ last ≤ next := by
  have hrun : (accept blake3 verifyDomain x.head x.entries).run.run f =
      (f.outcome blake3 verifyDomain x, f.step blake3 verifyDomain x) := rfl
  rcases accept_cases hrun with ⟨_, -, hg⟩ | ⟨_, -, -, hg⟩ | ⟨d, _, _, -, -, hdec, -, -, -, hg⟩
  · rw [hg]
    exact ⟨last, hlast, UInt64.le_refl _⟩
  · rw [hg]
    exact ⟨last, hlast, UInt64.le_refl _⟩
  · rw [hg, commit_eq hdec]
    exact ⟨x.head.seq, rfl, le_of_decision hlast hdec⟩

/-- One call keeps the invariant, with the entries it accepts added. -/
theorem Follows.step (hb : ∀ e ∈ P, e.Bounded) (hinj : Set.InjOn (FeedEntry.entryId blake3) P)
    (hf : Follows blake3 f s) (hs : s ⊆ P) {x : Fetch} (hx : ∀ e ∈ x.entries, e ∈ P) :
    Follows blake3 (f.step blake3 verifyDomain x) (s ∪ {e | e ∈ f.taken blake3 verifyDomain x}) := by
  have hrun : (accept blake3 verifyDomain x.head x.entries).run.run f =
      (f.outcome blake3 verifyDomain x, f.step blake3 verifyDomain x) := rfl
  unfold taken
  rcases accept_cases hrun with ⟨e, herr, hg⟩ | ⟨d, hok, hnil, hg⟩ |
    ⟨d, first, rest, hok, hcons, hdec, hchain, hjoin, hcommitted, hg⟩
  · rw [herr, hg]
    simpa using hf
  · rw [hok, hg, hnil]
    simpa using hf
  · rw [hok, hg]
    dsimp only
    rw [hcons] at hx hchain hcommitted ⊢
    have hsub : s ∪ {e | e ∈ first :: rest} ⊆ P := Set.union_subset hs hx
    exact hf.commit (fun e he => hb e (hsub he)) (hinj.mono hsub) hdec hchain hjoin hcommitted

theorem taken_subset {x : Fetch} (hx : ∀ e ∈ x.entries, e ∈ P) :
    ∀ e ∈ f.taken blake3 verifyDomain x, e ∈ P := by
  unfold taken
  split
  · exact hx
  · intro e he
    cases he

/-- A run keeps the invariant: by induction on the calls, from any state. -/
theorem Follows.follow (hb : ∀ e ∈ P, e.Bounded) (hinj : Set.InjOn (FeedEntry.entryId blake3) P)
    (hf : Follows blake3 f s) (hs : s ⊆ P) {fetches : List Fetch}
    (hx : ∀ x ∈ fetches, ∀ e ∈ x.entries, e ∈ P) :
    Follows blake3 (f.follow blake3 verifyDomain fetches)
      (s ∪ {e | e ∈ f.everAccepted blake3 verifyDomain fetches}) := by
  induction fetches generalizing f s with
  | nil =>
    change Follows blake3 f (s ∪ {e | e ∈ []})
    simpa using hf
  | cons x fetches ih =>
    obtain ⟨hx0, hxs⟩ := List.forall_mem_cons.mp hx
    have hstep : Follows blake3 (f.step blake3 verifyDomain x)
        (s ∪ {e | e ∈ f.taken blake3 verifyDomain x}) := hf.step hb hinj hs hx0
    have hrun := ih hstep (Set.union_subset hs (taken_subset hx0)) hxs
    have hset : s ∪ {e | e ∈ f.everAccepted blake3 verifyDomain (x :: fetches)} =
        s ∪ {e | e ∈ f.taken blake3 verifyDomain x} ∪
          {e | e ∈ (f.step blake3 verifyDomain x).everAccepted blake3 verifyDomain fetches} := by
      ext e
      simp [everAccepted, or_assoc]
    rw [hset]
    exact hrun

end Runs

section Main
variable (blake3 : Bytes → Digest)

/-- The accepted positions: none, or an interval that ends at the retained one. -/
def Contiguous (f : FeedFollower) : Prop :=
  (f.lastSeq = none ∧ ∀ k, f.accepted.get? k = none) ∨
    ∃ lo last, f.lastSeq = some last ∧ lo ≤ last ∧
      ∀ k, (f.accepted.get? k).isSome ↔ lo ≤ k ∧ k ≤ last

/-- The memory holds the ids of the given entries, there is one of them at each position, and each
but the lowest names the one before it. -/
structure OneChain (f : FeedFollower) (entries : List FeedEntry) : Prop where
  remembered : ∀ k c,
    f.accepted.get? k = some c ↔ ∃ e ∈ entries, e.seq = k ∧ e.entryId blake3 = c
  unique : ∀ e ∈ entries, ∀ e' ∈ entries, e.seq = e'.seq → e = e'
  linked : ∀ e ∈ entries, (∀ e' ∈ entries, e.seq ≤ e'.seq) ∨
    ∃ e' ∈ entries, e'.pos + 1 = e.pos ∧ e.prev = some (e'.entryId blake3)

variable {blake3} {f : FeedFollower}

theorem Follows.contiguous {s : Set FeedEntry} (hf : Follows blake3 f s) : Contiguous f := by
  rcases hf.segment with ⟨hnone, hempty⟩ | ⟨lo, last, hlast, hs⟩
  · refine Or.inl ⟨hnone, fun k => ?_⟩
    rw [Option.eq_none_iff_forall_ne_some]
    intro c hc
    obtain ⟨e, he, -⟩ := (hf.records k c).mp hc
    rw [hempty] at he
    exact he
  · have hlo : (UInt64.ofNat lo).toNat = lo := by
      have hle := hs.le
      have hlt := last.toNat_lt
      rw [UInt64.toNat_ofNat']
      omega
    refine Or.inr ⟨UInt64.ofNat lo, last, hlast, ?_, fun k => ?_⟩
    · rw [UInt64.le_iff_toNat_le, hlo]
      exact hs.le
    · rw [UInt64.le_iff_toNat_le, UInt64.le_iff_toNat_le, hlo, Option.isSome_iff_exists]
      constructor
      · rintro ⟨c, hc⟩
        obtain ⟨e, he, rfl, -⟩ := (hf.records k c).mp hc
        exact hs.within e he
      · rintro ⟨hk, hk'⟩
        obtain ⟨e, he, hpos⟩ := hs.covers k.toNat hk hk'
        exact ⟨_, (hf.records k _).mpr ⟨e, he, UInt64.toNat_inj.mp hpos, rfl⟩⟩

theorem Follows.oneChain {entries : List FeedEntry}
    (hf : Follows blake3 f {e | e ∈ entries}) : OneChain blake3 f entries := by
  rcases hf.segment with ⟨-, hempty⟩ | ⟨lo, last, -, hs⟩
  · have hnone : ∀ e ∈ entries, False := by
      intro e he
      have hmem : e ∈ {e | e ∈ entries} := he
      rw [hempty] at hmem
      exact hmem
    exact ⟨hf.records, fun e he => (hnone e he).elim, fun e he => (hnone e he).elim⟩
  · refine ⟨hf.records, fun e he e' he' hseq => ?_, fun e he => ?_⟩
    · exact hs.unique he he' (congrArg UInt64.toNat hseq)
    · obtain ⟨hlo, hhi⟩ := hs.within e he
      by_cases hlowest : e.pos = lo
      · left
        intro e' he'
        have hlo' := (hs.within e' he').1
        rw [← hlowest] at hlo'
        exact hlo'
      · right
        obtain ⟨e', he', hpos⟩ := hs.covers (e.pos - 1) (by omega) (by omega)
        exact ⟨e', he', by omega, hs.linked e' he' e he (by omega)⟩

/-- A followed feed does not equivocate, whatever is fetched in whatever order. Every point of a
run is the end of a run, so this holds at each of them. -/
theorem feed_non_equivocation (verifyDomain : Bytes → Bytes → Bytes → Bytes → Bool)
    (publisher : Bytes) (fetches : List Fetch)
    (hseq : ∀ x ∈ fetches, ∀ e ∈ x.entries, e.Bounded)
    (hid : Set.InjOn (FeedEntry.entryId blake3) {e | ∃ x ∈ fetches, e ∈ x.entries}) :
    let run := (new publisher).follow blake3 verifyDomain
    Contiguous (run fetches) ∧
      (run fetches).lastTip = (run fetches).lastSeq.bind (run fetches).accepted.get? ∧
      OneChain blake3 (run fetches) ((new publisher).everAccepted blake3 verifyDomain fetches) ∧
      ∀ x, (∀ last, (run fetches).lastSeq = some last →
          ∃ next, (run (fetches ++ [x])).lastSeq = some next ∧ last ≤ next) ∧
        ∀ e, (run fetches).outcome blake3 verifyDomain x = .error e →
          run (fetches ++ [x]) = run fetches := by
  intro run
  have hb : ∀ e ∈ {e | ∃ x ∈ fetches, e ∈ x.entries}, e.Bounded := by
    rintro e ⟨x, hx, he⟩
    exact hseq x hx e he
  have hrun : Follows blake3 (run fetches)
      (∅ ∪ {e | e ∈ (new publisher).everAccepted blake3 verifyDomain fetches}) :=
    (follows_new publisher).follow hb hid (Set.empty_subset _) (fun x hx e he => ⟨x, hx, he⟩)
  rw [Set.empty_union] at hrun
  have hsnoc : ∀ x, run (fetches ++ [x]) = (run fetches).step blake3 verifyDomain x := by
    intro x
    exact List.foldl_append
  refine ⟨hrun.contiguous, hrun.tip, hrun.oneChain, fun x => ?_⟩
  rw [hsnoc x]
  exact ⟨fun last hlast => lastSeq_le_step x hlast, fun e he => step_eq_of_error he⟩

end Main

section TwoFetches

def genesisEntry : FeedEntry := ⟨0, ⟨[0x1e]⟩, none, 0⟩

/-- The BLAKE3 digest of the genesis entry. -/
def genesisDigest : Digest :=
  ⟨[0x6c, 0x8d, 0x00, 0x2e, 0x3b, 0x8f, 0x53, 0xc1, 0xfe, 0x07, 0x6e, 0x20, 0x45, 0x73, 0xbe, 0x39,
    0x08, 0x88, 0x8f, 0x26, 0x39, 0x92, 0xb7, 0xec, 0x3c, 0x33, 0x72, 0xa8, 0xa3, 0x52, 0x75, 0xb1],
    rfl⟩

def nextEntry : FeedEntry := ⟨1, ⟨[0x1e]⟩, some ⟨mhBlake3 :: genesisDigest.val⟩, 1⟩

/-- The BLAKE3 digest of the entry after it. -/
def nextDigest : Digest :=
  ⟨[0xb3, 0x9b, 0x72, 0x30, 0x60, 0x59, 0x78, 0xe3, 0xc7, 0xa6, 0xb2, 0xf7, 0xea, 0x2a, 0x5a, 0x93,
    0x6b, 0x12, 0x7a, 0x1e, 0x2a, 0x0a, 0x51, 0xd1, 0x80, 0xcf, 0xd0, 0x44, 0x48, 0xf2, 0x57, 0x33],
    rfl⟩

/-- BLAKE3 as far as these two entries need it. -/
def twoDigests (b : Bytes) : Digest :=
  if b = genesisEntry.detCbor then genesisDigest else nextDigest

def twoFetches : List Fetch :=
  [⟨⟨0, .classical, [7], 0, ⟨mhBlake3 :: genesisDigest.val⟩, 0, [7], [], ""⟩, [genesisEntry]⟩,
    ⟨⟨0, .classical, [7], 1, ⟨mhBlake3 :: nextDigest.val⟩, 1, [7], [], ""⟩, [nextEntry]⟩]

private theorem mem_twoFetches {e : FeedEntry} (h : ∃ x ∈ twoFetches, e ∈ x.entries) :
    e = genesisEntry ∨ e = nextEntry := by
  simpa [twoFetches] using h

private theorem ids_differ : genesisEntry.entryId twoDigests ≠ nextEntry.entryId twoDigests := by
  decide +kernel

theorem feed_non_equivocation_two_fetches :
    ((new [7]).follow twoDigests (fun _ _ _ _ => true) twoFetches).lastSeq = some 1 ∧
      OneChain twoDigests ((new [7]).follow twoDigests (fun _ _ _ _ => true) twoFetches)
        ((new [7]).everAccepted twoDigests (fun _ _ _ _ => true) twoFetches) := by
  have hseq : ∀ x ∈ twoFetches, ∀ e ∈ x.entries, e.Bounded := by
    intro x hx e he
    rcases mem_twoFetches ⟨x, hx, he⟩ with rfl | rfl
    · change 0 < 2 ^ 64 - 1
      decide
    · change 1 < 2 ^ 64 - 1
      decide
  have hid : Set.InjOn (FeedEntry.entryId twoDigests) {e | ∃ x ∈ twoFetches, e ∈ x.entries} := by
    intro e he e' he' heq
    rcases mem_twoFetches he with rfl | rfl
    · rcases mem_twoFetches he' with rfl | rfl
      · rfl
      · exact absurd heq ids_differ
    · rcases mem_twoFetches he' with rfl | rfl
      · exact absurd heq.symm ids_differ
      · rfl
  have hlast : ((new [7]).follow twoDigests (fun _ _ _ _ => true) twoFetches).lastSeq = some 1 := by
    decide
  exact ⟨hlast, (feed_non_equivocation (fun _ _ _ _ => true) [7] twoFetches hseq hid).2.2.1⟩

end TwoFetches
end FeedFollower
end Dmtap.Pub
