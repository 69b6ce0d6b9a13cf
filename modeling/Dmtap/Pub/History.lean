import Dmtap.Pub.Feed

/-! Honest feeds. A signed head commits to the whole history below it, and a follower whose state
comes from one honest feed accepts of that feed whatever joins the history it retains. -/
namespace Dmtap.Pub
open Dmtap.Lib Dmtap.Cbor

section Commitment
variable {blake3 : Bytes → Digest}

/-- An entry that follows on another is not the genesis entry. -/
theorem FeedEntry.Precedes.seq_ne_zero {p e : FeedEntry} (h : p.Precedes blake3 e)
    (hmis : FeedEntry.prevMisplaced e.seq e.prev = false) : e.seq ≠ 0 := by
  intro hzero
  have hprev : e.prev = some (p.entryId blake3) := h.2
  rw [hzero, hprev] at hmis
  exact Bool.noConfusion hmis

/-- A chain that starts at the genesis entry is no proper suffix of a chain. -/
theorem eq_of_suffix_of_genesis {r r' : List FeedEntry} {e : FeedEntry} (hsuffix : r <:+ r')
    (hchain : verifyFeedChain blake3 r' = .ok ()) (hfirst : r.head? = some e) (hzero : e.seq = 0) :
    r = r' := by
  obtain ⟨before, rfl⟩ := hsuffix
  obtain ⟨hmis, hlinked⟩ := verifyFeedChain_eq_ok_iff.mp hchain
  obtain ⟨rest, rfl⟩ := List.head?_eq_some_iff.mp hfirst
  cases hbefore : before.getLast? with
  | none =>
    rw [List.getLast?_eq_none_iff] at hbefore
    rw [hbefore, List.nil_append]
  | some p =>
    obtain ⟨more, rfl⟩ := List.getLast?_eq_some_iff.mp hbefore
    rw [List.append_assoc, List.singleton_append] at hlinked
    have hpre : p.Precedes blake3 e := by
      have htail := hlinked.right_of_append
      exact (List.isChain_cons_cons.mp htail).1
    have hmem : e ∈ more ++ [p] ++ e :: rest :=
      List.mem_append_right _ List.mem_cons_self
    exact absurd hzero (hpre.seq_ne_zero (hmis e hmem))

/-- Two ranges that are bound to one head are the same history, as far back as both go. -/
theorem head_commits_to_history (head : FeedHead) (r r' : List FeedEntry)
    (h : verifyFeedChainToHead blake3 r head = .ok ())
    (h' : verifyFeedChainToHead blake3 r' head = .ok ())
    (hid : Set.InjOn (FeedEntry.entryId blake3) {e | e ∈ r ∨ e ∈ r'}) :
    (r <:+ r' ∨ r' <:+ r) ∧
      ∀ e e', r.head? = some e → r'.head? = some e' → e.seq = 0 → e'.seq = 0 → r = r' := by
  obtain ⟨hchain, last, hlast, -, htip⟩ := verifyFeedChainToHead_eq_ok_iff.mp h
  obtain ⟨hchain', last', hlast', -, htip'⟩ := verifyFeedChainToHead_eq_ok_iff.mp h'
  have heq : last = last' := hid (Or.inl (List.mem_of_getLast? hlast))
    (Or.inr (List.mem_of_getLast? hlast')) (htip.trans htip'.symm)
  subst heq
  have hpred : ∀ a ∈ r, ∀ a' ∈ r', ∀ b, a.Precedes blake3 b → a'.Precedes blake3 b → a = a' := by
    intro a ha a' ha' b hab hab'
    have hids : some (a.entryId blake3) = some (a'.entryId blake3) := hab.2.symm.trans hab'.2
    exact hid (Or.inl ha) (Or.inr ha') (Option.some.inj hids)
  have hsuffix := suffix_or_suffix_of_isChain hlast hlast' hpred
    (verifyFeedChain_eq_ok_iff.mp hchain).2 (verifyFeedChain_eq_ok_iff.mp hchain').2
  refine ⟨hsuffix, fun e e' hfirst hfirst' hzero hzero' => ?_⟩
  rcases hsuffix with hs | hs
  · exact eq_of_suffix_of_genesis hs hchain' hfirst hzero
  · exact (eq_of_suffix_of_genesis hs hchain hfirst' hzero').symm

end Commitment

section TwoRanges
open FeedFollower

def genesisHead : FeedHead :=
  ⟨0, .classical, [7], 0, ⟨mhBlake3 :: genesisDigest.val⟩, 0, [7], [], ""⟩

def nextHead : FeedHead := ⟨0, .classical, [7], 1, ⟨mhBlake3 :: nextDigest.val⟩, 1, [7], [], ""⟩

theorem head_commits_to_history_two_ranges :
    [nextEntry] <:+ [genesisEntry, nextEntry] ∨ [genesisEntry, nextEntry] <:+ [nextEntry] := by
  have hid : Set.InjOn (FeedEntry.entryId twoDigests)
      {e | e ∈ [nextEntry] ∨ e ∈ [genesisEntry, nextEntry]} := by
    have hdiffer : genesisEntry.entryId twoDigests ≠ nextEntry.entryId twoDigests := by decide
    have hmem : ∀ e, e ∈ [nextEntry] ∨ e ∈ [genesisEntry, nextEntry] →
        e = genesisEntry ∨ e = nextEntry := by
      intro e he
      rcases he with he | he
      · exact Or.inr (List.mem_singleton.mp he)
      · simpa using he
    intro e he e' he' heq
    rcases hmem e he with rfl | rfl
    · rcases hmem e' he' with rfl | rfl
      · rfl
      · exact absurd heq hdiffer
    · rcases hmem e' he' with rfl | rfl
      · exact absurd heq.symm hdiffer
      · rfl
  exact (head_commits_to_history nextHead [nextEntry] [genesisEntry, nextEntry] (by decide)
    (by decide) hid).1

end TwoRanges

namespace FeedFollower
section Answers
variable {blake3 : Bytes → Digest} {verifyDomain : Bytes → Bytes → Bytes → Bytes → Bool}
  {f : FeedFollower} {head : FeedHead} {entries : List FeedEntry}

/-- Once the head is known to be the publisher's, the call fails with the rollback check. -/
theorem accept_of_decision_error (hpub : head.publisher = f.publisher)
    (hverify : head.verify verifyDomain = .ok ()) {e : PubError} (hdec : f.decision head = .error e) :
    (accept blake3 verifyDomain head entries).run.run f = (.error e, f) := by
  change (if head.publisher ≠ f.publisher then (throw .feedSigInvalid : Method RollbackDecision)
    else _).run.run f = _
  rw [if_neg (not_not.mpr hpub), hverify, hdec]
  rfl

theorem accept_nil (hpub : head.publisher = f.publisher)
    (hverify : head.verify verifyDomain = .ok ()) {d : RollbackDecision}
    (hdec : f.decision head = .ok d) :
    (accept blake3 verifyDomain head []).run.run f =
      (if d = .acceptNew then .error .feedChainBroken else .ok d, f) := by
  change (if head.publisher ≠ f.publisher then (throw .feedSigInvalid : Method RollbackDecision)
    else _).run.run f = _
  rw [if_neg (not_not.mpr hpub), hverify, hdec]
  cases d with
  | acceptNew => rfl
  | acceptIdempotent => rfl

theorem accept_cons (hpub : head.publisher = f.publisher)
    (hverify : head.verify verifyDomain = .ok ()) {d : RollbackDecision}
    (hdec : f.decision head = .ok d) {first : FeedEntry} {rest : List FeedEntry}
    (hchain : verifyFeedChainToHead blake3 (first :: rest) head = .ok ())
    (hjoin : f.checkJoin first = .ok ())
    (hcommitted : f.checkCommitted blake3 (first :: rest) = .ok ()) :
    (accept blake3 verifyDomain head (first :: rest)).run.run f =
      (.ok d, commit blake3 head (first :: rest) f) := by
  change (if head.publisher ≠ f.publisher then (throw .feedSigInvalid : Method RollbackDecision)
    else _).run.run f = _
  rw [if_neg (not_not.mpr hpub), hverify, hdec]
  dsimp only
  rw [hchain, hjoin, hcommitted]
  rfl

end Answers
end FeedFollower

/-- A feed whose every entry names the one before it, and that does not reach the last position of
all. -/
structure HonestFeed (blake3 : Bytes → Digest) where
  entries : List FeedEntry
  position : ∀ k (e : FeedEntry), entries[k]? = some e → e.pos = k
  genesis : ∀ e : FeedEntry, entries[0]? = some e → e.prev = none
  linked : ∀ k (e e' : FeedEntry), entries[k]? = some e → entries[k + 1]? = some e' → e.Links blake3 e'
  bounded : entries.length < 2 ^ 64

namespace HonestFeed
variable {blake3 : Bytes → Digest} (feed : HonestFeed blake3)

/-- The entries from position `i` up to position `k`. -/
def range (i k : ℕ) : List FeedEntry := (feed.entries.take (k + 1)).drop i

/-- A verified head of this feed at position `k`. -/
structure HeadAt (verifyDomain : Bytes → Bytes → Bytes → Bytes → Bool) (publisher : Bytes) (k : ℕ)
    (head : FeedHead) : Prop where
  published : head.publisher = publisher
  verified : head.verify verifyDomain = .ok ()
  names : ∃ e, feed.entries[k]? = some e ∧ head.seq = e.seq ∧ head.tip = e.entryId blake3

/-- A call with a verified head of this feed and some range of it. -/
structure Offers (verifyDomain : Bytes → Bytes → Bytes → Bytes → Bool) (publisher : Bytes)
    (x : FeedFollower.Fetch) : Prop where
  head : ∃ k, feed.HeadAt verifyDomain publisher k x.head
  range : x.entries <:+: feed.entries

variable {feed}

theorem mem_pos {e : FeedEntry} (he : e ∈ feed.entries) : feed.entries[e.pos]? = some e := by
  obtain ⟨k, hk⟩ := List.mem_iff_getElem?.mp he
  rw [feed.position k e hk]
  exact hk

theorem eq_of_seq {e e' : FeedEntry} (he : e ∈ feed.entries) (he' : e' ∈ feed.entries)
    (hseq : e.seq = e'.seq) : e = e' := by
  have hpos : e.pos = e'.pos := congrArg UInt64.toNat hseq
  have hat := mem_pos he
  rw [hpos, mem_pos he'] at hat
  exact (Option.some.inj hat).symm

theorem precedes {k : ℕ} {e e' : FeedEntry} (h : feed.entries[k]? = some e)
    (h' : feed.entries[k + 1]? = some e') : e.Precedes blake3 e' := by
  refine ⟨?_, feed.linked k e e' h h'⟩
  have hpos : e.seq.toNat = k := feed.position k e h
  have hpos' : e'.seq.toNat = k + 1 := feed.position (k + 1) e' h'
  have hlt : k + 1 < feed.entries.length := (List.getElem?_eq_some_iff.mp h').1
  have hbound := feed.bounded
  apply UInt64.toNat_inj.mp
  rw [toNat_add_one (by omega), hpos, hpos']

theorem not_prevMisplaced {e : FeedEntry} (he : e ∈ feed.entries) :
    FeedEntry.prevMisplaced e.seq e.prev = false := by
  have hat := mem_pos he
  cases hk : e.pos with
  | zero =>
    have hseq : e.seq = 0 := UInt64.toNat_inj.mp hk
    rw [hk] at hat
    rw [feed.genesis e hat, hseq]
    rfl
  | succ k =>
    have hseq : e.seq ≠ 0 := by
      intro hzero
      have hpos : e.pos = 0 := congrArg UInt64.toNat hzero
      omega
    rw [hk] at hat
    have hlt := (List.getElem?_eq_some_iff.mp hat).1
    have hprev : e.prev = some (feed.entries[k].entryId blake3) :=
      feed.linked k _ e (List.getElem?_eq_getElem (by omega)) hat
    rw [hprev]
    unfold FeedEntry.prevMisplaced
    simp [hseq]

theorem verifies : verifyFeedChain blake3 feed.entries = .ok () := by
  refine verifyFeedChain_eq_ok_iff.mpr ⟨fun e he => not_prevMisplaced he, ?_⟩
  refine List.isChain_iff_getElem.mpr (fun k hk => ?_)
  exact precedes (List.getElem?_eq_getElem (by omega)) (List.getElem?_eq_getElem hk)

/-- Every range of the feed passes the chain rules. -/
theorem verifies_of_isInfix {entries : List FeedEntry} (h : entries <:+: feed.entries) :
    verifyFeedChain blake3 entries = .ok () := by
  obtain ⟨hmis, hchain⟩ := verifyFeedChain_eq_ok_iff.mp feed.verifies
  exact verifyFeedChain_eq_ok_iff.mpr ⟨fun e he => hmis e (h.subset he), hchain.infix h⟩

theorem range_isInfix (i k : ℕ) : feed.range i k <:+: feed.entries :=
  ((feed.entries.take (k + 1)).drop_suffix i).isInfix.trans (List.take_prefix _ _).isInfix

theorem head?_range {i k : ℕ} (hik : i ≤ k) : (feed.range i k).head? = feed.entries[i]? := by
  unfold range
  rw [List.head?_drop, List.getElem?_take_of_lt (by omega)]

theorem getLast?_range {i k : ℕ} {e : FeedEntry} (hik : i ≤ k) (h : feed.entries[k]? = some e) :
    (feed.range i k).getLast? = some e := by
  have hlt : k < feed.entries.length := (List.getElem?_eq_some_iff.mp h).1
  unfold range
  rw [List.getLast?_drop, List.length_take, if_neg (by omega), List.getLast?_take,
    if_neg (by omega), Nat.add_sub_cancel, h, Option.some_or]

/-- The state of a follower that has been given nothing but this feed. -/
structure Retained (feed : HonestFeed blake3) (publisher : Bytes) (f : FeedFollower) : Prop where
  publisher_eq : f.publisher = publisher
  agrees : ∀ e ∈ feed.entries, ∀ c, f.accepted.get? e.seq = some c → c = e.entryId blake3
  tip : (f.lastSeq = none ∧ f.lastTip = none) ∨ ∃ e ∈ feed.entries,
    f.lastSeq = some e.seq ∧ f.lastTip = some (e.entryId blake3)

section Checks
variable {verifyDomain : Bytes → Bytes → Bytes → Bytes → Bool} {publisher : Bytes}
  {f : FeedFollower} {k : ℕ} {head : FeedHead}

theorem HeadAt.toNat_seq (h : feed.HeadAt verifyDomain publisher k head) : head.seq.toNat = k := by
  obtain ⟨e, he, hseq, -⟩ := h.names
  rw [hseq]
  exact feed.position k e he

/-- A head is refused for its position exactly when it is behind the retained one. -/
theorem Retained.decision_eq_ok_iff (hf : feed.Retained publisher f)
    (hhead : feed.HeadAt verifyDomain publisher k head) :
    (∃ d, f.decision head = .ok d) ↔
      f.lastSeq = none ∨ ∃ last, f.lastSeq = some last ∧ last.toNat ≤ k := by
  constructor
  · rintro ⟨d, hdec⟩
    cases hlast : f.lastSeq with
    | none => exact Or.inl rfl
    | some last =>
      have hle := UInt64.le_iff_toNat_le.mp (FeedFollower.le_of_decision hlast hdec)
      rw [hhead.toNat_seq] at hle
      exact Or.inr ⟨last, rfl, hle⟩
  · intro h
    unfold FeedFollower.decision
    rcases h with hnone | ⟨last, hlast, hle⟩
    · rw [hnone]
      exact ⟨_, rfl⟩
    · rw [hlast]
      dsimp only
      unfold checkAntiRollback
      have hnot : ¬ head.seq < last := by
        rw [UInt64.not_lt, UInt64.le_iff_toNat_le, hhead.toNat_seq]
        exact hle
      rw [if_neg hnot]
      by_cases hgt : last < head.seq
      · rw [if_pos hgt]
        exact ⟨_, rfl⟩
      · rw [if_neg hgt]
        have heq : last = head.seq :=
          UInt64.le_antisymm (UInt64.not_lt.mp hnot) (UInt64.not_lt.mp hgt)
        rcases hf.tip with ⟨hnone, -⟩ | ⟨e, he, hseq, htip⟩
        · rw [hnone] at hlast
          cases hlast
        · obtain ⟨e', he', hseq', htip'⟩ := hhead.names
          rw [hlast] at hseq
          have hee : e = e' := eq_of_seq he (List.mem_of_getElem? he')
            ((Option.some.inj hseq).symm.trans (heq.trans hseq'))
          rw [htip, htip', hee]
          exact ⟨.acceptIdempotent, by simp⟩

theorem decision_acceptNew_iff {d : RollbackDecision} (hdec : f.decision head = .ok d) :
    d = .acceptNew ↔ f.lastSeq ≠ some head.seq := by
  unfold FeedFollower.decision at hdec
  cases hlast : f.lastSeq with
  | none =>
    rw [hlast] at hdec
    have hd : d = .acceptNew := (Except.ok.inj hdec).symm
    simp [hd]
  | some last =>
    rw [hlast] at hdec
    dsimp only at hdec
    unfold checkAntiRollback at hdec
    split_ifs at hdec with hlt hgt
    · have hd : d = .acceptNew := (Except.ok.inj hdec).symm
      have hne : last ≠ head.seq := fun h => UInt64.lt_irrefl _ (h ▸ hgt)
      simp [hd, hne]
    · have heq : last = head.seq :=
        UInt64.le_antisymm (UInt64.not_lt.mp hlt) (UInt64.not_lt.mp hgt)
      have hd : d = .acceptIdempotent := by
        cases htip : f.lastTip with
        | none =>
          rw [htip] at hdec
          exact (Except.ok.inj hdec).symm
        | some t =>
          rw [htip] at hdec
          dsimp only at hdec
          split_ifs at hdec
          exact (Except.ok.inj hdec).symm
      simp [hd, heq]

/-- A range joins the retained history exactly when it leaves no gap. -/
theorem Retained.checkJoin_eq_ok_iff (hf : feed.Retained publisher f) {i : ℕ} {first : FeedEntry}
    (hfirst : feed.entries[i]? = some first) :
    f.checkJoin first = .ok () ↔
      f.lastSeq = none ∨ ∃ last, f.lastSeq = some last ∧ i ≤ last.toNat + 1 := by
  have hpos : first.seq.toNat = i := feed.position i first hfirst
  unfold FeedFollower.checkJoin
  rcases hf.tip with ⟨hnone, -⟩ | ⟨e, he, hseq, htip⟩
  · rw [hnone]
    simp
  · rw [hseq, htip]
    dsimp only
    have hat := mem_pos he
    have hlt := (List.getElem?_eq_some_iff.mp hat).1
    have hbound := feed.bounded
    have hsucc : (e.seq + 1).toNat = e.seq.toNat + 1 := by
      apply toNat_add_one
      change e.pos < _
      omega
    have hgap : e.seq + 1 < first.seq ↔ e.seq.toNat + 1 < i := by
      rw [UInt64.lt_iff_toNat_lt, hsucc, hpos]
    constructor
    · intro h
      refine Or.inr ⟨e.seq, rfl, ?_⟩
      split_ifs at h with hlater
      · rw [hgap] at hlater
        omega
      · rw [hgap] at hlater
        omega
    · rintro (h | ⟨last, hlast, hle⟩)
      · cases h
      · obtain rfl := Option.some.inj hlast
        rw [if_neg (by rw [hgap]; omega)]
        by_cases hnext : first.seq = e.seq + 1
        · have hi : i = e.pos + 1 := by
            rw [← hpos, hnext]
            exact hsucc
          rw [hi] at hfirst
          have hprev : first.prev = some (e.entryId blake3) := feed.linked e.pos e first hat hfirst
          rw [if_pos hnext, hprev]
          simp
        · rw [if_neg hnext]

theorem Retained.checkCommitted (hf : feed.Retained publisher f) {entries : List FeedEntry}
    (h : ∀ e ∈ entries, e ∈ feed.entries) : f.checkCommitted blake3 entries = .ok () := by
  induction entries with
  | nil => rfl
  | cons e entries ih =>
    obtain ⟨he, hrest⟩ := List.forall_mem_cons.mp h
    unfold FeedFollower.checkCommitted
    cases hknown : f.accepted.get? e.seq with
    | none => exact ih hrest
    | some known =>
      dsimp only
      rw [if_neg (not_not.mpr (hf.agrees e he known hknown))]
      exact ih hrest

end Checks

section Runs
open FeedFollower
variable {verifyDomain : Bytes → Bytes → Bytes → Bytes → Bool} {publisher : Bytes}
  {f : FeedFollower} {k : ℕ} {head : FeedHead}

theorem retained_new (publisher : Bytes) : feed.Retained publisher (.new publisher) where
  publisher_eq := rfl
  agrees := by
    intro e _ c hc
    simp [FeedFollower.new] at hc
  tip := Or.inl ⟨rfl, rfl⟩

/-- A recorded range of the feed leaves the state of a follower of the feed. -/
theorem Retained.commit (hf : feed.Retained publisher f)
    (hhead : feed.HeadAt verifyDomain publisher k head) {d : RollbackDecision}
    (hdec : f.decision head = .ok d) {entries : List FeedEntry}
    (h : ∀ e ∈ entries, e ∈ feed.entries) :
    feed.Retained publisher (commit blake3 head entries f) := by
  rw [commit_eq hdec]
  refine ⟨hf.publisher_eq, fun e he c hc => ?_, Or.inr ?_⟩
  · dsimp only at hc
    by_cases hin : e ∈ entries
    · have hval : ∀ x ∈ entries, ∀ y ∈ entries, x.seq = y.seq →
          x.entryId blake3 = y.entryId blake3 := by
        intro x hx y hy hseq
        rw [eq_of_seq (h x hx) (h y hy) hseq]
      rw [SortedMap.get?_insertAll_of_mem _ hval hin] at hc
      exact (Option.some.inj hc).symm
    · have hne : ∀ y ∈ entries, y.seq ≠ e.seq := by
        intro y hy hseq
        rw [eq_of_seq (h y hy) he hseq] at hy
        exact hin hy
      rw [SortedMap.get?_insertAll_of_forall_ne _ hne] at hc
      exact hf.agrees e he c hc
  · obtain ⟨e, he, hseq, htip⟩ := hhead.names
    exact ⟨e, List.mem_of_getElem? he, congrArg some hseq, congrArg some htip⟩

theorem Retained.step (hf : feed.Retained publisher f) {x : Fetch}
    (hx : feed.Offers verifyDomain publisher x) :
    feed.Retained publisher (f.step blake3 verifyDomain x) := by
  obtain ⟨k, hhead⟩ := hx.head
  have hrun : (accept blake3 verifyDomain x.head x.entries).run.run f =
      (f.outcome blake3 verifyDomain x, f.step blake3 verifyDomain x) := rfl
  rcases accept_cases hrun with ⟨_, -, hg⟩ | ⟨_, -, -, hg⟩ | ⟨d, _, _, -, -, hdec, -, -, -, hg⟩
  · rw [hg]
    exact hf
  · rw [hg]
    exact hf
  · rw [hg]
    exact hf.commit hhead hdec fun e he => hx.range.subset he

/-- By induction on the calls. -/
theorem Retained.follow (hf : feed.Retained publisher f) {fetches : List Fetch}
    (hx : ∀ x ∈ fetches, feed.Offers verifyDomain publisher x) :
    feed.Retained publisher (f.follow blake3 verifyDomain fetches) := by
  induction fetches generalizing f with
  | nil => exact hf
  | cons x fetches ih =>
    obtain ⟨hx0, hxs⟩ := List.forall_mem_cons.mp hx
    exact ih (hf.step hx0) hxs

theorem Retained.outcome_range_iff (hf : feed.Retained publisher f)
    (hhead : feed.HeadAt verifyDomain publisher k head) {i : ℕ} (hik : i ≤ k) :
    (∃ d, f.outcome blake3 verifyDomain ⟨head, feed.range i k⟩ = .ok d) ↔
      f.lastSeq = none ∨ ∃ last, f.lastSeq = some last ∧ last.toNat ≤ k ∧ i ≤ last.toNat + 1 := by
  have hpub : head.publisher = f.publisher := hhead.published.trans hf.publisher_eq.symm
  obtain ⟨e, he, hseq, htip⟩ := hhead.names
  have hlt : k < feed.entries.length := (List.getElem?_eq_some_iff.mp he).1
  have hfirst : feed.entries[i]? = some feed.entries[i] := List.getElem?_eq_getElem (by omega)
  obtain ⟨rest, hrange⟩ := List.head?_eq_some_iff.mp ((head?_range hik).trans hfirst)
  have hmem : ∀ e ∈ feed.range i k, e ∈ feed.entries := fun e he => (range_isInfix i k).subset he
  have hjoin := hf.checkJoin_eq_ok_iff hfirst
  have hdecision := hf.decision_eq_ok_iff hhead
  constructor
  · rintro ⟨d, hok⟩
    have hrun : (accept blake3 verifyDomain head (feed.range i k)).run.run f =
        (.ok d, f.step blake3 verifyDomain ⟨head, feed.range i k⟩) := Prod.ext hok rfl
    rcases accept_cases hrun with ⟨_, hbad, -⟩ | ⟨_, -, hnil, -⟩ |
      ⟨d, first, _, -, hcons, hdec, -, hjoined, -⟩
    · cases hbad
    · rw [hrange] at hnil
      cases hnil
    · rw [hrange] at hcons
      rw [← (List.cons.inj hcons).1, hjoin] at hjoined
      rcases hdecision.mp ⟨d, hdec⟩ with hnone | ⟨last, hlast, hle⟩
      · exact Or.inl hnone
      · rcases hjoined with hnone | ⟨last', hlast', hle'⟩
        · exact Or.inl hnone
        · rw [hlast] at hlast'
          obtain rfl := Option.some.inj hlast'
          exact Or.inr ⟨last, hlast, hle, hle'⟩
  · intro h
    have hdec : ∃ d, f.decision head = .ok d := by
      refine hdecision.mpr (h.imp id ?_)
      rintro ⟨last, hlast, hle, -⟩
      exact ⟨last, hlast, hle⟩
    have hjoined : f.checkJoin feed.entries[i] = .ok () := by
      refine hjoin.mpr (h.imp id ?_)
      rintro ⟨last, hlast, -, hle⟩
      exact ⟨last, hlast, hle⟩
    have hchain : verifyFeedChainToHead blake3 (feed.range i k) head = .ok () :=
      verifyFeedChainToHead_eq_ok_iff.mpr
        ⟨verifies_of_isInfix (range_isInfix i k), e, getLast?_range hik he, hseq.symm, htip.symm⟩
    have hcommitted := hf.checkCommitted hmem
    obtain ⟨d, hdec⟩ := hdec
    rw [hrange] at hchain hcommitted ⊢
    have hrun := accept_cons hpub hhead.verified hdec hchain hjoined hcommitted
    exact ⟨d, congrArg Prod.fst hrun⟩

theorem Retained.outcome_nil_iff (hf : feed.Retained publisher f)
    (hhead : feed.HeadAt verifyDomain publisher k head) :
    (∃ d, f.outcome blake3 verifyDomain ⟨head, []⟩ = .ok d) ↔
      ∃ last, f.lastSeq = some last ∧ last.toNat = k := by
  have hpub : head.publisher = f.publisher := hhead.published.trans hf.publisher_eq.symm
  have hretained : f.lastSeq = some head.seq ↔ ∃ last, f.lastSeq = some last ∧ last.toNat = k := by
    rw [← hhead.toNat_seq]
    constructor
    · intro h
      exact ⟨head.seq, h, rfl⟩
    · rintro ⟨last, hlast, hpos⟩
      rw [hlast, UInt64.toNat_inj.mp hpos]
  rw [← hretained]
  constructor
  · rintro ⟨d, hok⟩
    cases hdec : f.decision head with
    | error e =>
      have hrun : (accept blake3 verifyDomain head []).run.run f = _ :=
        accept_of_decision_error hpub hhead.verified hdec
      have hbad : f.outcome blake3 verifyDomain ⟨head, []⟩ = .error e := congrArg Prod.fst hrun
      rw [hok] at hbad
      cases hbad
    | ok d' =>
      have hrun : (accept blake3 verifyDomain head []).run.run f = _ :=
        accept_nil hpub hhead.verified hdec
      have hif : f.outcome blake3 verifyDomain ⟨head, []⟩ =
          if d' = .acceptNew then .error .feedChainBroken else .ok d' := congrArg Prod.fst hrun
      rw [hok] at hif
      split_ifs at hif with hnew
      rw [decision_acceptNew_iff hdec, not_not] at hnew
      exact hnew
  · intro h
    obtain ⟨d, hdec⟩ := (hf.decision_eq_ok_iff hhead).mpr
      (Or.inr ⟨head.seq, h, hhead.toNat_seq.le⟩)
    have hnew : d ≠ .acceptNew := by
      rw [ne_eq, decision_acceptNew_iff hdec, not_not]
      exact h
    have hrun : (accept blake3 verifyDomain head []).run.run f = _ :=
      accept_nil hpub hhead.verified hdec
    rw [if_neg hnew] at hrun
    exact ⟨d, congrArg Prod.fst hrun⟩

/-- After a successful call the head is the retained one. -/
theorem Retained.step_of_ok (hf : feed.Retained publisher f)
    (hhead : feed.HeadAt verifyDomain publisher k head) {entries : List FeedEntry}
    {d : RollbackDecision} (hok : f.outcome blake3 verifyDomain ⟨head, entries⟩ = .ok d) :
    (f.step blake3 verifyDomain ⟨head, entries⟩).lastSeq = some head.seq ∧
      (f.step blake3 verifyDomain ⟨head, entries⟩).lastTip = some head.tip := by
  have hrun : (accept blake3 verifyDomain head entries).run.run f =
      (.ok d, f.step blake3 verifyDomain ⟨head, entries⟩) := Prod.ext hok rfl
  rcases accept_cases hrun with ⟨_, hbad, -⟩ | ⟨_, -, rfl, hg⟩ | ⟨d, _, _, -, -, hdec, -, -, -, hg⟩
  · cases hbad
  · rw [hg]
    obtain ⟨last, hlast, hpos⟩ := (hf.outcome_nil_iff hhead).mp ⟨d, hok⟩
    obtain ⟨e, he, hseq, htip⟩ := hhead.names
    have hlastSeq : last = head.seq := UInt64.toNat_inj.mp (hpos.trans hhead.toNat_seq.symm)
    rcases hf.tip with ⟨hnone, -⟩ | ⟨e', he', hseq', htip'⟩
    · rw [hnone] at hlast
      cases hlast
    · rw [hlast] at hseq'
      have hee : e' = e := eq_of_seq he' (List.mem_of_getElem? he)
        ((Option.some.inj hseq').symm.trans (hlastSeq.trans hseq))
      rw [hlast, hlastSeq, htip', htip, hee]
      exact ⟨rfl, rfl⟩
  · rw [hg, commit_eq hdec]
    exact ⟨rfl, rfl⟩

end Runs

section Main
open FeedFollower

/-- Overlapping, adjacent, backfilling and repeated ranges of an honest feed are all accepted, and
nothing of it that is behind the retained position or leaves a gap. -/
theorem follower_accepts_honest_iff (feed : HonestFeed blake3)
    (verifyDomain : Bytes → Bytes → Bytes → Bytes → Bool) (publisher : Bytes)
    (fetches : List Fetch) (hfetches : ∀ x ∈ fetches, feed.Offers verifyDomain publisher x)
    (k : ℕ) (head : FeedHead) (hhead : feed.HeadAt verifyDomain publisher k head) :
    let f := (FeedFollower.new publisher).follow blake3 verifyDomain fetches
    (∀ i ≤ k, (∃ d, f.outcome blake3 verifyDomain ⟨head, feed.range i k⟩ = .ok d) ↔
      f.lastSeq = none ∨ ∃ last, f.lastSeq = some last ∧ last.toNat ≤ k ∧ i ≤ last.toNat + 1) ∧
    ((∃ d, f.outcome blake3 verifyDomain ⟨head, []⟩ = .ok d) ↔
      ∃ last, f.lastSeq = some last ∧ last.toNat = k) ∧
    ∀ entries d, f.outcome blake3 verifyDomain ⟨head, entries⟩ = .ok d →
      (f.step blake3 verifyDomain ⟨head, entries⟩).lastSeq.map UInt64.toNat = some k ∧
        (f.step blake3 verifyDomain ⟨head, entries⟩).lastTip =
          feed.entries[k]?.map (FeedEntry.entryId blake3) := by
  intro f
  have hf : feed.Retained publisher f := (retained_new publisher).follow hfetches
  refine ⟨fun i hik => hf.outcome_range_iff hhead hik, hf.outcome_nil_iff hhead,
    fun entries d hok => ?_⟩
  obtain ⟨hseq, htip⟩ := hf.step_of_ok hhead hok
  obtain ⟨e, he, -, hid⟩ := hhead.names
  rw [hseq, htip, he, hid]
  exact ⟨congrArg some hhead.toNat_seq, rfl⟩

def twoEntryFeed : HonestFeed twoDigests where
  entries := [genesisEntry, nextEntry]
  position := by
    intro k e h
    match k with
    | 0 =>
      obtain rfl := Option.some.inj h
      rfl
    | 1 =>
      obtain rfl := Option.some.inj h
      rfl
  genesis := by
    intro e h
    obtain rfl := Option.some.inj h
    rfl
  linked := by
    intro k e e' h h'
    match k with
    | 0 =>
      obtain rfl := Option.some.inj h
      obtain rfl := Option.some.inj h'
      change nextEntry.prev = some (genesisEntry.entryId twoDigests)
      decide
  bounded := by decide

theorem follower_accepts_honest_after_genesis :
    ∃ d, ((FeedFollower.new [7]).follow twoDigests (fun _ _ _ _ => true)
      [⟨genesisHead, [genesisEntry]⟩]).outcome twoDigests (fun _ _ _ _ => true)
        ⟨nextHead, twoEntryFeed.range 1 1⟩ = .ok d := by
  have hgenesis : twoEntryFeed.HeadAt (fun _ _ _ _ => true) [7] 0 genesisHead :=
    ⟨rfl, by decide, genesisEntry, rfl, rfl, by decide⟩
  have hnext : twoEntryFeed.HeadAt (fun _ _ _ _ => true) [7] 1 nextHead :=
    ⟨rfl, by decide, nextEntry, rfl, rfl, by decide⟩
  have hfetches : ∀ x ∈ ([⟨genesisHead, [genesisEntry]⟩] : List Fetch),
      twoEntryFeed.Offers (fun _ _ _ _ => true) [7] x := by
    intro x hx
    obtain rfl := List.mem_singleton.mp hx
    exact ⟨⟨0, hgenesis⟩, [], [nextEntry], rfl⟩
  exact ((follower_accepts_honest_iff twoEntryFeed (fun _ _ _ _ => true) [7] _ hfetches 1 nextHead
    hnext).1 1 (le_refl _)).mpr (Or.inr ⟨0, by decide, by decide, by decide⟩)

end Main

end HonestFeed

end Dmtap.Pub
