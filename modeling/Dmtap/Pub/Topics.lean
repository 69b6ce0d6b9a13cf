import Dmtap.Pub.Feed

/-! Topics of one publisher. The follower's state has no topic, so the feeds of one publisher stay
apart exactly when only one of them is shown to it. -/
namespace Dmtap.Pub.FeedFollower
open Dmtap.Lib Dmtap.Cbor

deriving instance DecidableEq for FeedHead

section Fetches
variable (blake3 : Bytes → Digest) (verifyDomain : Bytes → Bytes → Bytes → Bytes → Bool)

/-- The head is the publisher's own and its signature verifies. -/
def Fetch.Signed (publisher : Bytes) (x : Fetch) : Prop :=
  x.head.publisher = publisher ∧ x.head.verify verifyDomain = .ok ()

/-- The range is a consistent chain that ends at the head. -/
def Fetch.Chained (x : Fetch) : Prop := verifyFeedChainToHead blake3 x.entries x.head = .ok ()

instance (publisher : Bytes) : DecidablePred (Fetch.Signed verifyDomain publisher) := fun x =>
  inferInstanceAs (Decidable (x.head.publisher = publisher ∧ x.head.verify verifyDomain = .ok ()))

instance : DecidablePred (Fetch.Chained blake3) := fun x =>
  inferInstanceAs (Decidable (verifyFeedChainToHead blake3 x.entries x.head = .ok ()))

/-- The retained head once more, without entries. -/
structure Fetch.Repeats (f : FeedFollower) (x : Fetch) : Prop where
  entries : x.entries = []
  seq : f.lastSeq = some x.head.seq
  tip : f.lastTip = some x.head.tip

/-- The heads accepted along a run. -/
def acceptedHeads : FeedFollower → List Fetch → List FeedHead
  | _, [] => []
  | f, x :: fetches =>
    (if (f.outcome blake3 verifyDomain x).isOk then [x.head] else []) ++
      acceptedHeads (f.step blake3 verifyDomain x) fetches

/-- The topics of the publisher do not mix along a run: all accepted heads have one topic, and a
signed and chained head of another topic is neither recorded nor reported as an attack. -/
structure TopicsApart (publisher : Bytes) (fetches : List Fetch) : Prop where
  accepted : ∀ h ∈ (new publisher).acceptedHeads blake3 verifyDomain fetches,
    ∀ h' ∈ (new publisher).acceptedHeads blake3 verifyDomain fetches, h.topic = h'.topic
  foreign : ∀ pre x post, fetches = pre ++ x :: post →
    ∀ h ∈ (new publisher).acceptedHeads blake3 verifyDomain pre,
      x.Signed verifyDomain publisher → x.Chained blake3 → x.head.topic ≠ h.topic →
        let f := (new publisher).follow blake3 verifyDomain pre
        f.step blake3 verifyDomain x = f ∧
          f.outcome blake3 verifyDomain x ≠ .error .feedChainBroken ∧
          f.outcome blake3 verifyDomain x ≠ .error .feedRollback

/-- Only one topic is shown: by signed heads with a chain to them, and by signed heads that repeat
the retained one. -/
def OneTopicShown (publisher : Bytes) (fetches : List Fetch) : Prop :=
  ∃ topic, ∀ pre x post, fetches = pre ++ x :: post → x.Signed verifyDomain publisher →
    (x.Chained blake3 ∨ x.Repeats ((new publisher).follow blake3 verifyDomain pre)) →
      x.head.topic = topic

end Fetches

section Errors
variable {blake3 : Bytes → Digest} {f : FeedFollower} {head : FeedHead} {entries : List FeedEntry}

theorem verifyFeedChainFrom_error {before : Option FeedEntry} {e : PubError}
    (h : verifyFeedChainFrom blake3 before entries = .error e) : e = .feedChainBroken := by
  induction entries generalizing before with
  | nil => cases h
  | cons x entries ih =>
    unfold verifyFeedChainFrom at h
    split_ifs at h
    · exact (Except.error.inj h).symm
    · cases before with
      | none => exact ih h
      | some p =>
        dsimp only at h
        split_ifs at h
        · exact (Except.error.inj h).symm
        · exact (Except.error.inj h).symm
        · exact ih h

theorem verifyFeedChainToHead_error {e : PubError}
    (h : verifyFeedChainToHead blake3 entries head = .error e) : e = .feedChainBroken := by
  unfold verifyFeedChainToHead at h
  cases hchain : verifyFeedChain blake3 entries with
  | error e' =>
    rw [hchain] at h
    obtain rfl : e' = e := Except.error.inj h
    exact verifyFeedChainFrom_error hchain
  | ok u =>
    rw [hchain] at h
    cases hlast : entries.getLast? with
    | none =>
      rw [hlast] at h
      exact (Except.error.inj h).symm
    | some last =>
      rw [hlast] at h
      change (if _ then _ else _) = _ at h
      split_ifs at h
      exact (Except.error.inj h).symm

theorem entries_ne_nil_of_chained (h : verifyFeedChainToHead blake3 entries head = .ok ()) :
    entries ≠ [] := by
  rintro rfl
  cases h

theorem checkJoin_error {first : FeedEntry} {e : PubError} (h : f.checkJoin first = .error e) :
    e = .feedChainBroken := by
  unfold checkJoin at h
  cases hlast : f.lastSeq with
  | none =>
    rw [hlast] at h
    cases h
  | some last =>
    rw [hlast] at h
    dsimp only at h
    split_ifs at h
    · exact (Except.error.inj h).symm
    · split at h
      · split_ifs at h
        exact (Except.error.inj h).symm
      · exact (Except.error.inj h).symm

theorem checkCommitted_error {e : PubError} (h : f.checkCommitted blake3 entries = .error e) :
    e = .feedChainBroken := by
  induction entries with
  | nil => cases h
  | cons x entries ih =>
    unfold checkCommitted at h
    split at h
    · split_ifs at h
      · exact (Except.error.inj h).symm
      · exact ih h
    · exact ih h

theorem decision_error {e : PubError} (h : f.decision head = .error e) :
    e = .feedChainBroken ∨ e = .feedRollback := by
  unfold decision at h
  cases hlast : f.lastSeq with
  | none =>
    rw [hlast] at h
    cases h
  | some last =>
    rw [hlast] at h
    dsimp only at h
    unfold checkAntiRollback at h
    split_ifs at h
    · exact Or.inr (Except.error.inj h).symm
    · split at h
      · split_ifs at h
        exact Or.inl (Except.error.inj h).symm
      · cases h

/-- What is neither older nor newer than the retained head is the retained head. -/
theorem repeats_of_decision {tip : ContentId} (htip : f.lastTip = some tip)
    (h : f.decision head = .ok .acceptIdempotent) :
    f.lastSeq = some head.seq ∧ f.lastTip = some head.tip := by
  unfold decision at h
  cases hlast : f.lastSeq with
  | none =>
    rw [hlast] at h
    cases h
  | some last =>
    rw [hlast, htip] at h
    dsimp only at h
    unfold checkAntiRollback at h
    split_ifs at h with hlt hgt
    · cases h
    · dsimp only at h
      split_ifs at h with hne
      rw [ne_eq, not_not] at hne
      rw [UInt64.le_antisymm (UInt64.not_lt.mp hgt) (UInt64.not_lt.mp hlt), htip, hne]
      exact ⟨rfl, rfl⟩

theorem decision_of_repeats (hseq : f.lastSeq = some head.seq)
    (htip : f.lastTip = some head.tip) : f.decision head = .ok .acceptIdempotent := by
  unfold decision checkAntiRollback
  rw [hseq, htip]
  simp

end Errors

section Outcomes
variable {blake3 : Bytes → Digest} {verifyDomain : Bytes → Bytes → Bytes → Bytes → Bool}
  {f : FeedFollower} {x : Fetch}

theorem accept_run (blake3 : Bytes → Digest) (verifyDomain : Bytes → Bytes → Bytes → Bytes → Bool)
    (f : FeedFollower) (x : Fetch) : (accept blake3 verifyDomain x.head x.entries).run.run f =
      (f.outcome blake3 verifyDomain x, f.step blake3 verifyDomain x) := rfl

/-- How a run of a check can fail, when the check can only report one of two errors. -/
theorem check_bind_run_of_error {α β : Type} {y : Except PubError α} {k : α → Method β}
    {r : Except PubError β} {g : FeedFollower}
    (hy : ∀ e, y = .error e → e = .feedChainBroken ∨ e = .feedRollback)
    (h : (check y >>= k).run.run f = (r, g)) :
    (r = .error .feedChainBroken ∨ r = .error .feedRollback) ∨
      ∃ a, y = .ok a ∧ (k a).run.run f = (r, g) := by
  cases y with
  | error e =>
    obtain ⟨rfl, -⟩ := Prod.mk.inj h
    rcases hy e rfl with rfl | rfl
    · exact Or.inl (Or.inl rfl)
    · exact Or.inl (Or.inr rfl)
  | ok a => exact Or.inr ⟨a, rfl, h⟩

theorem check_ok_bind_run {α β : Type} {y : Except PubError α} {k : α → Method β} {a : α}
    {r : Except PubError β} {g : FeedFollower} (hy : y = .ok a)
    (h : (check y >>= k).run.run f = (r, g)) : (k a).run.run f = (r, g) := by
  rw [hy] at h
  exact h

/-- What becomes of a fetch: an unsigned one is refused; a signed one is refused as a broken chain
or a rollback, or it is accepted with a chain to its head or as a repetition. -/
theorem outcome_cases (blake3 : Bytes → Digest)
    (verifyDomain : Bytes → Bytes → Bytes → Bytes → Bool) (f : FeedFollower) (x : Fetch) :
    (¬ x.Signed verifyDomain f.publisher ∧ ∃ e, f.outcome blake3 verifyDomain x = .error e) ∨
      x.Signed verifyDomain f.publisher ∧
        ((f.outcome blake3 verifyDomain x = .error .feedChainBroken ∨
            f.outcome blake3 verifyDomain x = .error .feedRollback) ∨
          ∃ d, f.outcome blake3 verifyDomain x = .ok d ∧ f.decision x.head = .ok d ∧
            (x.Chained blake3 ∨ x.entries = [] ∧ d = .acceptIdempotent)) := by
  have h := accept_run blake3 verifyDomain f x
  generalize f.outcome blake3 verifyDomain x = r at h ⊢
  generalize f.step blake3 verifyDomain x = g at h
  change (if x.head.publisher ≠ f.publisher then
    (throw .feedSigInvalid : Method RollbackDecision) else _).run.run f = (r, g) at h
  split_ifs at h with hpub
  · obtain ⟨rfl, -⟩ := Prod.mk.inj h
    exact Or.inl ⟨fun hs => hpub hs.1, _, rfl⟩
  rw [ne_eq, not_not] at hpub
  cases hverify : x.head.verify verifyDomain with
  | error e =>
    rw [hverify] at h
    obtain ⟨rfl, -⟩ := Prod.mk.inj h
    refine Or.inl ⟨fun hs => ?_, _, rfl⟩
    rw [hs.2] at hverify
    cases hverify
  | ok u =>
    rw [hverify] at h
    refine Or.inr ⟨⟨hpub, hverify⟩, ?_⟩
    rcases check_bind_run_of_error (fun e => decision_error) h with herr | ⟨d, hdec, h⟩
    · exact Or.inl herr
    unfold Fetch.Chained
    generalize x.entries = entries at h ⊢
    cases entries with
    | nil =>
      cases d with
      | acceptNew =>
        obtain ⟨rfl, -⟩ := Prod.mk.inj h
        exact Or.inl (Or.inl rfl)
      | acceptIdempotent =>
        obtain ⟨rfl, -⟩ := Prod.mk.inj h
        exact Or.inr ⟨_, rfl, hdec, Or.inr ⟨rfl, rfl⟩⟩
    | cons first rest =>
      rcases check_bind_run_of_error (fun e he => Or.inl (verifyFeedChainToHead_error he)) h with
        herr | ⟨_, hchain, h⟩
      · exact Or.inl herr
      rcases check_bind_run_of_error (fun e he => Or.inl (checkJoin_error he)) h with
        herr | ⟨_, -, h⟩
      · exact Or.inl herr
      rcases check_bind_run_of_error (fun e he => Or.inl (checkCommitted_error he)) h with
        herr | ⟨_, -, h⟩
      · exact Or.inl herr
      obtain ⟨rfl, -⟩ := Prod.mk.inj h
      exact Or.inr ⟨d, rfl, hdec, Or.inl hchain⟩

theorem step_publisher (f : FeedFollower) (x : Fetch) :
    (f.step blake3 verifyDomain x).publisher = f.publisher := by
  have hrun := accept_run blake3 verifyDomain f x
  rcases accept_cases hrun with ⟨_, -, hg⟩ | ⟨_, -, -, hg⟩ | ⟨d, _, _, -, -, hdec, -, -, -, hg⟩
  · rw [hg]
  · rw [hg]
  · rw [hg, commit_eq hdec]

theorem lastTip_step {tip : ContentId} (htip : f.lastTip = some tip) :
    ∃ tip, (f.step blake3 verifyDomain x).lastTip = some tip := by
  have hrun := accept_run blake3 verifyDomain f x
  rcases accept_cases hrun with ⟨_, -, hg⟩ | ⟨_, -, -, hg⟩ | ⟨d, _, _, -, -, hdec, -, -, -, hg⟩
  · rw [hg]
    exact ⟨tip, htip⟩
  · rw [hg]
    exact ⟨tip, htip⟩
  · rw [hg, commit_eq hdec]
    exact ⟨_, rfl⟩

theorem lastTip_step_of_chained (hok : (f.outcome blake3 verifyDomain x).isOk = true)
    (hchained : x.Chained blake3) : ∃ tip, (f.step blake3 verifyDomain x).lastTip = some tip := by
  have hrun := accept_run blake3 verifyDomain f x
  rcases accept_cases hrun with ⟨_, herr, -⟩ | ⟨_, -, hnil, -⟩ | ⟨d, _, _, -, -, hdec, -, -, -, hg⟩
  · rw [herr] at hok
    cases hok
  · exact absurd hnil (entries_ne_nil_of_chained hchained)
  · rw [hg, commit_eq hdec]
    exact ⟨_, rfl⟩

/-- Nothing is retained. -/
structure Idle (f : FeedFollower) : Prop where
  seq : f.lastSeq = none
  tip : f.lastTip = none
  accepted : ∀ k, f.accepted.get? k = none

theorem Idle.checkCommitted_eq_ok (hf : f.Idle) (entries : List FeedEntry) :
    f.checkCommitted blake3 entries = .ok () := by
  induction entries with
  | nil => rfl
  | cons e entries ih =>
    unfold FeedFollower.checkCommitted
    rw [hf.accepted]
    exact ih

/-- The first signed and chained fetch is accepted. -/
theorem Idle.outcome_eq_ok (hf : f.Idle) (hsigned : x.Signed verifyDomain f.publisher)
    (hchained : x.Chained blake3) : (f.outcome blake3 verifyDomain x).isOk = true := by
  have hdec : f.decision x.head = .ok .acceptNew := by
    unfold decision
    rw [hf.seq]
  have hjoin : ∀ first, f.checkJoin first = .ok () := by
    intro first
    unfold checkJoin
    rw [hf.seq]
  have h := accept_run blake3 verifyDomain f x
  generalize f.outcome blake3 verifyDomain x = r at h ⊢
  generalize f.step blake3 verifyDomain x = g at h
  change (if x.head.publisher ≠ f.publisher then
    (throw .feedSigInvalid : Method RollbackDecision) else _).run.run f = (r, g) at h
  rw [if_neg (not_not.mpr hsigned.1)] at h
  replace h := check_ok_bind_run hsigned.2 h
  replace h := check_ok_bind_run hdec h
  unfold Fetch.Chained at hchained
  generalize x.entries = entries at h hchained
  cases entries with
  | nil => cases hchained
  | cons first rest =>
    replace h := check_ok_bind_run hchained h
    replace h := check_ok_bind_run (hjoin first) h
    replace h := check_ok_bind_run (hf.checkCommitted_eq_ok _) h
    obtain ⟨rfl, -⟩ := Prod.mk.inj h
    rfl

/-- A signed repetition of the retained head is accepted. -/
theorem outcome_eq_ok_of_repeats (hsigned : x.Signed verifyDomain f.publisher)
    (hrepeats : x.Repeats f) : (f.outcome blake3 verifyDomain x).isOk = true := by
  have h := accept_run blake3 verifyDomain f x
  generalize f.outcome blake3 verifyDomain x = r at h ⊢
  generalize f.step blake3 verifyDomain x = g at h
  rw [hrepeats.entries] at h
  change (if x.head.publisher ≠ f.publisher then
    (throw .feedSigInvalid : Method RollbackDecision) else _).run.run f = (r, g) at h
  rw [if_neg (not_not.mpr hsigned.1)] at h
  replace h := check_ok_bind_run hsigned.2 h
  replace h := check_ok_bind_run (decision_of_repeats hrepeats.seq hrepeats.tip) h
  obtain ⟨rfl, -⟩ := Prod.mk.inj h
  rfl

end Outcomes

section Runs
variable {blake3 : Bytes → Digest} {verifyDomain : Bytes → Bytes → Bytes → Bytes → Bool}
  {publisher : Bytes}

theorem follow_append (f : FeedFollower) (pre : List Fetch) (x : Fetch) :
    f.follow blake3 verifyDomain (pre ++ [x]) =
      (f.follow blake3 verifyDomain pre).step blake3 verifyDomain x :=
  List.foldl_append

theorem follow_publisher (f : FeedFollower) (fetches : List Fetch) :
    (f.follow blake3 verifyDomain fetches).publisher = f.publisher := by
  induction fetches generalizing f with
  | nil => rfl
  | cons x fetches ih => exact (ih _).trans (step_publisher f x)

/-- An accepted head was accepted at some point of the run. -/
theorem mem_acceptedHeads {f : FeedFollower} {fetches : List Fetch} {h : FeedHead} :
    h ∈ f.acceptedHeads blake3 verifyDomain fetches ↔
      ∃ pre x post, fetches = pre ++ x :: post ∧ x.head = h ∧
        ((f.follow blake3 verifyDomain pre).outcome blake3 verifyDomain x).isOk = true := by
  induction fetches generalizing f with
  | nil => simp [acceptedHeads]
  | cons y fetches ih =>
    unfold acceptedHeads
    rw [List.mem_append, ih]
    constructor
    · rintro (hy | ⟨pre, x, post, rfl, hx, hok⟩)
      · split_ifs at hy with hok
        · exact ⟨[], y, fetches, rfl, (List.mem_singleton.mp hy).symm, hok⟩
        · cases hy
      · exact ⟨y :: pre, x, post, rfl, hx, hok⟩
    · rintro ⟨pre, x, post, heq, hx, hok⟩
      cases pre with
      | nil =>
        obtain ⟨rfl, rfl⟩ := List.cons.inj heq
        left
        rw [if_pos (show (f.outcome blake3 verifyDomain y).isOk = true from hok), hx]
        exact List.mem_singleton_self h
      | cons z pre =>
        obtain ⟨rfl, rfl⟩ := List.cons.inj heq
        exact Or.inr ⟨pre, x, post, rfl, hx, hok⟩

theorem acceptedHeads_of_prefix {f : FeedFollower} {pre : List Fetch} (post : List Fetch)
    {h : FeedHead} (hh : h ∈ f.acceptedHeads blake3 verifyDomain pre) :
    h ∈ f.acceptedHeads blake3 verifyDomain (pre ++ post) := by
  obtain ⟨pre', x, post', rfl, hx, hok⟩ := mem_acceptedHeads.mp hh
  exact mem_acceptedHeads.mpr ⟨pre', x, post' ++ post, by simp, hx, hok⟩

/-- Along a run nothing is retained until a signed and chained fetch comes, and then something
always is. -/
theorem follow_cases (blake3 : Bytes → Digest)
    (verifyDomain : Bytes → Bytes → Bytes → Bytes → Bool) (publisher : Bytes)
    (fetches : List Fetch) :
    (((new publisher).follow blake3 verifyDomain fetches).Idle ∧
        ∀ x ∈ fetches, x.Signed verifyDomain publisher → ¬ x.Chained blake3) ∨
      (∃ tip, ((new publisher).follow blake3 verifyDomain fetches).lastTip = some tip) ∧
        ∃ x ∈ fetches, x.Signed verifyDomain publisher ∧ x.Chained blake3 ∧
          x.head ∈ (new publisher).acceptedHeads blake3 verifyDomain fetches := by
  induction fetches using List.reverseRecOn with
  | nil => exact Or.inl ⟨⟨rfl, rfl, fun k => rfl⟩, fun x hx => by cases hx⟩
  | append_singleton pre x ih =>
    have hpub : ((new publisher).follow blake3 verifyDomain pre).publisher = publisher :=
      follow_publisher _ _
    have hkept : ∀ y ∈ pre, y ∈ pre ++ [x] := fun y hy => List.mem_append_left _ hy
    rw [follow_append]
    rcases ih with ⟨hidle, hnone⟩ | ⟨⟨tip, htip⟩, y, hy, hsigned, hchained, hmem⟩
    · by_cases hgenuine : x.Signed verifyDomain publisher ∧ x.Chained blake3
      · have hok := hidle.outcome_eq_ok (hpub.symm ▸ hgenuine.1) hgenuine.2
        refine Or.inr ⟨?_, x, List.mem_append_right _ (List.mem_singleton_self x), hgenuine.1,
          hgenuine.2, mem_acceptedHeads.mpr ⟨pre, x, [], rfl, rfl, hok⟩⟩
        exact lastTip_step_of_chained hok hgenuine.2
      · have herr : ∃ e, ((new publisher).follow blake3 verifyDomain pre).outcome blake3
            verifyDomain x = .error e := by
          rcases outcome_cases blake3 verifyDomain _ x with
            ⟨-, herr⟩ | ⟨hsigned, (herr | herr) | ⟨d, -, hdec, hd⟩⟩
          · exact herr
          · exact ⟨_, herr⟩
          · exact ⟨_, herr⟩
          · rcases hd with hchained | ⟨-, rfl⟩
            · exact absurd ⟨hpub ▸ hsigned, hchained⟩ hgenuine
            · unfold decision at hdec
              rw [hidle.seq] at hdec
              cases hdec
        obtain ⟨e, he⟩ := herr
        rw [step_eq_of_error he]
        refine Or.inl ⟨hidle, fun y hy hsigned hchained => ?_⟩
        rcases List.mem_append.mp hy with hy | hy
        · exact hnone y hy hsigned hchained
        · rw [List.mem_singleton.mp hy] at hsigned hchained
          exact hgenuine ⟨hsigned, hchained⟩
    · exact Or.inr ⟨lastTip_step htip, y, hkept y hy, hsigned, hchained,
        acceptedHeads_of_prefix [x] hmem⟩

/-- What is accepted along a run is signed, and has a chain or repeats the retained head. -/
theorem shown_of_ok {pre : List Fetch} {x : Fetch}
    (hok : (((new publisher).follow blake3 verifyDomain pre).outcome blake3 verifyDomain x).isOk =
      true) :
    x.Signed verifyDomain publisher ∧
      (x.Chained blake3 ∨ x.Repeats ((new publisher).follow blake3 verifyDomain pre)) := by
  have hpub : ((new publisher).follow blake3 verifyDomain pre).publisher = publisher :=
    follow_publisher _ _
  rcases outcome_cases blake3 verifyDomain _ x with
    ⟨-, e, herr⟩ | ⟨hsigned, (herr | herr) | ⟨d, -, hdec, hd⟩⟩
  · rw [herr] at hok
    cases hok
  · rw [herr] at hok
    cases hok
  · rw [herr] at hok
    cases hok
  · refine ⟨hpub ▸ hsigned, ?_⟩
    rcases hd with hchained | ⟨hnil, rfl⟩
    · exact Or.inl hchained
    · right
      rcases follow_cases blake3 verifyDomain publisher pre with
        ⟨hidle, -⟩ | ⟨⟨tip, htip⟩, -⟩
      · unfold decision at hdec
        rw [hidle.seq] at hdec
        cases hdec
      · obtain ⟨hseq, htip⟩ := repeats_of_decision htip hdec
        exact ⟨hnil, hseq, htip⟩

/-- The topics of a publisher stay apart along a run exactly when only one is shown. -/
theorem topics_apart_iff (blake3 : Bytes → Digest)
    (verifyDomain : Bytes → Bytes → Bytes → Bytes → Bool) (publisher : Bytes)
    (fetches : List Fetch) : TopicsApart blake3 verifyDomain publisher fetches ↔
      OneTopicShown blake3 verifyDomain publisher fetches := by
  have hpub : ∀ pre, ((new publisher).follow blake3 verifyDomain pre).publisher = publisher :=
    fun pre => follow_publisher _ _
  constructor
  · intro h
    rcases follow_cases blake3 verifyDomain publisher fetches with
      ⟨-, hnone⟩ | ⟨-, y, -, -, -, hy⟩
    · refine ⟨"", fun pre x post hsplit hsigned hshown => ?_⟩
      have hpre : ∀ z ∈ pre, z ∈ fetches := by
        intro z hz
        rw [hsplit]
        exact List.mem_append_left _ hz
      rcases hshown with hchained | hrepeats
      · have hx : x ∈ fetches := by simp [hsplit]
        exact absurd hchained (hnone x hx hsigned)
      · rcases follow_cases blake3 verifyDomain publisher pre with
          ⟨hidle, -⟩ | ⟨-, z, hz, hzsigned, hzchained, -⟩
        · have htip := hrepeats.tip
          rw [hidle.tip] at htip
          cases htip
        · exact absurd hzchained (hnone z (hpre z hz) hzsigned)
    · refine ⟨y.head.topic, fun pre x post hsplit hsigned hshown => ?_⟩
      have hsigned' := (hpub pre).symm ▸ hsigned
      have hof_ok : (((new publisher).follow blake3 verifyDomain pre).outcome blake3 verifyDomain
          x).isOk = true → x.head.topic = y.head.topic := by
        intro hok
        exact h.accepted _ (mem_acceptedHeads.mpr ⟨pre, x, post, hsplit, rfl, hok⟩) _ hy
      rcases hshown with hchained | hrepeats
      · rcases follow_cases blake3 verifyDomain publisher pre with
          ⟨hidle, -⟩ | ⟨-, z, -, -, -, hz⟩
        · exact hof_ok (hidle.outcome_eq_ok hsigned' hchained)
        · have hzy : z.head.topic = y.head.topic := by
            have hz' := acceptedHeads_of_prefix (x :: post) hz
            rw [← hsplit] at hz'
            exact h.accepted _ hz' _ hy
          by_cases heq : x.head.topic = z.head.topic
          · rw [heq, hzy]
          · obtain ⟨-, hchain, hrollback⟩ :=
              h.foreign pre x post hsplit z.head hz hsigned hchained heq
            rcases outcome_cases blake3 verifyDomain _ x with
              ⟨hunsigned, -⟩ | ⟨-, (herr | herr) | ⟨d, hok, -⟩⟩
            · exact absurd hsigned' hunsigned
            · exact absurd herr hchain
            · exact absurd herr hrollback
            · rw [hok] at hof_ok
              exact hof_ok rfl
      · exact hof_ok (outcome_eq_ok_of_repeats hsigned' hrepeats)
  · rintro ⟨topic, htopic⟩
    have haccepted : ∀ {pre post h}, fetches = pre ++ post →
        h ∈ (new publisher).acceptedHeads blake3 verifyDomain pre → h.topic = topic := by
      intro pre post h hsplit hmem
      obtain ⟨pre', x, post', rfl, rfl, hok⟩ := mem_acceptedHeads.mp hmem
      obtain ⟨hsigned, hshown⟩ := shown_of_ok hok
      exact htopic pre' x (post' ++ post) (by simp [hsplit]) hsigned hshown
    constructor
    · intro h hh h' hh'
      rw [haccepted (List.append_nil _).symm hh, haccepted (List.append_nil _).symm hh']
    · intro pre x post hsplit h hh hsigned hchained hne
      have hx := htopic pre x post hsplit hsigned (Or.inl hchained)
      exact absurd (hx.trans (haccepted hsplit hh).symm) hne

end Runs

section TwoTopics

/-- The Ed25519 public key of the seed `03…03`. -/
def feedKey : Bytes :=
  toBe 32 0xed4928c628d1c2c6eae90338905995612959273a5c63f93636c14614ac8737d1

/-- The first entry of another feed. -/
def newsEntry : FeedEntry := ⟨0, ⟨[0x1e]⟩, none, 1⟩

/-- The BLAKE3 digest of that entry. -/
def newsDigest : Digest :=
  ⟨toBe 32 0x70346075b0196da433921ea2c1d162e5ece3d67403e452076fd0cfcbc444d0e6, length_toBe _ _⟩

/-- BLAKE3 as far as the two first entries need it. -/
def feedDigests (b : Bytes) : Digest :=
  if b = genesisEntry.detCbor then genesisDigest else newsDigest

def defaultSig : Bytes :=
  toBe 32 0x446104e7e675aadaa20d782ad87ea8da5eda6869686ee5535325fca77e030015 ++
    toBe 32 0x7531890d6440d4561d1789dd7690852c14a1784426371abfe516e645108b9300

def newsSig : Bytes :=
  toBe 32 0x4fe910a56fd031f7cdf90fd03494459eddb1f80193a7cd9bbc45f74ecdb9ef2a ++
    toBe 32 0x51a2ca97e4e1dedb3447eb2e1a9d4c929a596aa24f3faddbf626c8449ffc690c

def defaultFetch : Fetch :=
  ⟨⟨0, .classical, feedKey, 0, ⟨mhBlake3 :: genesisDigest.val⟩, 0, feedKey, defaultSig, ""⟩,
    [genesisEntry]⟩

/-- The head of the feed with topic `news`, and its only entry. -/
def newsFetch : Fetch :=
  ⟨⟨0, .classical, feedKey, 0, ⟨mhBlake3 :: newsDigest.val⟩, 1, feedKey, newsSig, "news"⟩,
    [newsEntry]⟩

/-- Ed25519 as far as the two heads need it. -/
def feedVerifies (pk ds msg sig : Bytes) : Bool :=
  pk = feedKey ∧ ds = pubFeedDs ∧
    (msg = defaultFetch.head.signingPreimage ∧ sig = defaultSig ∨
      msg = newsFetch.head.signingPreimage ∧ sig = newsSig)

/-- The first head of another topic is reported as a broken chain. -/
theorem other_topic_reported :
    ¬ TopicsApart feedDigests feedVerifies feedKey [defaultFetch, newsFetch] := by
  intro h
  have hdefault : defaultFetch.head ∈
      (new feedKey).acceptedHeads feedDigests feedVerifies [defaultFetch] := by
    decide
  have hforeign := h.foreign [defaultFetch] newsFetch [] rfl _ hdefault (by decide)
    (by decide) (by decide)
  exact absurd hforeign.2.1 (by decide)

end TwoTopics
end Dmtap.Pub.FeedFollower
