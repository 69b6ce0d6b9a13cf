import Dmtap.Mail.Imap.Targets
import Dmtap.Mail.Resync

/-! What a client hears of the UIDs that went away earlier. The star in a set stands for the highest
UID still there, and those that went away may lie above it. -/
namespace Dmtap.Mail
open Lib

section MaxUid
variable {mb : Mailbox}

/-- Below the highest UID means below some UID. -/
theorem Mailbox.Invariant.le_maxUid_iff (h : mb.Invariant) {u : ℕ} (hu : 0 < u) :
    u ≤ mb.maxUid ↔ ∃ m ∈ mb.messages, u ≤ m.uid := by
  unfold Mailbox.maxUid
  constructor
  · intro hle
    cases hlast : mb.messages.getLast? with
    | none =>
      rw [hlast] at hle
      exact absurd hle (Nat.not_le.mpr hu)
    | some m =>
      rw [hlast] at hle
      exact ⟨m, List.mem_of_getLast? hlast, hle⟩
  · rintro ⟨m, hm, hle⟩
    rcases List.eq_nil_or_concat mb.messages with hnil | ⟨front, last, hconcat⟩
    · rw [hnil] at hm
      cases hm
    · have hasc := h.ascending
      rw [List.concat_eq_append] at hconcat
      rw [hconcat] at hm hasc ⊢
      rw [List.getLast?_concat]
      rcases List.mem_append.mp hm with hm | hm
      · have hlt := (List.pairwise_append.mp hasc).2.2 m hm last (List.mem_singleton_self _)
        exact hle.trans (Nat.le_of_lt hlt)
      · rwa [List.mem_singleton.mp hm] at hle

end MaxUid
end Dmtap.Mail

namespace Dmtap.Mail.Imap
open Lib

/-- An answer reports a UID as expunged earlier. -/
def ReportsVanished (out : List Reply) (u : ℕ) : Prop :=
  ∃ uids, Reply.untagged (.vanishedEarlier uids) ∈ out ∧ u ∈ uids

section Reports
variable {a b : List Reply} {u : ℕ}

theorem reportsVanished_append :
    ReportsVanished (a ++ b) u ↔ ReportsVanished a u ∨ ReportsVanished b u := by
  constructor
  · rintro ⟨uids, hmem, hu⟩
    exact (List.mem_append.mp hmem).imp (fun h => ⟨uids, h, hu⟩) (fun h => ⟨uids, h, hu⟩)
  · rintro (⟨uids, hmem, hu⟩ | ⟨uids, hmem, hu⟩)
    · exact ⟨uids, List.mem_append_left b hmem, hu⟩
    · exact ⟨uids, List.mem_append_right a hmem, hu⟩

/-- Other lines report nothing of the kind. -/
theorem not_reportsVanished (h : ∀ reply ∈ a, ∀ uids, reply ≠ .untagged (.vanishedEarlier uids)) :
    ¬ReportsVanished a u := by
  rintro ⟨uids, hmem, -⟩
  exact h _ hmem uids rfl

/-- The line is left out where no UID went away. -/
theorem reportsVanished_line (uids : List ℕ) :
    ReportsVanished (if uids.isEmpty then [] else [.untagged (.vanishedEarlier uids)]) u ↔
      u ∈ uids := by
  by_cases hempty : uids.isEmpty = true
  · rw [if_pos hempty, List.isEmpty_iff.mp hempty]
    exact iff_of_false (not_reportsVanished fun _ h => nomatch h) List.not_mem_nil
  · rw [if_neg hempty]
    constructor
    · rintro ⟨uids', hmem, hu⟩
      have heq : uids' = uids := by simpa using List.mem_singleton.mp hmem
      exact heq ▸ hu
    · intro hu
      exact ⟨uids, List.mem_singleton_self _, hu⟩

end Reports

/-- The set `n:*`. -/
def SequenceSet.upwards (n : ℕ) : SequenceSet := ⟨[(.num n, .star)], false⟩

example : SequenceSet.parse "5:*" = some (.upwards 5) := by decide

/-- From `n` on, the set reaches no further than the highest value in use, or else to `n`. -/
theorem SequenceSet.contains_upwards {n u max : ℕ} (hn : n ≤ u) :
    (upwards n).contains u max = true ↔ u = n ∨ u ≤ max := by
  have hcontains : (upwards n).contains u max = true ↔
      (if n ≤ max then (n, max) else (max, n)).1 ≤ u ∧
        u ≤ (if n ≤ max then (n, max) else (max, n)).2 := by
    rw [contains_iff]
    exact (List.exists_mem_cons_iff _ _ _).trans (or_iff_left fun h => by simp at h)
  rw [hcontains]
  by_cases hle : n ≤ max
  · rw [if_pos hle]
    omega
  · rw [if_neg hle]
    omega

namespace Session
variable {s : Session MemoryStore} {name : String} {mb : Mailbox}

theorem reportsVanished_fetchOne (views : Views) (items : List FetchItem) (uidMode readOnly : Bool)
    (changedsince : Option ℕ) (acc : Mailbox × List Reply) (i u : ℕ) :
    ReportsVanished (fetchOne views items uidMode readOnly changedsince acc i).2 u ↔
      ReportsVanished acc.2 u := by
  unfold fetchOne
  cases acc.1.messages[i]? with
  | none => exact Iff.rfl
  | some m =>
    dsimp only
    by_cases hold : (changedsince.map fun cs => decide (m.modseq ≤ cs)).getD false = true
    · rw [if_pos hold]
    · rw [if_neg hold]
      refine reportsVanished_append.trans (or_iff_left (not_reportsVanished ?_))
      intro reply hreply uids heq
      rw [List.mem_singleton.mp hreply] at heq
      cases heq

theorem reportsVanished_foldl_fetchOne (views : Views) (items : List FetchItem)
    (uidMode readOnly : Bool) (changedsince : Option ℕ) (l : List ℕ) (acc : Mailbox × List Reply)
    (u : ℕ) :
    ReportsVanished (l.foldl (fetchOne views items uidMode readOnly changedsince) acc).2 u ↔
      ReportsVanished acc.2 u := by
  induction l generalizing acc with
  | nil => exact Iff.rfl
  | cons i l ih => exact (ih _).trans (reportsVanished_fetchOne ..)

theorem reportsVanished_ok {tag text : String} {u : ℕ} : ¬ReportsVanished [ok tag text] u := by
  refine not_reportsVanished fun reply hreply uids heq => ?_
  rw [List.mem_singleton.mp hreply] at heq
  cases heq

/-- FETCH with VANISHED reports what the set contains of the UIDs that went away since. -/
theorem reportsVanished_cmdFetch (hname : s.selected = some name)
    (hmb : s.store.mailbox name = some mb) (views : Views) (tag : String) {set : SequenceSet}
    (hset : set.isSaved = false) (items : List FetchItem) (c u : ℕ) :
    ReportsVanished (s.cmdFetch views tag set items true (some c) true).2 u ↔
      u ∈ mb.vanishedSince c ∧ set.contains u mb.maxUid = true := by
  have hmaterialize : s.materialize set true = set := by
    rw [materialize, hset]
    rfl
  have hmut := MemoryStore.mailboxMut_of_mailbox hmb
  unfold cmdFetch
  rw [hname]
  dsimp only
  rw [hmaterialize, hmut]
  dsimp only
  rw [reportsVanished_append, reportsVanished_foldl_fetchOne, or_iff_left reportsVanished_ok,
    reportsVanished_line, List.mem_insertionSort, List.mem_filter]

/-- The catch-up reports those of the UIDs that the client knew. -/
theorem reportsVanished_qresyncResync {store : MemoryStore} (hmb : store.mailbox name = some mb)
    (modseq : ℕ) (known : SequenceSet) (u : ℕ) :
    ReportsVanished ((qresyncResync store name modseq (some known)).map .untagged) u ↔
      u ∈ mb.vanishedSince modseq ∧ known.contains u mb.maxUid = true := by
  unfold qresyncResync
  rw [show MailStore.mailbox store name = some mb from hmb]
  dsimp only
  rw [List.map_append, reportsVanished_append, or_iff_left]
  · have hline (l : List ℕ) : (if l.isEmpty then [] else [Untagged.vanishedEarlier l]).map
        Reply.untagged = if l.isEmpty then [] else [.untagged (.vanishedEarlier l)] := by
      split_ifs
      · rfl
      · rfl
    rw [hline, reportsVanished_line, List.mem_insertionSort, List.mem_filter]
    rfl
  · refine not_reportsVanished fun reply hreply uids heq => ?_
    rw [List.map_map] at hreply
    obtain ⟨p, -, rfl⟩ := List.mem_map.mp hreply
    cases heq

/-- SELECT with QRESYNC reports what the client knew of them, if it knew the same mailbox. -/
theorem reportsVanished_cmdSelect (hmb : s.store.mailbox name = some mb) (tag : String)
    (readOnly condstore : Bool) {q : QResyncParams} (hvalidity : q.uidValidity = mb.uidValidity)
    {known : SequenceSet} (hknown : q.knownUids = some known) (u : ℕ) :
    ReportsVanished (s.cmdSelect tag name readOnly condstore (some q)).2 u ↔
      u ∈ mb.vanishedSince q.modseq ∧ known.contains u mb.maxUid = true := by
  have hcondstore : (condstore || (some q).isSome) = true := Bool.or_true condstore
  rw [← reportsVanished_qresyncResync hmb]
  unfold cmdSelect
  rw [show MailStore.mailbox s.store name = some mb from hmb]
  dsimp only
  rw [if_pos hcondstore, if_pos hvalidity, hknown, reportsVanished_append,
    or_iff_left reportsVanished_ok, reportsVanished_append]
  refine or_iff_right (not_reportsVanished fun reply hreply uids heq => ?_)
  subst heq
  cases hunseen : mb.firstUnseenSeq with
  | none => simp [untagged, hunseen] at hreply
  | some n => simp [untagged, hunseen] at hreply

/-- A UID that went away is reported to who asks from `n` on just if it is `n` itself, or a message
with a higher UID is still there. -/
theorem reportsVanished_upwards_iff {r : Renderers} (h : Reachable r s.store)
    (hmb : s.store.mailbox name = some mb) {u t c n : ℕ} (hgone : (u, t) ∈ mb.expunged) (hc : c < t)
    (hn : n ≤ u) (views : Views) (tag : String) (items : List FetchItem)
    (readOnly condstore : Bool) :
    (s.selected = some name →
      (ReportsVanished (s.cmdFetch views tag (.upwards n) items true (some c) true).2 u ↔
        u = n ∨ ∃ m ∈ mb.messages, u < m.uid)) ∧
    (ReportsVanished (s.cmdSelect tag name readOnly condstore
        (some ⟨mb.uidValidity, c, some (.upwards n)⟩)).2 u ↔
      u = n ∨ ∃ m ∈ mb.messages, u < m.uid) := by
  have hinvariant := Mailbox.invariant_of_ledger (h.wellFormed.ledgers name mb hmb)
  have hsince : u ∈ mb.vanishedSince c := Mailbox.mem_vanishedSince.mpr ⟨t, hgone, hc⟩
  have hreach : (u ∈ mb.vanishedSince c ∧ (SequenceSet.upwards n).contains u mb.maxUid = true) ↔
      u = n ∨ ∃ m ∈ mb.messages, u < m.uid := by
    rw [and_iff_right hsince, SequenceSet.contains_upwards hn]
    by_cases hu : u = n
    · exact iff_of_true (.inl hu) (.inl hu)
    · rw [hinvariant.le_maxUid_iff (by omega)]
      refine or_congr_right (exists_congr fun m => and_congr_right fun hm => ?_)
      have hne : u ≠ m.uid := hinvariant.expungedApart (u, t) hgone m hm
      omega
  constructor
  · intro hname
    rw [reportsVanished_cmdFetch hname hmb views tag rfl, hreach]
  · rw [reportsVanished_cmdSelect hmb tag readOnly condstore rfl rfl, hreach]

/-- INBOX with two messages, the second of them marked. -/
def marked : MemoryStore :=
  ((MemoryStore.new.deliverRaw "INBOX" [97] [] 0).1.deliverRaw "INBOX" [98] [.deleted] 0).1

/-- After an EXPUNGE there. -/
def trimmed : MemoryStore :=
  (((opened marked false).process .blank (utf8 "a EXPUNGE")).map fun r => r.1.store).getD marked

theorem reachable_trimmed : Reachable .blank trimmed := by
  have hstore : Reachable .blank marked :=
    ((reachable_new .blank).op (.deliverRaw "INBOX" [97] [] 0) rfl).op
      (.deliverRaw "INBOX" [98] [.deleted] 0) rfl
  exact reachable_processed hstore (utf8 "a EXPUNGE")

theorem mailbox_trimmed : ∃ mb, trimmed.mailbox "INBOX" = some mb ∧
    mb.messages.map Message.uid = [1] ∧ mb.expunged = [(2, 4)] := by
  have hfacts : (trimmed.mailbox "INBOX").map (fun mb =>
      (mb.messages.map Message.uid, mb.expunged)) = some ([1], [(2, 4)]) := by decide +kernel
  obtain ⟨mb, hmb, hfacts⟩ := Option.map_eq_some_iff.mp hfacts
  exact ⟨mb, hmb, Prod.mk.inj hfacts⟩

/-- The message that went away was the last one, and `1:*` stops in front of it. -/
theorem reportsVanished_trimmed :
    Reachable .blank trimmed ∧ ∃ mb t, trimmed.mailbox "INBOX" = some mb ∧ (2, t) ∈ mb.expunged ∧
      3 < t ∧
      ¬ReportsVanished ((opened trimmed false).cmdFetch .blank "a" (.upwards 1) [.uid] true (some 3)
        true).2 2 ∧
      ¬ReportsVanished ((opened trimmed false).cmdSelect "a" "INBOX" false false
        (some ⟨mb.uidValidity, 3, some (.upwards 1)⟩)).2 2 := by
  obtain ⟨mb, hmb, huids, hgone⟩ := mailbox_trimmed
  have hmax : mb.maxUid = 1 := by
    rw [Mailbox.maxUid, ← List.getLast?_map, huids]
    rfl
  have hselected : (opened trimmed false).store.mailbox "INBOX" = some mb := hmb
  refine ⟨reachable_trimmed, mb, 4, hmb, hgone ▸ List.mem_singleton_self _, by decide, ?_, ?_⟩
  · rw [reportsVanished_cmdFetch rfl hselected .blank "a" rfl, hmax]
    exact fun h => absurd h.2 (by decide)
  · intro h
    have hlisted := (reportsVanished_cmdSelect hselected "a" false false rfl rfl 2).mp h
    rw [hmax] at hlisted
    exact absurd hlisted.2 (by decide)

theorem reportsVanished_upwards_trimmed : ∃ mb, trimmed.mailbox "INBOX" = some mb ∧
    ReportsVanished ((opened trimmed false).cmdSelect "a" "INBOX" false false
      (some ⟨mb.uidValidity, 3, some (.upwards 2)⟩)).2 2 := by
  obtain ⟨mb, hmb, -, hgone⟩ := mailbox_trimmed
  have hmem : (2, 4) ∈ mb.expunged := hgone ▸ List.mem_singleton_self _
  exact ⟨mb, hmb, (reportsVanished_upwards_iff (s := opened trimmed false) reachable_trimmed hmb hmem
    (by decide) le_rfl .blank "a" [] false false).2.mpr (.inl rfl)⟩

end Session
end Dmtap.Mail.Imap
