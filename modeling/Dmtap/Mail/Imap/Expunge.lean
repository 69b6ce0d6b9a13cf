import Dmtap.Mail.Imap.Copy

/-! What a client that keeps the list of UIDs hears of removals, and that its list stays the
mailbox's own. -/
namespace Dmtap.Mail.Imap
open Lib

/-- The number in an EXPUNGE line. -/
def Reply.expunged : Reply → Option ℕ
  | .untagged (.expunge seq) => some seq
  | _ => none

/-- The ranges in a VANISHED line. -/
def Reply.vanishedRanges : Reply → List (ℕ × ℕ)
  | .untagged (.vanished uids) => runs uids.length uids
  | _ => []

/-- A list of UIDs after the EXPUNGE lines of an answer, in their order. -/
def replayExpunges (out : List Reply) (uids : List ℕ) : List ℕ :=
  (out.filterMap Reply.expunged).foldl (fun uids n => uids.eraseIdx (n - 1)) uids

/-- A list of UIDs without those in the VANISHED set of an answer. -/
def dropVanished (out : List Reply) (uids : List ℕ) : List ℕ :=
  uids.filter fun u => !(out.flatMap Reply.vanishedRanges).any fun r => r.1 ≤ u && u ≤ r.2

/-- What a client makes of an answer that reports removals. -/
def heard (qresync : Bool) (out : List Reply) (uids : List ℕ) : List ℕ :=
  if qresync then dropVanished out uids else replayExpunges out uids

section Runs

theorem takeRun_spec (lo : ℕ) (l : List ℕ) :
    ∃ k, l = List.range' (lo + 1) k ++ (takeRun lo l).2 ∧ (takeRun lo l).1 = lo + k := by
  induction l generalizing lo with
  | nil => exact ⟨0, rfl, rfl⟩
  | cons n l ih =>
    unfold takeRun
    by_cases hn : n = lo + 1
    · rw [if_pos hn]
      obtain ⟨k, hl, hhi⟩ := ih n
      refine ⟨k + 1, ?_, by omega⟩
      rw [List.range'_succ, List.cons_append, ← hn, ← hl]
    · rw [if_neg hn]
      exact ⟨0, rfl, rfl⟩

/-- The ranges printed for some numbers hold exactly these. -/
theorem mem_runs {fuel : ℕ} {l : List ℕ} (hfuel : l.length ≤ fuel) (u : ℕ) :
    (∃ r ∈ runs fuel l, r.1 ≤ u ∧ u ≤ r.2) ↔ u ∈ l := by
  induction fuel generalizing l with
  | zero =>
    rw [List.length_eq_zero_iff.mp (Nat.le_zero.mp hfuel)]
    simp [runs]
  | succ fuel ih =>
    cases l with
    | nil => simp [runs]
    | cons lo l =>
      obtain ⟨k, hl, hhi⟩ := takeRun_spec lo l
      have hlength : (takeRun lo l).2.length ≤ fuel := by
        have hlen := congrArg List.length hl
        rw [List.length_append] at hlen
        rw [List.length_cons] at hfuel
        omega
      have hruns : runs (fuel + 1) (lo :: l) =
          (lo, (takeRun lo l).1) :: runs fuel (takeRun lo l).2 := rfl
      have hmem : u ∈ lo :: l ↔ (lo ≤ u ∧ u ≤ lo + k) ∨ u ∈ (takeRun lo l).2 := by
        rw [List.mem_cons]
        conv_lhs => rw [hl]
        rw [List.mem_append, List.mem_range'_1, ← or_assoc]
        exact or_congr (by omega) Iff.rfl
      rw [hruns, hmem, ← ih hlength]
      simp only [List.exists_mem_cons_iff, hhi]

end Runs

section Removal

theorem replayExpunges_lines (indices : List ℕ) (uids : List ℕ) :
    replayExpunges (indices.reverse.map fun i => .untagged (.expunge (i + 1))) uids =
      eraseAll indices uids := by
  unfold replayExpunges eraseAll
  rw [List.filterMap_map]
  have hsome : (Reply.expunged ∘ fun i => Reply.untagged (.expunge (i + 1))) =
      fun i => some (i + 1) := rfl
  rw [hsome, List.filterMap_eq_map', List.foldl_map, List.foldl_reverse]
  rfl

theorem dropVanished_nil (uids : List ℕ) : dropVanished [] uids = uids :=
  List.filter_eq_self.mpr fun _ _ => rfl

theorem dropVanished_vanished (gone uids : List ℕ) :
    dropVanished [.untagged (.vanished gone)] uids = uids.filter fun u => !decide (u ∈ gone) := by
  refine List.filter_congr fun u _ => congrArg Bool.not (Bool.eq_iff_iff.mpr ?_)
  rw [List.flatMap_singleton, decide_eq_true_iff, ← mem_runs (Nat.le_refl _) u, List.any_eq_true]
  simp only [Reply.vanishedRanges, Bool.and_eq_true, decide_eq_true_eq]

/-- Distinct UIDs tell which positions are picked. -/
theorem uid_mem_picked_iff {mb : Mailbox} (h : mb.Invariant) (q : Message × ℕ → Bool)
    {m : Message} {i : ℕ} (hm : mb.messages[i]? = some m) :
    m.uid ∈ (picked q mb.messages).map Message.uid ↔ q (m, i) = true := by
  constructor
  · intro hmem
    obtain ⟨m', hm', huid⟩ := List.mem_map.mp hmem
    obtain ⟨j, hj, hq⟩ := mem_picked.mp hm'
    have hi' := (h.indexOfUid_eq_some_iff m.uid i).mpr (by rw [hm]; rfl)
    have hj' := (h.indexOfUid_eq_some_iff m.uid j).mpr (by rw [hj, ← huid]; rfl)
    obtain rfl : i = j := Option.some.inj (hi'.symm.trans hj')
    obtain rfl : m = m' := Option.some.inj (hm.symm.trans hj)
    exact hq
  · exact fun hq => List.mem_map_of_mem (mem_picked.mpr ⟨i, hm, hq⟩)

theorem unpicked_eq_filter {mb : Mailbox} (h : mb.Invariant) (q : Message × ℕ → Bool) :
    unpicked q mb.messages =
      mb.messages.filter fun m => !decide (m.uid ∈ (picked q mb.messages).map Message.uid) := by
  rw [← picked_of_item]
  refine picked_congr fun m i hm => congrArg Bool.not (Bool.eq_iff_iff.mpr ?_)
  rw [decide_eq_true_iff]
  exact (uid_mem_picked_iff h q hm).symm

theorem mem_removeAll_positions (mb : Mailbox) (q : Message × ℕ → Bool) (u : ℕ) :
    u ∈ (Session.removeAll mb (positions q mb.messages)).2 ↔
      u ∈ (picked q mb.messages).map Message.uid := by
  rw [Session.removeAll_uids mb (positions_ascending q mb.messages), List.mem_reverse,
    picked_eq_filterMap, List.map_filterMap]

/-- A list of UIDs keeps in step with the mailbox when some messages go. -/
theorem heard_removalLines {mb : Mailbox} (h : mb.Invariant) (q : Message × ℕ → Bool)
    (qresync : Bool) :
    heard qresync
        (Session.removalLines qresync (positions q mb.messages)
          (Session.removeAll mb (positions q mb.messages)).2)
        (mb.messages.map Message.uid) =
      (unpicked q mb.messages).map Message.uid := by
  unfold heard Session.removalLines
  cases qresync with
  | false =>
    rw [if_neg Bool.false_ne_true, if_neg Bool.false_ne_true, replayExpunges_lines, eraseAll_map,
      eraseAll_positions]
  | true =>
    have hgone : (unpicked q mb.messages).map Message.uid =
        (mb.messages.map Message.uid).filter fun u =>
          !decide (u ∈ (Session.removeAll mb (positions q mb.messages)).2) := by
      rw [unpicked_eq_filter h, List.filter_map]
      refine congrArg (List.map Message.uid) (List.filter_congr fun m _ => congrArg Bool.not ?_)
      exact decide_eq_decide.mpr (mem_removeAll_positions mb q m.uid).symm
    rw [if_pos rfl, if_pos rfl, hgone]
    split_ifs with hempty
    · rw [dropVanished_nil, List.isEmpty_iff.mp hempty]
      exact (List.filter_eq_self.mpr fun _ _ => by simp).symm
    · rw [dropVanished_vanished]
      refine List.filter_congr fun u _ => congrArg Bool.not (decide_eq_decide.mpr ?_)
      exact List.mem_insertionSort _

/-- A reply that reports no removal. -/
def Reply.Silent (reply : Reply) : Prop := reply.expunged = none ∧ reply.vanishedRanges = []

theorem heard_cons {reply : Reply} (h : reply.Silent) (qresync : Bool) (out : List Reply)
    (uids : List ℕ) : heard qresync (reply :: out) uids = heard qresync out uids := by
  unfold heard dropVanished replayExpunges
  rw [List.filterMap_cons_none h.1, List.flatMap_cons, h.2, List.nil_append]

theorem heard_append {reply : Reply} (h : reply.Silent) (qresync : Bool) (out : List Reply)
    (uids : List ℕ) : heard qresync (out ++ [reply]) uids = heard qresync out uids := by
  unfold heard dropVanished replayExpunges
  rw [List.filterMap_append, List.filterMap_cons_none h.1, List.filterMap_nil, List.append_nil,
    List.flatMap_append, List.flatMap_singleton, h.2, List.append_nil]

theorem silent_of_refuses {reply : Reply} (h : reply.refuses = true) : reply.Silent := by
  cases reply with
  | untagged u => cases h
  | status tag status code text => exact ⟨rfl, rfl⟩
  | continuation text => cases h

theorem heard_nil (qresync : Bool) (uids : List ℕ) : heard qresync [] uids = uids := by
  unfold heard
  split_ifs
  · exact dropVanished_nil uids
  · rfl

end Removal

namespace Session

/-- EXPUNGE takes a message that is marked, if the set, where there is one, means it. -/
def expunges {σ : Type} (s : Session σ) (mb : Mailbox) (uidSet : Option SequenceSet)
    (m : Message) : Bool :=
  m.hasFlag .deleted && (uidSet.map fun set =>
    if set.isSaved then s.savedSearch.contains m.uid else set.contains m.uid mb.maxUid).getD true

section Expunge
variable {s : Session MemoryStore} {name : String} {mb : Mailbox}

theorem contains_materialize (set : SequenceSet) (uid max : ℕ) :
    (s.materialize set true).contains uid max =
      if set.isSaved then s.savedSearch.contains uid else set.contains uid max := by
  unfold materialize
  cases set.isSaved with
  | false => rfl
  | true =>
    rw [if_neg (by simp), if_pos rfl, if_pos rfl]
    apply Bool.eq_iff_iff.mpr
    rw [List.contains_iff_mem]
    exact SequenceSet.contains_fromUids _ _ _

/-- EXPUNGE turns down, or removes the messages it takes. -/
theorem cmdExpunge_eq (hname : s.selected = some name) (hmb : s.store.mailbox name = some mb)
    (hwrite : s.readOnly = false) (tag : String) (uidSet : Option SequenceSet) :
    s.cmdExpunge tag uidSet =
      ({ s with
          store := s.store.put name
            (removeAll mb (positions (fun p => s.expunges mb uidSet p.1) mb.messages)).1 },
        removalLines s.qresync (positions (fun p => s.expunges mb uidSet p.1) mb.messages)
          (removeAll mb (positions (fun p => s.expunges mb uidSet p.1) mb.messages)).2 ++
        [ok tag "EXPUNGE completed"]) := by
  have htaken : (fun p : Message × ℕ => s.expunges mb uidSet p.1) = fun p =>
      p.1.hasFlag .deleted && (((uidSet.map fun set => s.materialize set true).map fun set =>
        set.contains p.1.uid mb.maxUid).getD true) := by
    funext p
    unfold expunges
    cases uidSet with
    | none => rfl
    | some set => exact congrArg (p.1.hasFlag .deleted && ·) (contains_materialize set _ _).symm
  have hmut := MemoryStore.mailboxMut_of_mailbox hmb
  unfold cmdExpunge
  rw [hname, hwrite]
  dsimp only
  rw [hmut, htaken]
  rfl

theorem messages_expunged (uidSet : Option SequenceSet) :
    (removeAll mb (positions (fun p => s.expunges mb uidSet p.1) mb.messages)).1.messages =
      mb.messages.filter fun m => !s.expunges mb uidSet m := by
  rw [removeAll_messages, eraseAll_positions]
  exact picked_of_item (fun m => !s.expunges mb uidSet m) mb.messages

/-- After EXPUNGE, UID EXPUNGE or a MOVE elsewhere, a client that follows the answer has the UIDs of
the mailbox, and gone are the marked messages the set means, or the ones moved; in a mailbox that
is open for reading only EXPUNGE is answered NO and takes nothing. -/
theorem expunge_in_step {r : Renderers} (h : Reachable r s.store)
    (hname : s.selected = some name) (hmb : s.store.mailbox name = some mb) (tag : String) :
    (∀ uidSet, ∃ mb', (s.cmdExpunge tag uidSet).1.store.mailbox name = some mb' ∧
      heard s.qresync (s.cmdExpunge tag uidSet).2 (mb.messages.map Message.uid) =
        mb'.messages.map Message.uid ∧
      (mb'.messages = mb.messages.filter fun m => !(!s.readOnly && s.expunges mb uidSet m)) ∧
      (s.readOnly = true → (s.cmdExpunge tag uidSet).2 = [no tag "mailbox is read-only"])) ∧
    ∀ set dest uidMode, dest ≠ name →
      ∃ mb', (s.cmdMove tag set dest uidMode).1.store.mailbox name = some mb' ∧
        heard s.qresync (s.cmdMove tag set dest uidMode).2 (mb.messages.map Message.uid) =
          mb'.messages.map Message.uid ∧
        (Refused (s.cmdMove tag set dest uidMode).2 → mb' = mb) ∧
        (¬Refused (s.cmdMove tag set dest uidMode).2 → mb'.messages =
          mb.messages.filter fun m => !(s.chosen mb set uidMode).contains m) := by
  have hinvariant := Mailbox.invariant_of_ledger (h.wellFormed.ledgers name mb hmb)
  constructor
  · intro uidSet
    cases hwrite : s.readOnly with
    | true =>
      have hrefused : s.cmdExpunge tag uidSet = (s, [no tag "mailbox is read-only"]) := by
        unfold cmdExpunge
        rw [hname, hwrite]
        rfl
      rw [hrefused]
      refine ⟨mb, hmb, ?_, (List.filter_eq_self.mpr fun _ _ => rfl).symm, fun _ => rfl⟩
      rw [heard_cons ⟨rfl, rfl⟩, heard_nil]
    | false =>
      rw [cmdExpunge_eq hname hmb hwrite]
      refine ⟨_, by rw [MemoryStore.mailbox_put, if_pos rfl], ?_, messages_expunged uidSet,
        fun hreadOnly => by cases hreadOnly⟩
      rw [heard_append ⟨rfl, rfl⟩, heard_removalLines hinvariant, removeAll_messages,
        eraseAll_positions]
  · intro set dest uidMode hne
    rcases cmdMove_cases h.wellFormed tag set dest uidMode with ⟨reply, hrefuses, heq, -⟩ |
      ⟨name', mb', dmb, dmb', smb, hname', hmb', -, -, -, -, hother, heq⟩
    · rw [heq]
      refine ⟨mb, hmb, ?_, fun _ => rfl, fun h => absurd (refused_singleton hrefuses) h⟩
      rw [heard_cons (silent_of_refuses hrefuses), heard_nil]
    · obtain rfl : name' = name := Option.some.inj (hname'.symm.trans hname)
      obtain rfl : mb' = mb := Option.some.inj (hmb'.symm.trans hmb)
      obtain rfl : smb = mb' := hother hne
      rw [heq]
      refine ⟨_, by rw [MemoryStore.mailbox_put, if_pos rfl], ?_, ?_, fun _ => ?_⟩
      · rw [heard_append ⟨rfl, rfl⟩, List.singleton_append, heard_cons ⟨rfl, rfl⟩,
          heard_removalLines hinvariant, removeAll_messages, eraseAll_positions]
      · exact fun h => absurd h (not_refused_removal _ _ _ _ _ _)
      · rw [removeAll_taken, filter_chosen hinvariant]

end Expunge

/-- A marked message in a mailbox open for reading only stays there. -/
theorem expunge_in_step_examined :
    ¬∀ (s : Session MemoryStore) (name : String) (mb mb' : Mailbox), Reachable .blank s.store →
      s.selected = some name → s.store.mailbox name = some mb →
      (s.cmdExpunge "a" none).1.store.mailbox name = some mb' →
      mb'.messages = mb.messages.filter fun m => !s.expunges mb none m := by
  intro h
  have hreach : Reachable .blank (opened (MemoryStore.new.deliverRaw "INBOX" [97] [.deleted] 0).1
      true).store :=
    (reachable_new .blank).op (.deliverRaw "INBOX" [97] [.deleted] 0) rfl
  have hlength : ((MemoryStore.new.deliverRaw "INBOX" [97] [.deleted] 0).1.mailbox "INBOX").map
      (fun mb => mb.messages.map fun m => m.hasFlag .deleted) = some [true] := by decide
  obtain ⟨mb, hmb, hmarked⟩ := Option.map_eq_some_iff.mp hlength
  have hsame := h _ "INBOX" mb mb hreach rfl hmb hmb
  have hnone : mb.messages.filter (fun m => !(opened (MemoryStore.new.deliverRaw "INBOX" [97]
      [.deleted] 0).1 true).expunges mb none m) = [] := by
    refine List.filter_eq_nil_iff.mpr fun m hm => ?_
    have hflag : m.hasFlag .deleted ∈ [true] := hmarked ▸ List.mem_map_of_mem hm
    unfold expunges
    rw [List.mem_singleton.mp hflag]
    simp
  rw [hsame, hnone] at hmarked
  cases hmarked

/-- Of two messages the first is marked; the same mailbox is opened for writing and for reading. -/
theorem expunge_in_step_first :
    ∃ mb mb', (opened ((MemoryStore.new.deliverRaw "INBOX" [97] [.deleted] 0).1.deliverRaw "INBOX"
        [98] [] 0).1 false).store.mailbox "INBOX" = some mb ∧
      ((opened ((MemoryStore.new.deliverRaw "INBOX" [97] [.deleted] 0).1.deliverRaw "INBOX"
        [98] [] 0).1 false).cmdExpunge "a" none).1.store.mailbox "INBOX" = some mb' ∧
      heard false ((opened ((MemoryStore.new.deliverRaw "INBOX" [97] [.deleted] 0).1.deliverRaw
        "INBOX" [98] [] 0).1 false).cmdExpunge "a" none).2 (mb.messages.map Message.uid) =
        mb'.messages.map Message.uid ∧
      ((opened ((MemoryStore.new.deliverRaw "INBOX" [97] [.deleted] 0).1.deliverRaw
        "INBOX" [98] [] 0).1 true).cmdExpunge "a" none).2 = [no "a" "mailbox is read-only"] := by
  have hreach : Reachable .blank (opened ((MemoryStore.new.deliverRaw "INBOX" [97]
      [.deleted] 0).1.deliverRaw "INBOX" [98] [] 0).1 false).store :=
    ((reachable_new .blank).op (.deliverRaw "INBOX" [97] [.deleted] 0) rfl).op
      (.deliverRaw "INBOX" [98] [] 0) rfl
  have hsome : ((opened ((MemoryStore.new.deliverRaw "INBOX" [97] [.deleted] 0).1.deliverRaw "INBOX"
      [98] [] 0).1 false).store.mailbox "INBOX").isSome = true := by decide
  obtain ⟨mb, hmb⟩ := Option.isSome_iff_exists.mp hsome
  have hwrite := expunge_in_step hreach rfl hmb "a"
  have hread := expunge_in_step (s := opened _ true) hreach rfl hmb "a"
  obtain ⟨mb', hmb', hheard, -⟩ := hwrite.1 none
  obtain ⟨_, _, _, _, hno⟩ := hread.1 none
  exact ⟨mb, mb', hmb, hmb', hheard, hno rfl⟩

end Session
end Dmtap.Mail.Imap
