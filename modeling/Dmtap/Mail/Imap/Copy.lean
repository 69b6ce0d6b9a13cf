import Dmtap.Mail.Imap.Edits
import Dmtap.Mail.Imap.Targets

/-! COPY and MOVE: one new message in the destination for each message the set means, and nothing
else changes but what MOVE takes away. -/
namespace Dmtap.Mail.Imap
open Lib

/-- A reply that turns a command down. -/
def Reply.refuses : Reply → Bool
  | .status _ .no _ _ => true
  | .status _ .bad _ _ => true
  | _ => false

def Refused (out : List Reply) : Prop := ∃ reply ∈ out, reply.refuses = true

/-- The validity and the two lists of UIDs of a COPYUID. -/
def Reply.copyUid : Reply → Option (ℕ × List ℕ × List ℕ)
  | .status _ .ok (some (.copyUid validity source target)) _ => some (validity, source, target)
  | .untagged (.okCode (.copyUid validity source target) _) => some (validity, source, target)
  | _ => none

/-- The copy has the bytes, the flags and the date of the message. -/
structure CopyOf (m copy : Message) : Prop where
  raw : copy.raw = m.raw
  flags : copy.flags = m.flags
  internalDate : copy.internalDate = m.internalDate

namespace Session

/-- The messages a set means. -/
def chosen {σ : Type} (s : Session σ) (mb : Mailbox) (set : SequenceSet) (uidMode : Bool) :
    List Message :=
  picked (s.denotes mb set uidMode) mb.messages

/-- MOVE takes the messages with the UIDs of the chosen ones away. -/
def taken {σ : Type} (s : Session σ) (mb : Mailbox) (set : SequenceSet) (uidMode : Bool)
    (p : Message × ℕ) : Bool :=
  decide (p.1.uid ∈ (s.chosen mb set uidMode).map Message.uid)

/-- From `mb`, the selected mailbox, messages went into the mailbox `dmb` named `dest` as the
messages `new`. -/
structure Transferred (s s' : Session MemoryStore) (out : List Reply) (set : SequenceSet)
    (dest : String) (uidMode moved : Bool) (name : String) (mb dmb : Mailbox)
    (new : List Message) : Prop where
  selected : s.selected = some name
  source : s.store.mailbox name = some mb
  target : s.store.mailbox dest = some dmb
  chosen_iff : ∀ m, m ∈ s.chosen mb set uidMode ↔
    ∃ i, mb.messages[i]? = some m ∧ s.denotes mb set uidMode (m, i) = true
  ascending : (s.chosen mb set uidMode).Pairwise fun m m' => m.uid < m'.uid
  copies : List.Forall₂ CopyOf (s.chosen mb set uidMode) new
  consecutive : new.map Message.uid = List.range' dmb.uidNext new.length
  fresh : ∀ m ∈ dmb.messages, m.uid < dmb.uidNext
  reported : ∃ reply ∈ out, reply.copyUid =
    some (dmb.uidValidity, (s.chosen mb set uidMode).map Message.uid, new.map Message.uid)
  filed : (s'.store.mailbox dest).map Mailbox.messages =
    some ((dmb.messages.filter fun m =>
      !(moved && dest == name && (s.chosen mb set uidMode).contains m)) ++ new)
  left : dest ≠ name → (s'.store.mailbox name).map Mailbox.messages =
    some (mb.messages.filter fun m => !(moved && (s.chosen mb set uidMode).contains m))
  kept : dest ≠ name → moved = false → s'.store.mailbox name = some mb
  others : ∀ n, n ≠ dest → n ≠ name → s'.store.mailbox n = s.store.mailbox n

section Collect
variable {s : Session MemoryStore} {mb : Mailbox}

theorem chosen_ascending (h : mb.Invariant) (set : SequenceSet) (uidMode : Bool) :
    (s.chosen mb set uidMode).Pairwise fun m m' => m.uid < m'.uid :=
  h.ascending.sublist (picked_sublist _ _)

/-- What a COPY or MOVE collects. -/
theorem collectForCopy_eq (hs : s.store.WellFormed) {set : SequenceSet} {uidMode : Bool}
    {collected : List (ℕ × Message) × ℕ} (h : s.collectForCopy set uidMode = some collected) :
    ∃ name mb, s.selected = some name ∧ s.store.mailbox name = some mb ∧ mb.Invariant ∧
      collected.1 = (s.chosen mb set uidMode).map fun m => (m.uid, m) := by
  unfold collectForCopy at h
  obtain ⟨name, hname, h⟩ := Option.bind_eq_some_iff.mp h
  obtain ⟨mb, hmb, h⟩ := Option.bind_eq_some_iff.mp h
  have hinvariant := Mailbox.invariant_of_ledger (hs.ledgers name mb hmb)
  refine ⟨name, mb, hname, hmb, hinvariant, ?_⟩
  rw [← Option.some.inj h]
  dsimp only
  rw [resolveTargets_materialize hinvariant.ascending (by rw [hname]; exact hmb)]
  unfold chosen
  rw [picked_eq_filterMap]

theorem collectForCopy_isSome {name : String} (hname : s.selected = some name)
    (hmb : s.store.mailbox name = some mb) (set : SequenceSet) (uidMode : Bool) :
    (s.collectForCopy set uidMode).isSome = true := by
  unfold collectForCopy
  rw [hname]
  change (Option.bind (s.store.mailbox name) _).isSome = true
  rw [hmb]
  rfl

end Collect

section Copies
variable {mb : Mailbox}

theorem copies_forall₂ (mb : Mailbox) (l : List Message) : List.Forall₂ CopyOf l (copies mb l) := by
  induction l generalizing mb with
  | nil => exact List.Forall₂.nil
  | cons m l ih =>
    rw [copies_cons]
    exact List.Forall₂.cons ⟨rfl, rfl, rfl⟩ (ih _)

theorem copies_uid (mb : Mailbox) (l : List Message) :
    (copies mb l).map Message.uid = List.range' mb.uidNext l.length := by
  induction l generalizing mb with
  | nil => rfl
  | cons m l ih =>
    rw [copies_cons, List.map_cons, ih, List.length_cons, List.range'_succ]
    rfl

end Copies

theorem refused_singleton {reply : Reply} (h : reply.refuses = true) : Refused [reply] :=
  ⟨reply, List.mem_singleton_self _, h⟩

theorem not_refused_singleton {reply : Reply} (h : reply.refuses = false) : ¬Refused [reply] := by
  rintro ⟨reply', hmem, hrefuses⟩
  rw [List.mem_singleton.mp hmem, h] at hrefuses
  cases hrefuses

theorem refuses_removalLines {qresync : Bool} {indices vanished : List ℕ} {reply : Reply}
    (h : reply ∈ removalLines qresync indices vanished) : reply.refuses = false := by
  unfold removalLines at h
  split_ifs at h
  · cases h
  · rw [List.mem_singleton.mp h]
    rfl
  · obtain ⟨i, _, rfl⟩ := List.mem_map.mp h
    rfl

theorem not_refused_removal (qresync : Bool) (indices vanished : List ℕ) (u : Untagged)
    (tag text : String) :
    ¬Refused ([.untagged u] ++ removalLines qresync indices vanished ++ [ok tag text]) := by
  rintro ⟨reply, hmem, hrefuses⟩
  rcases List.mem_append.mp hmem with hmem | hmem
  · rcases List.mem_append.mp hmem with hmem | hmem
    · rw [List.mem_singleton.mp hmem] at hrefuses
      cases hrefuses
    · rw [refuses_removalLines hmem] at hrefuses
      cases hrefuses
  · rw [List.mem_singleton.mp hmem] at hrefuses
    cases hrefuses

section Remove
variable {mb : Mailbox}

theorem eq_of_uid (h : mb.Invariant) {m m' : Message} (hm : m ∈ mb.messages)
    (hm' : m' ∈ mb.messages) (huid : m.uid = m'.uid) : m = m' := by
  obtain ⟨i, hi⟩ := List.mem_iff_getElem?.mp hm
  obtain ⟨j, hj⟩ := List.mem_iff_getElem?.mp hm'
  have hi' := (h.indexOfUid_eq_some_iff m.uid i).mpr (by rw [hi]; rfl)
  have hj' := (h.indexOfUid_eq_some_iff m.uid j).mpr (by rw [hj, huid]; rfl)
  rw [Option.some.inj (hi'.symm.trans hj'), hj] at hi
  exact (Option.some.inj hi).symm

/-- The positions MOVE finds again by UID. -/
theorem sort_indexOfUid (h : mb.Invariant) {uids : List ℕ} (hnodup : uids.Nodup) :
    (uids.filterMap mb.indexOfUid).insertionSort (· ≤ ·) =
      positions (fun p => decide (p.1.uid ∈ uids)) mb.messages := by
  refine eq_positions ?_ fun i => ?_
  · have hle := List.pairwise_insertionSort (· ≤ ·) (uids.filterMap mb.indexOfUid)
    have hdistinct : (uids.filterMap mb.indexOfUid).Nodup := by
      refine hnodup.filterMap fun u u' i hu hu' => ?_
      rw [Option.mem_def, h.indexOfUid_eq_some_iff] at hu hu'
      exact Option.some.inj (hu.symm.trans hu')
    have hne := (List.perm_insertionSort (· ≤ ·) (uids.filterMap mb.indexOfUid)).nodup_iff.mpr
      hdistinct
    exact (hle.and hne).imp fun h => lt_of_le_of_ne h.1 h.2
  · rw [List.mem_insertionSort, List.mem_filterMap]
    constructor
    · rintro ⟨u, hu, hindex⟩
      obtain ⟨m, hm, rfl⟩ := Option.map_eq_some_iff.mp ((h.indexOfUid_eq_some_iff u i).mp hindex)
      exact ⟨m, hm, decide_eq_true hu⟩
    · rintro ⟨m, hm, hu⟩
      exact ⟨m.uid, of_decide_eq_true hu, (h.indexOfUid_eq_some_iff m.uid i).mpr (by rw [hm]; rfl)⟩

theorem uid_mem_chosen_iff (h : mb.Invariant) {l : List Message} (hl : l.Sublist mb.messages)
    {m : Message} (hm : m ∈ mb.messages) : m.uid ∈ l.map Message.uid ↔ m ∈ l := by
  constructor
  · intro hmem
    obtain ⟨m', hm', huid⟩ := List.mem_map.mp hmem
    rw [eq_of_uid h hm (hl.subset hm') huid.symm]
    exact hm'
  · exact fun hmem => List.mem_map_of_mem hmem

end Remove

section Copy
variable {s : Session MemoryStore}

/-- What a COPY and a MOVE have in common: the messages the set means are filed as copies. -/
theorem transferred_of_copies {s' : Session MemoryStore} {out : List Reply} {set : SequenceSet}
    {dest name : String} {uidMode moved : Bool} {mb dmb : Mailbox} (hs : s.store.WellFormed)
    (hname : s.selected = some name) (hmb : s.store.mailbox name = some mb)
    (hdmb : s.store.mailbox dest = some dmb)
    (reported : ∃ reply ∈ out, reply.copyUid =
      some (dmb.uidValidity, (s.chosen mb set uidMode).map Message.uid,
        List.range' dmb.uidNext (s.chosen mb set uidMode).length))
    (filed : (s'.store.mailbox dest).map Mailbox.messages =
      some ((dmb.messages.filter fun m =>
        !(moved && dest == name && (s.chosen mb set uidMode).contains m)) ++
          copies dmb (s.chosen mb set uidMode)))
    (left : dest ≠ name → (s'.store.mailbox name).map Mailbox.messages =
      some (mb.messages.filter fun m => !(moved && (s.chosen mb set uidMode).contains m)))
    (kept : dest ≠ name → moved = false → s'.store.mailbox name = some mb)
    (others : ∀ n, n ≠ dest → n ≠ name → s'.store.mailbox n = s.store.mailbox n) :
    s.Transferred s' out set dest uidMode moved name mb dmb
      (copies dmb (s.chosen mb set uidMode)) where
  selected := hname
  source := hmb
  target := hdmb
  chosen_iff := fun m => mem_picked
  ascending :=
    chosen_ascending (Mailbox.invariant_of_ledger (hs.ledgers name mb hmb)) set uidMode
  copies := copies_forall₂ dmb _
  consecutive := by
    rw [copies_uid, (copies_forall₂ dmb (s.chosen mb set uidMode)).length_eq]
  fresh := fun m hm => ((Mailbox.invariant_of_ledger (hs.ledgers dest dmb hdmb)).uids m hm).2
  reported := by
    rw [copies_uid]
    exact reported
  filed := filed
  left := left
  kept := kept
  others := others

/-- What a COPY or MOVE files. -/
theorem appendAll_collected {mb : Mailbox} {set : SequenceSet} {uidMode : Bool} (dmb : Mailbox)
    {copied : List (ℕ × Message)}
    (h : copied = (s.chosen mb set uidMode).map fun m => (m.uid, m)) :
    copied.map Prod.fst = (s.chosen mb set uidMode).map Message.uid ∧
      (appendAll dmb copied).1.messages =
        dmb.messages ++ copies dmb (s.chosen mb set uidMode) ∧
      (appendAll dmb copied).2 = List.range' dmb.uidNext (s.chosen mb set uidMode).length := by
  obtain ⟨hmessages, huids⟩ := appendAll_spec dmb copied
  have hsnd : copied.map Prod.snd = s.chosen mb set uidMode := by
    rw [h, List.map_map]
    exact List.map_id _
  rw [hsnd] at hmessages
  rw [h, List.length_map] at huids
  refine ⟨?_, hmessages, ?_⟩
  · rw [h, List.map_map]
    rfl
  · rw [h]
    exact huids

/-- COPY turns down, or files the copies. -/
theorem cmdCopy_cases (hs : s.store.WellFormed) (tag : String) (set : SequenceSet) (dest : String)
    (uidMode : Bool) :
    (∃ reply, reply.refuses = true ∧ s.cmdCopy tag set dest uidMode = (s, [reply])) ∨
    ∃ name mb dmb dmb', s.selected = some name ∧ s.store.mailbox name = some mb ∧
      s.store.mailbox dest = some dmb ∧
      dmb'.messages = dmb.messages ++ copies dmb (s.chosen mb set uidMode) ∧
      s.cmdCopy tag set dest uidMode = ({ s with store := s.store.put dest dmb' },
        [.status tag .ok (some (.copyUid dmb.uidValidity
          ((s.chosen mb set uidMode).map Message.uid)
          (List.range' dmb.uidNext (s.chosen mb set uidMode).length))) "COPY completed"]) := by
  unfold cmdCopy
  cases hcollect : s.collectForCopy set uidMode with
  | none => exact Or.inl ⟨_, rfl, rfl⟩
  | some collected =>
    dsimp only
    cases hdest : MailStore.mailboxMut s.store dest with
    | none => exact Or.inl ⟨_, rfl, rfl⟩
    | some p =>
      obtain ⟨dmb, write⟩ := p
      obtain ⟨hdmb, rfl⟩ := MemoryStore.mailboxMut_eq_some hdest
      obtain ⟨name, mb, hname, hmb, -, hcollected⟩ := collectForCopy_eq hs hcollect
      obtain ⟨hsource, hmessages, huids⟩ := appendAll_collected dmb hcollected
      refine Or.inr ⟨name, mb, dmb, (appendAll dmb collected.1).1, hname, hmb, hdmb, hmessages, ?_⟩
      rw [← hsource, ← huids]

theorem cmdCopy_transferred (hs : s.store.WellFormed) (tag : String) (set : SequenceSet)
    (dest : String) (uidMode : Bool) :
    (Refused (s.cmdCopy tag set dest uidMode).2 →
      (s.cmdCopy tag set dest uidMode).1.store = s.store) ∧
    (¬Refused (s.cmdCopy tag set dest uidMode).2 →
      ∃ name mb dmb new, s.Transferred (s.cmdCopy tag set dest uidMode).1
        (s.cmdCopy tag set dest uidMode).2 set dest uidMode false name mb dmb new) := by
  rcases cmdCopy_cases hs tag set dest uidMode with ⟨reply, hrefuses, heq⟩ |
    ⟨name, mb, dmb, dmb', hname, hmb, hdmb, hmessages, heq⟩
  · rw [heq]
    exact ⟨fun _ => rfl, fun h => absurd (refused_singleton hrefuses) h⟩
  · rw [heq]
    refine ⟨fun h => absurd h (not_refused_singleton rfl), fun _ => ?_⟩
    refine ⟨name, mb, dmb, _, transferred_of_copies hs hname hmb hdmb ?_ ?_ ?_ ?_ ?_⟩
    · exact ⟨_, List.mem_singleton_self _, rfl⟩
    · rw [MemoryStore.mailbox_put, if_pos rfl, Option.map_some, hmessages]
      simp
    · intro hne
      rw [MemoryStore.mailbox_put, if_neg (Ne.symm hne), hmb]
      simp
    · intro hne _
      rw [MemoryStore.mailbox_put, if_neg (Ne.symm hne), hmb]
    · intro n hn _
      rw [MemoryStore.mailbox_put, if_neg hn]

theorem removeAll_taken (mb smb : Mailbox) (set : SequenceSet) (uidMode : Bool) :
    (removeAll smb (positions (s.taken mb set uidMode) smb.messages)).1.messages =
      smb.messages.filter fun m =>
        !decide (m.uid ∈ (s.chosen mb set uidMode).map Message.uid) := by
  rw [removeAll_messages, eraseAll_positions]
  exact picked_of_item (fun m : Message => !decide (m.uid ∈ (s.chosen mb set uidMode).map Message.uid)) _

/-- The messages that stay in the mailbox the chosen ones are removed from. -/
theorem filter_chosen {mb : Mailbox} (h : mb.Invariant) (set : SequenceSet) (uidMode : Bool) :
    (mb.messages.filter fun m =>
      !decide (m.uid ∈ (s.chosen mb set uidMode).map Message.uid)) =
      mb.messages.filter fun m => !(s.chosen mb set uidMode).contains m := by
  refine List.filter_congr fun m hm => congrArg Bool.not (Bool.eq_iff_iff.mpr ?_)
  rw [decide_eq_true_iff, List.contains_iff_mem]
  exact uid_mem_chosen_iff h (picked_sublist (s.denotes mb set uidMode) mb.messages) hm

theorem chosen_uids_nodup {mb : Mailbox} (h : mb.Invariant) (set : SequenceSet) (uidMode : Bool) :
    ((s.chosen mb set uidMode).map Message.uid).Nodup :=
  List.pairwise_map.mpr ((chosen_ascending h set uidMode).imp ne_of_lt)

/-- Copies have UIDs of their own. -/
theorem filter_copies {mb : Mailbox} (h : mb.Invariant) (set : SequenceSet) (uidMode : Bool) :
    ((copies mb (s.chosen mb set uidMode)).filter fun m =>
      !decide (m.uid ∈ (s.chosen mb set uidMode).map Message.uid)) =
      copies mb (s.chosen mb set uidMode) := by
  refine List.filter_eq_self.mpr fun c hc => ?_
  have huid : c.uid ∈ List.range' mb.uidNext (s.chosen mb set uidMode).length := by
    rw [← copies_uid]
    exact List.mem_map_of_mem hc
  have hle : mb.uidNext ≤ c.uid := (List.mem_range'_1.mp huid).1
  rw [Bool.not_eq_true', decide_eq_false_iff_not]
  intro hmem
  obtain ⟨m, hm, heq⟩ := List.mem_map.mp hmem
  have hlt := (h.uids m ((picked_sublist (s.denotes mb set uidMode) mb.messages).subset hm)).2
  omega

/-- The selected mailbox, found again after the copies are filed, perhaps in it. -/
theorem source_after_append {mb dmb : Mailbox} {name dest : String} {set : SequenceSet}
    {uidMode : Bool} {copied : List (ℕ × Message)} (hs : s.store.WellFormed)
    (hmb : s.store.mailbox name = some mb) (hdmb : s.store.mailbox dest = some dmb)
    (h : copied = (s.chosen mb set uidMode).map fun m => (m.uid, m)) :
    ∃ smb, (s.store.put dest (appendAll dmb copied).1).mailbox name = some smb ∧ smb.Invariant ∧
      (dest = name → smb.messages = mb.messages ++ copies mb (s.chosen mb set uidMode)) ∧
      (dest ≠ name → smb = mb) := by
  rw [MemoryStore.mailbox_put]
  by_cases heq : name = dest
  · rw [if_pos heq]
    have hsame : dmb = mb := by
      rw [← heq, hmb] at hdmb
      exact (Option.some.inj hdmb).symm
    have hledger := (Mailbox.edits_appendAll dmb copied).grows.ledger.wellFormed
      (hs.ledgers dest dmb hdmb)
    refine ⟨_, rfl, Mailbox.invariant_of_ledger hledger, fun _ => ?_, fun hne => absurd heq.symm hne⟩
    rw [(appendAll_collected dmb h).2.1, hsame]
  · rw [if_neg heq]
    exact ⟨mb, hmb, Mailbox.invariant_of_ledger (hs.ledgers name mb hmb),
      fun h => absurd h.symm heq, fun _ => rfl⟩

/-- MOVE turns down, or files the copies and then removes the messages it finds again in the
selected mailbox. -/
theorem cmdMove_cases (hs : s.store.WellFormed) (tag : String) (set : SequenceSet) (dest : String)
    (uidMode : Bool) :
    (∃ reply, reply.refuses = true ∧ s.cmdMove tag set dest uidMode = (s, [reply]) ∧
      ∀ name mb, s.selected = some name → s.store.mailbox name = some mb →
        s.store.mailbox dest = none) ∨
    ∃ name mb dmb dmb' smb, s.selected = some name ∧ s.store.mailbox name = some mb ∧
      s.store.mailbox dest = some dmb ∧
      dmb'.messages = dmb.messages ++ copies dmb (s.chosen mb set uidMode) ∧ smb.Invariant ∧
      (dest = name → smb.messages = mb.messages ++ copies mb (s.chosen mb set uidMode)) ∧
      (dest ≠ name → smb = mb) ∧
      s.cmdMove tag set dest uidMode =
        ({ s with
            store := (s.store.put dest dmb').put name
              (removeAll smb (positions (s.taken mb set uidMode) smb.messages)).1 },
          [.untagged (.okCode (.copyUid dmb.uidValidity
            ((s.chosen mb set uidMode).map Message.uid)
            (List.range' dmb.uidNext (s.chosen mb set uidMode).length)) "MOVE")] ++
          removalLines s.qresync (positions (s.taken mb set uidMode) smb.messages)
            (removeAll smb (positions (s.taken mb set uidMode) smb.messages)).2 ++
          [ok tag "MOVE completed"]) := by
  unfold cmdMove
  cases hselected : s.selected with
  | none => exact Or.inl ⟨_, rfl, rfl, nofun⟩
  | some name =>
    dsimp only
    cases hcollect : s.collectForCopy set uidMode with
    | none =>
      refine Or.inl ⟨_, rfl, rfl, fun name' mb hname hmb => ?_⟩
      have hsome := collectForCopy_isSome (hselected.trans hname) hmb set uidMode
      rw [hcollect] at hsome
      cases hsome
    | some collected =>
      dsimp only
      cases hdest : MailStore.mailboxMut s.store dest with
      | none => exact Or.inl ⟨_, rfl, rfl, fun _ _ _ _ => Option.map_eq_none_iff.mp hdest⟩
      | some p =>
        obtain ⟨dmb, write⟩ := p
        obtain ⟨hdmb, rfl⟩ := MemoryStore.mailboxMut_eq_some hdest
        obtain ⟨name', mb, hname, hmb, hinvariant, hcollected⟩ := collectForCopy_eq hs hcollect
        obtain rfl : name' = name := Option.some.inj (hname.symm.trans hselected)
        obtain ⟨hsource, hmessages, huids⟩ := appendAll_collected dmb hcollected
        obtain ⟨smb, hsmb, hsinvariant, hself, hother⟩ := source_after_append hs hmb hdmb hcollected
        dsimp only
        rw [MemoryStore.mailboxMut_of_mailbox hsmb]
        dsimp only
        rw [hsource, huids, sort_indexOfUid hsinvariant (chosen_uids_nodup hinvariant set uidMode)]
        exact Or.inr ⟨name', mb, dmb, (appendAll dmb collected.1).1, smb, rfl, hmb, hdmb, hmessages,
          hsinvariant, hself, hother, rfl⟩

theorem cmdMove_transferred (hs : s.store.WellFormed) (tag : String) (set : SequenceSet)
    (dest : String) (uidMode : Bool) :
    (Refused (s.cmdMove tag set dest uidMode).2 →
      (s.cmdMove tag set dest uidMode).1.store = s.store) ∧
    (¬Refused (s.cmdMove tag set dest uidMode).2 →
      ∃ name mb dmb new, s.Transferred (s.cmdMove tag set dest uidMode).1
        (s.cmdMove tag set dest uidMode).2 set dest uidMode true name mb dmb new) := by
  rcases cmdMove_cases hs tag set dest uidMode with ⟨reply, hrefuses, heq, -⟩ |
    ⟨name, mb, dmb, dmb', smb, hname, hmb, hdmb, hmessages, hsinvariant, hself, hother, heq⟩
  · rw [heq]
    exact ⟨fun _ => rfl, fun h => absurd (refused_singleton hrefuses) h⟩
  · rw [heq]
    have hinvariant := Mailbox.invariant_of_ledger (hs.ledgers name mb hmb)
    have hremoved := removeAll_taken (s := s) mb smb set uidMode
    refine ⟨fun h => absurd h (not_refused_removal _ _ _ _ _ _), fun _ => ?_⟩
    refine ⟨name, mb, dmb, _, transferred_of_copies hs hname hmb hdmb ?_ ?_ ?_ ?_ ?_⟩
    · exact ⟨_, List.mem_append_left _ (List.mem_append_left _ (List.mem_singleton_self _)), rfl⟩
    · rw [MemoryStore.mailbox_put]
      by_cases hdest : dest = name
      · have hsame : dmb = mb := by
          rw [hdest, hmb] at hdmb
          exact (Option.some.inj hdmb).symm
        rw [if_pos hdest, Option.map_some, hremoved, hself hdest, List.filter_append,
          filter_chosen hinvariant, filter_copies hinvariant, hsame, hdest]
        simp
      · have hbeq : (dest == name) = false := beq_false_of_ne hdest
        rw [if_neg hdest, MemoryStore.mailbox_put, if_pos rfl, Option.map_some, hmessages, hbeq]
        simp
    · intro hne
      rw [MemoryStore.mailbox_put, if_pos rfl, Option.map_some, hremoved, hother hne,
        filter_chosen hinvariant]
      simp
    · exact fun _ h => nomatch h
    · intro n hn hn'
      rw [MemoryStore.mailbox_put, if_neg hn', MemoryStore.mailbox_put, if_neg hn]

/-- A COPY or MOVE that is refused leaves the store as it was. Otherwise the destination, which may
be the selected mailbox, gains one copy of each message the set means, MOVE takes exactly these
messages away, and everything else is as it was. -/
theorem copy_move_exact {r : Renderers} {s : Session MemoryStore} (h : Reachable r s.store)
    (tag : String) (set : SequenceSet) (dest : String) (uidMode : Bool) :
    ((Refused (s.cmdCopy tag set dest uidMode).2 →
        (s.cmdCopy tag set dest uidMode).1.store = s.store) ∧
      (¬Refused (s.cmdCopy tag set dest uidMode).2 →
        ∃ name mb dmb new, s.Transferred (s.cmdCopy tag set dest uidMode).1
          (s.cmdCopy tag set dest uidMode).2 set dest uidMode false name mb dmb new)) ∧
    (Refused (s.cmdMove tag set dest uidMode).2 →
      (s.cmdMove tag set dest uidMode).1.store = s.store) ∧
    (¬Refused (s.cmdMove tag set dest uidMode).2 →
      ∃ name mb dmb new, s.Transferred (s.cmdMove tag set dest uidMode).1
        (s.cmdMove tag set dest uidMode).2 set dest uidMode true name mb dmb new) :=
  ⟨cmdCopy_transferred h.wellFormed tag set dest uidMode,
    cmdMove_transferred h.wellFormed tag set dest uidMode⟩

end Copy

/-- A MOVE of every message of INBOX to INBOX itself. -/
theorem copy_move_exact_self :
    ∃ name mb dmb new, (opened (MemoryStore.new.deliverRaw "INBOX" [97] [] 0).1 false).Transferred
      ((opened (MemoryStore.new.deliverRaw "INBOX" [97] [] 0).1 false).cmdMove "a"
        ⟨[(.num 1, .star)], false⟩ "INBOX" false).1
      ((opened (MemoryStore.new.deliverRaw "INBOX" [97] [] 0).1 false).cmdMove "a"
        ⟨[(.num 1, .star)], false⟩ "INBOX" false).2
      ⟨[(.num 1, .star)], false⟩ "INBOX" false true name mb dmb new :=
  (copy_move_exact (s := opened (MemoryStore.new.deliverRaw "INBOX" [97] [] 0).1 false)
    ((reachable_new .blank).op (.deliverRaw "INBOX" [97] [] 0) rfl) "a"
    ⟨[(.num 1, .star)], false⟩ "INBOX" false).2.2 (by unfold Refused; decide)

end Session
end Dmtap.Mail.Imap
