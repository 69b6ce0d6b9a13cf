import Dmtap.Mail.Invariant

/-! The catch-up after a reconnect, by what its lines mean: they bring a client that knows the flags
of every UID as of some modification sequence to what the mailbox holds now. -/
namespace Dmtap.Mail
open Lib Imap

/-- What a client knows of a mailbox: the flags of the message under each UID. -/
def Mailbox.flagsOf (mb : Mailbox) (uid : ℕ) : Option (List Flag) :=
  (mb.messages.find? fun m => m.uid = uid).map Message.flags

theorem Mailbox.flagsOf_eq_view (mb : Mailbox) (uid : ℕ) :
    mb.flagsOf uid = (mb.ledger.view uid).map Content.flags := by
  unfold Mailbox.flagsOf Ledger.view Mailbox.ledger
  rw [List.find?_map, Option.map_map, Option.map_map]
  rfl

theorem Mailbox.flagsOf_of_mem {mb : Mailbox} (hmb : mb.ledger.WellFormed) {m : Message}
    (hm : m ∈ mb.messages) : mb.flagsOf m.uid = some m.flags := by
  have hview := hmb.view_of_mem (Mailbox.mem_ledger_live hm)
  rw [Mailbox.flagsOf_eq_view]
  exact congrArg (Option.map Content.flags) hview

/-- The UID in the data of a FETCH line. -/
def dataUid (data : List Datum) : Option ℕ :=
  data.findSome? fun
    | .uid n => some n
    | _ => none

/-- The flags in the data of a FETCH line. -/
def dataFlags (data : List Datum) : Option (List Flag) :=
  data.findSome? fun
    | .flags fs => some fs
    | _ => none

/-- What an untagged line means to a client: drop what vanished, set the flags it is told. -/
def applyLine (known : ℕ → Option (List Flag)) : Untagged → ℕ → Option (List Flag)
  | .vanishedEarlier uids, uid => if uid ∈ uids then none else known uid
  | .fetch _ data, uid => if dataUid data = some uid then dataFlags data else known uid
  | _, uid => known uid

/-- The FETCH line of the catch-up for a message and its index. -/
def resyncLine (p : Message × ℕ) : Untagged :=
  .fetch (p.2 + 1) [.uid p.1.uid, .modseq p.1.modseq, .flags p.1.flags]

theorem applyLine_resyncLine (known : ℕ → Option (List Flag)) (p : Message × ℕ) (uid : ℕ) :
    applyLine known (resyncLine p) uid = if p.1.uid = uid then some p.1.flags else known uid := by
  simp [applyLine, resyncLine, dataUid, dataFlags]

section Lines
variable {known : ℕ → Option (List Flag)} {l : List (Message × ℕ)} {uid : ℕ}

theorem foldl_resyncLine_of_ne (h : ∀ p ∈ l, p.1.uid ≠ uid) :
    (l.map resyncLine).foldl applyLine known uid = known uid := by
  induction l generalizing known with
  | nil => rfl
  | cons p l ih =>
    rw [List.map_cons, List.foldl_cons, ih fun q hq => h q (List.mem_cons_of_mem _ hq),
      applyLine_resyncLine, if_neg (h p List.mem_cons_self)]

theorem foldl_resyncLine_of_mem {flags : List Flag} (hmem : ∃ p ∈ l, p.1.uid = uid)
    (h : ∀ p ∈ l, p.1.uid = uid → p.1.flags = flags) :
    (l.map resyncLine).foldl applyLine known uid = some flags := by
  induction l generalizing known with
  | nil =>
    obtain ⟨p, hp, -⟩ := hmem
    cases hp
  | cons p l ih =>
    rw [List.map_cons, List.foldl_cons]
    by_cases hlater : ∃ q ∈ l, q.1.uid = uid
    · exact ih hlater fun q hq => h q (List.mem_cons_of_mem _ hq)
    · have hp : p.1.uid = uid := by
        obtain ⟨q, hq, huid⟩ := hmem
        rcases List.mem_cons.mp hq with rfl | hq
        · exact huid
        · exact absurd ⟨q, hq, huid⟩ hlater
      rw [foldl_resyncLine_of_ne fun q hq huid => hlater ⟨q, hq, huid⟩, applyLine_resyncLine,
        if_pos hp, h p List.mem_cons_self hp]

end Lines

theorem Mailbox.mem_vanishedSince {mb : Mailbox} {modseq uid : ℕ} :
    uid ∈ mb.vanishedSince modseq ↔ ∃ t, (uid, t) ∈ mb.expunged ∧ modseq < t := by
  unfold Mailbox.vanishedSince
  rw [List.mem_insertionSort, List.mem_map]
  constructor
  · rintro ⟨p, hp, rfl⟩
    obtain ⟨hmem, hlt⟩ := List.mem_filter.mp hp
    exact ⟨p.2, hmem, by simpa using hlt⟩
  · rintro ⟨t, hmem, hlt⟩
    exact ⟨(uid, t), List.mem_filter.mpr ⟨hmem, by simpa using hlt⟩, rfl⟩

/-- Without a set of known UIDs the catch-up is one line for what vanished and one for each
message that changed. -/
theorem qresyncResync_eq {s : MemoryStore} {name : String} {mb : Mailbox}
    (hmb : s.mailbox name = some mb) (modseq : ℕ) :
    Session.qresyncResync s name modseq none =
      (if ((mb.vanishedSince modseq).insertionSort (· ≤ ·)).isEmpty then []
        else [.vanishedEarlier ((mb.vanishedSince modseq).insertionSort (· ≤ ·))]) ++
      (mb.messages.zipIdx.filter fun p => modseq < p.1.modseq).map resyncLine := by
  unfold Session.qresyncResync
  rw [show MailStore.mailbox s name = some mb from hmb]
  simp [resyncLine]

/-- The vanished line drops the UIDs that went away since then. -/
theorem applyLine_vanished (known : ℕ → Option (List Flag)) (mb : Mailbox) (modseq uid : ℕ) :
    (if ((mb.vanishedSince modseq).insertionSort (· ≤ ·)).isEmpty then []
      else [Untagged.vanishedEarlier ((mb.vanishedSince modseq).insertionSort (· ≤ ·))]).foldl
        applyLine known uid =
      if uid ∈ mb.vanishedSince modseq then none else known uid := by
  by_cases hempty : ((mb.vanishedSince modseq).insertionSort (· ≤ ·)).isEmpty = true
  · have hnot : uid ∉ mb.vanishedSince modseq := by
      intro hmem
      have hsorted := (List.mem_insertionSort (· ≤ ·)).mpr hmem
      rw [List.isEmpty_iff.mp hempty] at hsorted
      cases hsorted
    rw [if_pos hempty, if_neg hnot]
    rfl
  · rw [if_neg hempty]
    simp [applyLine]

/-- The catch-up since the highest modification sequence of an earlier mailbox turns the flags a
client knows from it into those of the later one. -/
theorem resync_of_grows {mb mb' : Mailbox} (hmb : mb.ledger.WellFormed)
    (hmb' : mb'.ledger.WellFormed) (hgrows : mb.Grows mb') {s : MemoryStore} {name : String}
    (hname : s.mailbox name = some mb') :
    (Session.qresyncResync s name mb.highestModseq none).foldl applyLine mb.flagsOf =
      mb'.flagsOf := by
  funext uid
  have hsince := hgrows.ledger.since
  rw [qresyncResync_eq hname, List.foldl_append]
  by_cases hchanged : ∃ m ∈ mb'.messages, m.uid = uid ∧ mb.highestModseq < m.modseq
  · obtain ⟨m, hm, rfl, hlt⟩ := hchanged
    rw [Mailbox.flagsOf_of_mem hmb' hm]
    apply foldl_resyncLine_of_mem
    · obtain ⟨i, hi⟩ := List.mem_iff_getElem?.mp hm
      exact ⟨(m, i), List.mem_filter.mpr ⟨List.mem_zipIdx_iff_getElem?.mpr hi, by simpa using hlt⟩,
        rfl⟩
    · intro p hp huid
      have hmem : p.1 ∈ mb'.messages :=
        List.fst_mem_of_mem_zipIdx (List.mem_filter.mp hp).1
      have hflags := Mailbox.flagsOf_of_mem hmb' hmem
      rw [huid, Mailbox.flagsOf_of_mem hmb' hm] at hflags
      exact (Option.some.inj hflags).symm
  · have hquiet : ∀ e ∈ mb'.ledger.live, mb.ledger.clock < e.stamp → e.key ≠ uid := by
      intro e he hlt hkey
      obtain ⟨m, hm, rfl⟩ := List.mem_map.mp he
      exact hchanged ⟨m, hm, hkey, hlt⟩
    rw [foldl_resyncLine_of_ne, applyLine_vanished]
    · by_cases hvanished : uid ∈ mb'.vanishedSince mb.highestModseq
      · obtain ⟨t, hmem, hlt⟩ := Mailbox.mem_vanishedSince.mp hvanished
        have hgone := hmb'.view_of_gone (p := (uid, t)) hmem
        rw [if_pos hvanished, Mailbox.flagsOf_eq_view, hgone]
        rfl
      · rw [if_neg hvanished]
        have hview := hsince.view_eq hmb hquiet fun p hp hlt hkey =>
          hvanished (Mailbox.mem_vanishedSince.mpr ⟨p.2, hkey ▸ hp, hlt⟩)
        rw [Mailbox.flagsOf_eq_view, Mailbox.flagsOf_eq_view, hview]
    · intro p hp huid
      obtain ⟨hmem, hlt⟩ := List.mem_filter.mp hp
      exact hchanged ⟨p.1, List.fst_mem_of_mem_zipIdx hmem, huid, by simpa using hlt⟩

end Dmtap.Mail
