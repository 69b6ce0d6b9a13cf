import Dmtap.Mail.Cleartext
import Dmtap.Mail.Edits

/-! What a POP3 session is for: the messages that INBOX had at login under their numbers, the
numbers marked as deleted, and the deletions that QUIT commits. -/
namespace Dmtap.Mail
open Lib

/-- A store whose borrows of a mailbox agree, and where writing one back changes no other. -/
class LawfulMailStore (σ : Type) [MailStore σ] : Prop where
  mailboxMut_fst : ∀ (s : σ) (name : String),
    (MailStore.mailboxMut s name).map Prod.fst = MailStore.mailbox s name
  mailbox_write : ∀ {s : σ} {name : String} {mb : Mailbox} {write : Mailbox → σ},
    MailStore.mailboxMut s name = some (mb, write) → ∀ mb' name',
      MailStore.mailbox (write mb') name' =
        if name' = name then some mb' else MailStore.mailbox s name'
  mailboxNames_write : ∀ {s : σ} {name : String} {mb : Mailbox} {write : Mailbox → σ},
    MailStore.mailboxMut s name = some (mb, write) → ∀ mb',
      MailStore.mailboxNames (write mb') = MailStore.mailboxNames s

instance : LawfulMailStore MemoryStore where
  mailboxMut_fst := by
    intro s name
    change ((s.mailbox name).map fun mb => (mb, s.put name)).map Prod.fst = s.mailbox name
    rw [Option.map_map]
    exact Option.map_id'
  mailbox_write := by
    intro s name mb write h mb' name'
    rw [(MemoryStore.mailboxMut_eq_some h).2]
    exact s.mailbox_put name mb' name'
  mailboxNames_write := by
    intro s name mb write h mb'
    rw [(MemoryStore.mailboxMut_eq_some h).2]
    rfl

namespace Pop3

/-- The messages of INBOX, if there is one. -/
def inboxMessages {σ : Type} [MailStore σ] (store : σ) : List Message :=
  ((MailStore.mailbox store "INBOX").map Mailbox.messages).getD []

/-- The messages at login and the numbers marked as deleted, counted from one. -/
structure Maildrop where
  messages : List Message
  marks : List ℕ
  deriving DecidableEq

namespace Maildrop
variable (d : Maildrop)

section Answers

/-- The messages not marked, with their numbers. -/
def left : List (ℕ × Message) :=
  (d.messages.zipIdx.filter fun p => !d.marks.contains (p.2 + 1)).map fun p => (p.2 + 1, p.1)

/-- The message that a number denotes, unless it is marked. -/
def find? (num : String) : Option (ℕ × Message) := do
  let n ← parseU64 (trim num)
  if n = 0 ∨ n ∈ d.marks then none else d.messages[n - 1]?.map fun m => (n, m)

def refusal : String := "-ERR no such message\r\n"

def listing (follows : String) (number : Message → ℕ) (rest : String) : String :=
  if rest = "" then
    "+OK " ++ follows ++ "\r\n" ++ String.join (d.left.map fun p =>
      toString p.1 ++ " " ++ toString (number p.2) ++ "\r\n") ++ ".\r\n"
  else
    match d.find? rest with
    | some (n, m) => "+OK " ++ toString n ++ " " ++ toString (number m) ++ "\r\n"
    | none => refusal

def top (rest : String) : Bytes :=
  match d.find? ((splitWhitespace rest).headD "") with
  | some (_, m) =>
    utf8 "+OK\r\n" ++ dotStuff ((headerAndBody m.raw).1 ++
      ((splitInclusive (headerAndBody m.raw).2).take
        (((splitWhitespace rest)[1]?.bind parseU64).getD 0)).flatten) ++ utf8 ".\r\n"
  | none => utf8 refusal

/-- What the commands about messages answer. -/
def answer (verb rest : String) : Option Bytes :=
  match verb with
  | "STAT" => some (utf8 ("+OK " ++ toString d.left.length ++ " " ++
      toString (d.left.map fun p => p.2.size).sum ++ "\r\n"))
  | "LIST" => some (utf8 (d.listing "scan listing follows" Message.size rest))
  | "UIDL" => some (utf8 (d.listing "unique-id listing follows" Message.uid rest))
  | "RETR" =>
    match d.find? rest with
    | some (_, m) => some (utf8 ("+OK " ++ toString m.size ++ " octets\r\n") ++ dotStuff m.raw ++
        utf8 ".\r\n")
    | none => some (utf8 refusal)
  | "TOP" => some (d.top rest)
  | "DELE" => some (utf8 (if (d.find? rest).isSome then "+OK message deleted\r\n" else refusal))
  | _ => none

/-- DELE marks what it accepts, and RSET takes all marks back. -/
def after (verb rest : String) : Maildrop :=
  match verb with
  | "DELE" => { d with marks := ((d.find? rest).map Prod.fst).toList ++ d.marks }
  | "RSET" => { d with marks := [] }
  | _ => d

end Answers

section Commit

/-- A message that was there at login under a number that is marked. -/
def isMarked (m : Message) : Bool :=
  d.messages.zipIdx.any fun p => p.1 == m && d.marks.contains (p.2 + 1)

/-- INBOX without the marked messages, whose removal is logged one by one. -/
def commit (mb : Mailbox) : Mailbox :=
  let gone := mb.messages.filter d.isMarked
  { mb with
    highestModseq := mb.highestModseq + gone.length
    messages := mb.messages.filter fun m => !d.isMarked m
    expunged := mb.expunged ++ gone.zipIdx.map fun p => (p.1.uid, mb.highestModseq + p.2 + 1) }

/-- INBOX has lost the marked messages, and nothing else has changed. -/
structure Committed {σ : Type} [MailStore σ] (d : Maildrop) (store store' : σ) : Prop where
  names : MailStore.mailboxNames store' = MailStore.mailboxNames store
  inbox : MailStore.mailbox store' "INBOX" = (MailStore.mailbox store "INBOX").map d.commit
  others : ∀ name, name ≠ "INBOX" → MailStore.mailbox store' name = MailStore.mailbox store name

theorem Committed.sublist {σ : Type} [MailStore σ] {d : Maildrop} {store store' : σ}
    (h : d.Committed store store') : (inboxMessages store').Sublist (inboxMessages store) := by
  unfold inboxMessages
  rw [h.inbox]
  cases MailStore.mailbox store "INBOX" with
  | none => exact List.Sublist.refl _
  | some mb => exact List.filter_sublist

theorem messages_after (verb rest : String) : (d.after verb rest).messages = d.messages := by
  unfold after
  split <;> rfl

end Commit

section Lookup
variable {d} {n : ℕ} {m : Message}

theorem mem_left : (n, m) ∈ d.left ↔ n ≠ 0 ∧ n ∉ d.marks ∧ d.messages[n - 1]? = some m := by
  unfold left
  rw [List.mem_map]
  constructor
  · rintro ⟨⟨m', i⟩, hmem, heq⟩
    obtain ⟨rfl, rfl⟩ := Prod.mk.inj heq
    obtain ⟨hzip, hmark⟩ := List.mem_filter.mp hmem
    exact ⟨Nat.succ_ne_zero i, by simpa using hmark, List.mem_zipIdx_iff_getElem?.mp hzip⟩
  · rintro ⟨hn, hmark, hget⟩
    obtain ⟨i, rfl⟩ := Nat.exists_eq_succ_of_ne_zero hn
    refine ⟨(m, i), List.mem_filter.mpr ⟨List.mem_zipIdx_iff_getElem?.mpr hget, ?_⟩, rfl⟩
    simpa using hmark

/-- A number denotes the message that the listing shows it for. -/
theorem find?_eq_some_iff {num : String} :
    d.find? num = some (n, m) ↔ parseU64 (trim num) = some n ∧ (n, m) ∈ d.left := by
  rw [mem_left]
  unfold find?
  cases parseU64 (trim num) with
  | none => simp
  | some k =>
    simp only [Option.bind_eq_bind, Option.bind_some, Option.some.injEq]
    by_cases hk : k = 0 ∨ k ∈ d.marks
    · rw [if_pos hk]
      constructor
      · exact fun h => nomatch h
      · rintro ⟨rfl, hn, hmark, -⟩
        exact absurd hk (not_or.mpr ⟨hn, hmark⟩)
    · rw [if_neg hk, Option.map_eq_some_iff]
      obtain ⟨hzero, hmark⟩ := not_or.mp hk
      constructor
      · rintro ⟨m', hget, heq⟩
        obtain ⟨rfl, rfl⟩ := Prod.mk.inj heq
        exact ⟨rfl, hzero, hmark, hget⟩
      · rintro ⟨rfl, -, -, hget⟩
        exact ⟨m, hget, rfl⟩

end Lookup

section Quiet
variable {verb : String}

theorem after_of_ne (hdele : verb ≠ "DELE") (hrset : verb ≠ "RSET") (rest : String) :
    d.after verb rest = d := by
  unfold after
  split
  · exact absurd rfl hdele
  · exact absurd rfl hrset
  · rfl

theorem answer_of_not_mem (h : verb ∉ ["STAT", "LIST", "UIDL", "RETR", "TOP", "DELE"])
    (rest : String) : d.answer verb rest = none := by
  unfold answer
  split
  case h_7 => rfl
  all_goals exact absurd (by decide) h

end Quiet

section Slots

/-- The maildrop as the session keeps it. -/
def slots : List Slot :=
  d.messages.zipIdx.map fun p => ⟨p.1.uid, p.1.raw, d.marks.contains (p.2 + 1)⟩

theorem getElem?_slots (i : ℕ) : d.slots[i]? =
    d.messages[i]?.map fun m => ⟨m.uid, m.raw, d.marks.contains (i + 1)⟩ := by
  unfold slots
  rw [List.getElem?_map, List.getElem?_zipIdx]
  cases d.messages[i]? <;> simp

theorem slots_mark (n : ℕ) :
    d.slots.modify n (fun slot => { slot with deleted := true }) =
      ({ d with marks := (n + 1) :: d.marks } : Maildrop).slots := by
  apply List.ext_getElem?
  intro i
  rw [List.getElem?_modify, getElem?_slots, getElem?_slots]
  cases d.messages[i]? with
  | none => rfl
  | some m =>
    by_cases hi : n = i
    · subst hi
      simp
    · simp [hi, Ne.symm hi]

theorem slots_unmark : d.slots.map (fun slot => { slot with deleted := false }) =
    ({ d with marks := [] } : Maildrop).slots := by
  apply List.ext_getElem?
  intro i
  rw [List.getElem?_map, getElem?_slots, getElem?_slots]
  cases d.messages[i]? <;> rfl

end Slots

end Maildrop

namespace Session
variable {σ : Type} {s : Session σ} {d : Maildrop}

/-- A session in the transaction state that keeps the maildrop. -/
structure Serves (s : Session σ) (d : Maildrop) : Prop where
  state : s.state = .transaction
  pending : s.pendingSasl = false
  slots : s.slots = d.slots

section Answers

theorem Serves.active (h : s.Serves d) :
    s.active = d.left.map fun p => (p.1 - 1, ⟨p.2.uid, p.2.raw, false⟩) := by
  have hzip : d.slots.zipIdx = d.messages.zipIdx.map fun p =>
      ((⟨p.1.uid, p.1.raw, d.marks.contains (p.2 + 1)⟩ : Slot), p.2) := by
    apply List.ext_getElem?
    intro i
    rw [List.getElem?_zipIdx, Maildrop.getElem?_slots, List.getElem?_map, List.getElem?_zipIdx]
    cases d.messages[i]? <;> simp
  unfold Session.active Maildrop.left
  rw [h.slots, hzip, List.filter_map, List.map_map, List.map_map]
  refine List.map_congr_left fun p hp => ?_
  have hmark : d.marks.contains (p.2 + 1) = false := by
    simpa using (List.mem_filter.mp hp).2
  simp only [Function.comp_apply, hmark, Nat.add_sub_cancel]

theorem Serves.indexOf (h : s.Serves d) (num : String) :
    s.indexOf num = (d.find? num).map fun p => p.1 - 1 := by
  unfold Session.indexOf Maildrop.find?
  rw [h.slots]
  cases parseU64 (trim num) with
  | none => rfl
  | some n =>
    cases n with
    | zero => simp
    | succ i =>
      simp only [Option.bind_eq_bind, Option.bind_some, Nat.succ_ne_zero, if_false, false_or,
        Nat.add_sub_cancel, Maildrop.getElem?_slots]
      by_cases hmark : i + 1 ∈ d.marks
      · cases d.messages[i]? <;> simp [hmark]
      · cases d.messages[i]? <;> simp [hmark]

theorem Serves.slotOf (h : s.Serves d) (num : String) :
    s.slotOf num = (d.find? num).map fun p => (p.1 - 1, ⟨p.2.uid, p.2.raw, false⟩) := by
  unfold Session.slotOf
  rw [h.indexOf, h.slots]
  cases hfind : d.find? num with
  | none => rfl
  | some p =>
    obtain ⟨hn, hmark, hget⟩ := Maildrop.mem_left.mp (Maildrop.find?_eq_some_iff.mp hfind).2
    have hsucc : p.1 - 1 + 1 = p.1 := Nat.succ_pred hn
    simp [Maildrop.getElem?_slots, hget, hsucc, hmark]

theorem Serves.stat (h : s.Serves d) (rest : String) :
    d.answer "STAT" rest = some (utf8 s.stat) := by
  unfold Session.stat Maildrop.answer
  rw [h.active, List.length_map, List.map_map]
  rfl

theorem Serves.listing (h : s.Serves d) (follows : String) {number : Slot → ℕ}
    {number' : Message → ℕ} (hnumber : ∀ m : Message, number ⟨m.uid, m.raw, false⟩ = number' m)
    (rest : String) : s.listing follows number rest = d.listing follows number' rest := by
  unfold Session.listing Maildrop.listing
  by_cases hrest : rest = ""
  · rw [if_pos hrest, if_pos hrest, h.active, List.map_map]
    congr 3
    refine List.map_congr_left fun p hp => ?_
    obtain ⟨hn, -, -⟩ := Maildrop.mem_left.mp hp
    have hsucc : p.1 - 1 + 1 = p.1 := Nat.succ_pred hn
    rw [Function.comp_apply, hnumber, hsucc]
  · rw [if_neg hrest, if_neg hrest, h.slotOf]
    cases hfind : d.find? rest with
    | none => rfl
    | some p =>
      obtain ⟨hn, -, -⟩ := Maildrop.mem_left.mp (Maildrop.find?_eq_some_iff.mp hfind).2
      have hsucc : p.1 - 1 + 1 = p.1 := Nat.succ_pred hn
      simp only [Option.map_some, hnumber, hsucc]

theorem Serves.list (h : s.Serves d) (rest : String) :
    d.answer "LIST" rest = some (utf8 (s.list rest)) := by
  rw [Session.list, h.listing "scan listing follows" fun _ => rfl]
  rfl

theorem Serves.uidl (h : s.Serves d) (rest : String) :
    d.answer "UIDL" rest = some (utf8 (s.uidl rest)) := by
  rw [Session.uidl, h.listing "unique-id listing follows" fun _ => rfl]
  rfl

theorem Serves.retr (h : s.Serves d) (rest : String) :
    d.answer "RETR" rest = some (s.retr rest) := by
  unfold Session.retr Maildrop.answer
  rw [h.slotOf]
  cases d.find? rest <;> rfl

theorem Serves.top (h : s.Serves d) (rest : String) :
    d.answer "TOP" rest = some (s.top rest) := by
  unfold Session.top Maildrop.answer Maildrop.top
  dsimp only
  rw [h.slotOf]
  cases d.find? ((splitWhitespace rest).headD "") <;> rfl

theorem Serves.dele (h : s.Serves d) (rest : String) :
    (s.dele rest).1.Serves (d.after "DELE" rest) ∧
      d.answer "DELE" rest = some (utf8 (s.dele rest).2) := by
  unfold Session.dele Maildrop.after Maildrop.answer
  rw [h.indexOf]
  cases hfind : d.find? rest with
  | none => exact ⟨h, rfl⟩
  | some p =>
    obtain ⟨hn, -, -⟩ := Maildrop.mem_left.mp (Maildrop.find?_eq_some_iff.mp hfind).2
    have hsucc : p.1 - 1 + 1 = p.1 := Nat.succ_pred hn
    refine ⟨⟨h.state, h.pending, ?_⟩, rfl⟩
    have hmark := d.slots_mark (p.1 - 1)
    rw [hsucc, ← h.slots] at hmark
    exact hmark

theorem Serves.rset (h : s.Serves d) (rest : String) :
    s.rset.1.Serves (d.after "RSET" rest) := by
  refine ⟨h.state, h.pending, ?_⟩
  have hunmark := d.slots_unmark
  rw [← h.slots] at hunmark
  exact hunmark

end Answers

section Commit

theorem removeUids_cons_none {mb : Mailbox} {u : ℕ} {uids : List ℕ}
    (h : mb.indexOfUid u = none) : removeUids mb (u :: uids) = removeUids mb uids := by
  unfold removeUids
  rw [List.foldl_cons, h]

theorem removeUids_cons_some {mb : Mailbox} {u pos : ℕ} {uids : List ℕ}
    (h : mb.indexOfUid u = some pos) :
    removeUids mb (u :: uids) = removeUids (mb.removeAt pos).2 uids := by
  unfold removeUids
  rw [List.foldl_cons, h]

theorem not_mem_of_indexOfUid_eq_none {mb : Mailbox}
    (hasc : mb.messages.Pairwise fun m m' => m.uid < m'.uid) {u : ℕ}
    (h : mb.indexOfUid u = none) : u ∉ mb.messages.map Message.uid := by
  intro hmem
  obtain ⟨m, hm, rfl⟩ := List.mem_map.mp hmem
  obtain ⟨i, hi⟩ := List.mem_iff_getElem?.mp hm
  have hfound := (binarySearchBy_compare hasc m.uid i).mpr (by rw [hi]; rfl)
  rw [Mailbox.indexOfUid, hfound] at h
  exact nomatch h

theorem removeAt_of_indexOfUid {mb : Mailbox}
    (hasc : mb.messages.Pairwise fun m m' => m.uid < m'.uid) {u pos : ℕ}
    (h : mb.indexOfUid u = some pos) : (mb.removeAt pos).2 =
      { mb with
        highestModseq := mb.highestModseq + 1
        expunged := mb.expunged ++ [(u, mb.highestModseq + 1)]
        messages := mb.messages.filter fun m => m.uid ≠ u } := by
  have hpos := (binarySearchBy_compare hasc u pos).mp h
  obtain ⟨m, hm, huid⟩ := Option.map_eq_some_iff.mp hpos
  unfold Mailbox.removeAt
  rw [hm, eraseIdx_eq_filter hasc hpos]
  dsimp only
  rw [huid]

section Filters
variable (l : List Message) {u : ℕ} {uids : List ℕ}

theorem filter_uid_notMem_cons :
    ((l.filter fun m => m.uid ≠ u).filter fun m => m.uid ∉ uids) =
      l.filter fun m => m.uid ∉ u :: uids := by
  rw [List.filter_filter]
  refine List.filter_congr fun m _ => ?_
  rw [Bool.eq_iff_iff]
  simp [and_comm]

/-- What is there of other UIDs stays there. -/
theorem filter_mem_filter_ne (hu : u ∉ uids) :
    (uids.filter fun v => v ∈ (l.filter fun m => m.uid ≠ u).map Message.uid) =
      uids.filter fun v => v ∈ l.map Message.uid := by
  refine List.filter_congr fun v hv => ?_
  have hne : v ≠ u := fun heq => hu (heq ▸ hv)
  rw [decide_eq_decide, List.mem_map, List.mem_map]
  constructor
  · rintro ⟨m, hm, rfl⟩
    exact ⟨m, (List.mem_filter.mp hm).1, rfl⟩
  · rintro ⟨m, hm, rfl⟩
    exact ⟨m, List.mem_filter.mpr ⟨hm, decide_eq_true hne⟩, rfl⟩

end Filters

/-- Messages of INBOX that keep to the ascending order are removed by their UIDs one by one. -/
theorem removeUids_eq {mb : Mailbox} (hasc : mb.messages.Pairwise fun m m' => m.uid < m'.uid)
    {uids : List ℕ} (huids : uids.Nodup) : removeUids mb uids =
      { mb with
        highestModseq := mb.highestModseq +
          (uids.filter fun u => u ∈ mb.messages.map Message.uid).length
        messages := mb.messages.filter fun m => m.uid ∉ uids
        expunged := mb.expunged ++ (uids.filter fun u => u ∈ mb.messages.map Message.uid).zipIdx.map
          fun p => (p.1, mb.highestModseq + p.2 + 1) } := by
  induction uids generalizing mb with
  | nil => simp [removeUids]
  | cons u uids ih =>
    obtain ⟨hu, huids⟩ := List.nodup_cons.mp huids
    cases hindex : mb.indexOfUid u with
    | none =>
      have hnot := not_mem_of_indexOfUid_eq_none hasc hindex
      have hkeep : (mb.messages.filter fun m => m.uid ∉ uids) =
          mb.messages.filter fun m => m.uid ∉ u :: uids := by
        refine List.filter_congr fun m hm => ?_
        have hne : m.uid ≠ u := fun heq => hnot (heq ▸ List.mem_map_of_mem hm)
        simp [hne]
      rw [removeUids_cons_none hindex, ih hasc huids, hkeep,
        List.filter_cons_of_neg (by simpa using hnot)]
    | some pos =>
      have hpos := (binarySearchBy_compare hasc u pos).mp hindex
      obtain ⟨m, hm, huid⟩ := Option.map_eq_some_iff.mp hpos
      have hmem : u ∈ mb.messages.map Message.uid := huid ▸ List.mem_map_of_mem
        (List.mem_of_getElem? hm)
      rw [removeUids_cons_some hindex, removeAt_of_indexOfUid hasc hindex,
        ih (hasc.sublist List.filter_sublist) huids]
      dsimp only
      rw [filter_mem_filter_ne _ hu, filter_uid_notMem_cons,
        List.filter_cons_of_pos (by simpa using hmem), List.zipIdx_cons, List.zipIdx_succ,
        List.map_cons, List.map_map, List.append_assoc, List.length_cons]
      congr 1
      · omega
      · refine congrArg (fun log => mb.expunged ++ (u, mb.highestModseq + 1) :: log) ?_
        refine List.map_congr_left fun p _ => ?_
        have hadd : mb.highestModseq + 1 + p.2 + 1 = mb.highestModseq + (p.2 + 1) + 1 := by omega
        rw [Function.comp_apply, hadd]

theorem isMarked_iff {d : Maildrop}
    (hasc : d.messages.Pairwise fun m m' => m.uid < m'.uid) {m : Message}
    (hm : m ∈ d.messages) :
    d.isMarked m = true ↔ m.uid ∈ (d.slots.filter Slot.deleted).map Slot.uid := by
  have hdistinct : (d.messages.map Message.uid).Nodup :=
    List.pairwise_map.mpr (hasc.imp fun h => h.ne)
  rw [Maildrop.isMarked, List.any_eq_true, List.mem_map]
  constructor
  · rintro ⟨⟨m', i⟩, hp, hmark⟩
    rw [Bool.and_eq_true, beq_iff_eq] at hmark
    obtain ⟨rfl, hmark⟩ := hmark
    refine ⟨⟨m'.uid, m'.raw, d.marks.contains (i + 1)⟩, List.mem_filter.mpr ⟨?_, hmark⟩, rfl⟩
    exact List.mem_map.mpr ⟨(m', i), hp, rfl⟩
  · rintro ⟨slot, hslot, huid⟩
    obtain ⟨hslot, hmark⟩ := List.mem_filter.mp hslot
    obtain ⟨⟨m', i⟩, hp, rfl⟩ := List.mem_map.mp hslot
    have hmem : m' ∈ d.messages := List.mem_of_getElem? (List.mem_zipIdx_iff_getElem?.mp hp)
    have heq : m' = m := List.inj_on_of_nodup_map hdistinct hmem hm huid
    refine ⟨(m', i), hp, ?_⟩
    rw [Bool.and_eq_true, beq_iff_eq]
    exact ⟨heq, hmark⟩

theorem pairwise_uids_slots {d : Maildrop}
    (hasc : d.messages.Pairwise fun m m' => m.uid < m'.uid) :
    ((d.slots.filter Slot.deleted).map Slot.uid).Pairwise (· < ·) := by
  have huids : d.slots.map Slot.uid = d.messages.map Message.uid := by
    unfold Maildrop.slots
    rw [List.map_map]
    conv_rhs => rw [← List.zipIdx_map_fst 0 d.messages, List.map_map]
    rfl
  have hall : (d.messages.map Message.uid).Pairwise (· < ·) := List.pairwise_map.mpr hasc
  rw [← huids] at hall
  exact hall.sublist (List.filter_sublist.map Slot.uid)

/-- Removing the marked slots' UIDs commits the maildrop to an INBOX that has lost nothing but
messages since login. -/
theorem removeUids_marked {d : Maildrop}
    (hasc : d.messages.Pairwise fun m m' => m.uid < m'.uid) {mb : Mailbox}
    (hsub : mb.messages.Sublist d.messages) :
    removeUids mb ((d.slots.filter Slot.deleted).map Slot.uid) = d.commit mb := by
  have hmb := hasc.sublist hsub
  have huids := pairwise_uids_slots hasc
  have hmarked : ∀ m ∈ mb.messages,
      d.isMarked m = decide (m.uid ∈ (d.slots.filter Slot.deleted).map Slot.uid) := by
    intro m hm
    rw [Bool.eq_iff_iff, isMarked_iff hasc (hsub.subset hm), decide_eq_true_eq]
  have hgone := filter_mem_map_eq hmb huids
  rw [← List.filter_congr hmarked] at hgone
  have hkeep : (mb.messages.filter fun m =>
      m.uid ∉ (d.slots.filter Slot.deleted).map Slot.uid) =
      mb.messages.filter fun m => !d.isMarked m := by
    refine List.filter_congr fun m hm => ?_
    rw [hmarked m hm, decide_not]
  rw [removeUids_eq hmb huids.nodup, hgone, hkeep, List.length_map, List.zipIdx_map, List.map_map]
  rfl

end Commit

section Login
variable [MailStore σ]

/-- Nobody has logged in, or somebody just has. -/
def AtLogin (store : σ) (s : Session σ) : Prop :=
  s.store = store ∧ (s.state = .authorization ∨ s.Serves ⟨inboxMessages store, []⟩)

theorem slots_loadInbox (s : Session σ) :
    s.loadInbox.slots = (Maildrop.mk (inboxMessages s.store) []).slots := by
  unfold loadInbox inboxMessages
  dsimp only
  cases MailStore.mailbox s.store "INBOX" with
  | none => rfl
  | some mb =>
    apply List.ext_getElem?
    intro i
    rw [Maildrop.getElem?_slots, List.getElem?_map]
    rfl

theorem atLogin_checkCredentials (hstate : s.state = .authorization)
    (hpending : s.pendingSasl = false) (user pass refusal : String) :
    AtLogin s.store (s.checkCredentials user pass refusal).1 := by
  refine ⟨s.checkCredentials_store user pass refusal, ?_⟩
  unfold checkCredentials
  rcases s.auth.verify user pass with ⟨answer, auth⟩
  cases answer with
  | none => exact Or.inl hstate
  | some id => exact Or.inr ⟨rfl, hpending, slots_loadInbox _⟩

theorem atLogin_finishPlain (hstate : s.state = .authorization) (hpending : s.pendingSasl = false)
    (ir : String) : AtLogin s.store (s.finishPlain ir).1 := by
  unfold finishPlain
  cases decodePlain ir with
  | none => exact ⟨rfl, Or.inl hstate⟩
  | some cred => exact atLogin_checkCredentials hstate hpending _ _ _

theorem atLogin_pass (hstate : s.state = .authorization) (hpending : s.pendingSasl = false)
    (password : String) : AtLogin s.store (s.pass password).1 := by
  unfold pass
  cases s.user with
  | none => exact ⟨rfl, Or.inl hstate⟩
  | some user => exact atLogin_checkCredentials hstate hpending _ _ _

theorem atLogin_apop (hstate : s.state = .authorization) (hpending : s.pendingSasl = false)
    (rest : String) : AtLogin s.store (s.apop rest).1 := by
  refine ⟨s.apop_store rest, ?_⟩
  unfold apop
  match splitWhitespace rest with
  | [] => exact Or.inl hstate
  | [_] => exact Or.inl hstate
  | name :: digest :: _ =>
    dsimp only
    rcases s.auth.secretFor name with ⟨answer, auth⟩
    cases answer with
    | none => exact Or.inl hstate
    | some secret =>
      dsimp only
      split_ifs
      · have hcheck := atLogin_checkCredentials (s := { s with auth := auth }) hstate hpending name
          secret "-ERR [AUTH] APOP failed\r\n"
        exact hcheck.2
      · exact Or.inl hstate

theorem atLogin_authCmd (hstate : s.state = .authorization) (hpending : s.pendingSasl = false)
    (rest : String) : AtLogin s.store (s.authCmd rest).1 := by
  refine ⟨s.authCmd_store rest, ?_⟩
  unfold authCmd
  match splitWhitespace rest with
  | [] => exact Or.inl hstate
  | mech :: args =>
    dsimp only
    by_cases h : mech.toUpper = "PLAIN"
    · rw [if_pos h]
      cases args with
      | nil => exact Or.inl hstate
      | cons ir _ =>
        dsimp only
        exact (atLogin_finishPlain hstate hpending ir).2
    · rw [if_neg h]
      exact Or.inl hstate

/-- A line to a session that nobody has logged in to leaves the store as it is. -/
theorem atLogin_feedLineRaw (hstate : s.state = .authorization) (line : String) :
    AtLogin s.store (s.feedLineRaw line).1 := by
  apply feedLineRaw_cases (P := AtLogin s.store)
  · intro _
    exact atLogin_finishPlain (s := { s with pendingSasl := false }) hstate rfl _
  · intro hpending _
    exact ⟨fun _ => atLogin_pass hstate hpending _, fun _ => atLogin_apop hstate hpending _,
      fun _ => atLogin_authCmd hstate hpending _⟩
  · intro _ _
    have hsame : ∀ {t : Session σ}, t.store = s.store → t.state = s.state → AtLogin s.store t :=
      fun hstore hsame => ⟨hstore, Or.inl (hsame.trans hstate)⟩
    have hquit : s.quit.1.store = s.store := by
      unfold quit
      rw [hstate]
      rfl
    have hdele : (s.dele (verbAndRest line).2).1.state = s.state := (s.keeps_dele _).2.1
    exact ⟨hsame rfl rfl, hsame rfl rfl, hsame rfl rfl, hsame hquit rfl,
      hsame (s.dele_store _) hdele, hsame rfl rfl⟩

end Login

section Transaction
variable [MailStore σ]

/-- A command's outcome is the maildrop's, and only QUIT touches the store. -/
structure Obeys (s : Session σ) (d : Maildrop) (verb rest : String) (r : Session σ × Bytes) :
    Prop where
  serves : r.1.Serves (d.after verb rest)
  answers : ∀ reply, d.answer verb rest = some reply → r.2 = reply
  store : r.1.store = if verb = "QUIT" then s.quit.1.store else s.store

theorem Serves.obeys_quiet (h : s.Serves d) {verb rest : String} {reply : Bytes}
    (hverb : verb ∉ ["DELE", "RSET", "QUIT"]) (hanswer : d.answer verb rest = some reply) :
    Obeys s d verb rest (s, reply) := by
  simp only [List.mem_cons, List.not_mem_nil, or_false, not_or] at hverb
  refine ⟨?_, fun reply' hreply => ?_, (if_neg hverb.2.2).symm⟩
  · rw [d.after_of_ne hverb.1 hverb.2.1]
    exact h
  · rw [hanswer] at hreply
    exact Option.some.inj hreply

theorem Serves.obeys_other (h : s.Serves d) {verb : String} (rest : String) (reply : Bytes)
    (hverb : verb ∉ ["STAT", "LIST", "UIDL", "RETR", "TOP", "DELE", "RSET", "QUIT"]) :
    Obeys s d verb rest (s, reply) := by
  simp only [List.mem_cons, List.not_mem_nil, or_false, not_or] at hverb
  refine ⟨?_, fun reply' hreply => ?_, (if_neg hverb.2.2.2.2.2.2.2).symm⟩
  · rw [d.after_of_ne hverb.2.2.2.2.2.1 hverb.2.2.2.2.2.2.1]
    exact h
  · rw [d.answer_of_not_mem (by simp [hverb])] at hreply
    cases hreply

theorem Serves.obeys_quit (h : s.Serves d) (rest : String) :
    Obeys s d "QUIT" rest (s.quit.1, utf8 s.quit.2) where
  serves := by
    rw [d.after_of_ne (by simp) (by simp)]
    exact ⟨h.state, h.pending, h.slots⟩
  answers := by
    intro reply hreply
    rw [d.answer_of_not_mem (by simp)] at hreply
    cases hreply
  store := (if_pos rfl).symm

theorem Serves.obeys_dele (h : s.Serves d) (rest : String) :
    Obeys s d "DELE" rest ((s.dele rest).1, utf8 (s.dele rest).2) where
  serves := by
    dsimp only
    exact (h.dele rest).1
  answers := by
    intro reply hreply
    dsimp only
    rw [(h.dele rest).2] at hreply
    exact Option.some.inj hreply
  store := by
    dsimp only
    rw [if_neg (by simp)]
    exact s.dele_store rest

theorem Serves.obeys_rset (h : s.Serves d) (rest : String) :
    Obeys s d "RSET" rest (s.rset.1, utf8 s.rset.2) where
  serves := h.rset rest
  answers := by
    intro reply hreply
    rw [d.answer_of_not_mem (by simp)] at hreply
    cases hreply
  store := (if_neg (by simp)).symm

/-- What a line does to a session that serves a maildrop. -/
theorem Serves.feedLineRaw (h : s.Serves d) (line : String) :
    Obeys s d (verbAndRest line).1 (verbAndRest line).2 (s.feedLineRaw line) := by
  have hpending : ¬ s.pendingSasl = true := by
    rw [h.pending]
    exact Bool.false_ne_true
  have hstate : s.state ≠ .authorization := by
    rw [h.state]
    exact nofun
  unfold Session.feedLineRaw
  rw [if_neg hpending]
  dsimp only [text]
  generalize (verbAndRest line).1 = verb
  generalize (verbAndRest line).2 = rest
  split
  case h_1 => exact h.obeys_other rest _ (by simp)
  case h_2 => exact h.obeys_quit rest
  case h_3 => exact h.obeys_other rest _ (by simp)
  case h_9 => exact h.obeys_quiet (by simp) (h.stat rest)
  case h_10 => exact h.obeys_quiet (by simp) (h.list rest)
  case h_11 => exact h.obeys_quiet (by simp) (h.uidl rest)
  case h_12 => exact h.obeys_quiet (by simp) (h.retr rest)
  case h_13 => exact h.obeys_quiet (by simp) (h.top rest)
  case h_14 => exact h.obeys_dele rest
  case h_15 => exact h.obeys_rset rest
  case h_16 _ hquit _ _ _ _ _ _ hstat hlist huidl hretr htop hdele hrset =>
    refine h.obeys_other rest _ ?_
    simp only [List.mem_cons, List.not_mem_nil, or_false, not_or]
    exact ⟨hstat h.state, hlist h.state, huidl h.state, hretr h.state, htop h.state,
      hdele h.state, hrset h.state, hquit⟩
  all_goals exact absurd ‹s.state = _› hstate

end Transaction

section Run
variable [MailStore σ] [LawfulMailStore σ]

/-- QUIT commits the maildrop. -/
theorem Serves.committed_quit (h : s.Serves d)
    (hasc : d.messages.Pairwise fun m m' => m.uid < m'.uid)
    (hsub : (inboxMessages s.store).Sublist d.messages) :
    Maildrop.Committed d s.store s.quit.1.store := by
  have hfst := LawfulMailStore.mailboxMut_fst s.store "INBOX"
  unfold quit
  dsimp only
  rw [if_pos h.state, h.slots]
  cases hmut : MailStore.mailboxMut s.store "INBOX" with
  | none =>
    rw [hmut] at hfst
    exact ⟨rfl, by rw [← hfst]; rfl, fun _ _ => rfl⟩
  | some p =>
    obtain ⟨mb, write⟩ := p
    rw [hmut] at hfst
    have hmessages : inboxMessages s.store = mb.messages := by
      rw [inboxMessages, ← hfst]
      rfl
    rw [hmessages] at hsub
    dsimp only
    rw [removeUids_marked hasc hsub]
    refine ⟨LawfulMailStore.mailboxNames_write hmut _, ?_, fun name hname => ?_⟩
    · rw [LawfulMailStore.mailbox_write hmut, if_pos rfl, ← hfst]
      rfl
    · rw [LawfulMailStore.mailbox_write hmut, if_neg hname]

/-- The maildrop behind the lines, of which those behind the login count. -/
def maildrop (s : Session σ) (d : Maildrop) : List String → Maildrop
  | [] => d
  | line :: lines =>
    (s.feedLineRaw line).1.maildrop
      (if s.state = .transaction then d.after (verbAndRest line).1 (verbAndRest line).2 else d) lines

/-- Before the login the store is as it was, and INBOX is the maildrop. Behind it the session
serves the maildrop, and INBOX has lost nothing but messages of it. -/
inductive Tracks (store : σ) (s : Session σ) (d : Maildrop) : Prop where
  | waits : s.state = .authorization → s.store = store → d = ⟨inboxMessages store, []⟩ →
      Tracks store s d
  | serves : s.Serves d → d.messages = inboxMessages store →
      (inboxMessages s.store).Sublist d.messages → Tracks store s d

omit [LawfulMailStore σ] in
theorem Tracks.messages {store : σ} (h : Tracks store s d) :
    d.messages = inboxMessages store := by
  cases h with
  | waits _ _ hd => rw [hd]
  | serves _ hd _ => exact hd

theorem Tracks.step {store : σ} (h : Tracks store s d)
    (hasc : (inboxMessages store).Pairwise fun m m' => m.uid < m'.uid) (line : String) :
    Tracks store (s.feedLineRaw line).1 (if s.state = .transaction then
      d.after (verbAndRest line).1 (verbAndRest line).2 else d) := by
  cases h with
  | waits hstate hstore hd =>
    have hnot : ¬ s.state = .transaction := by
      rw [hstate]
      exact nofun
    obtain ⟨hstore', hphase⟩ := atLogin_feedLineRaw hstate line
    rw [if_neg hnot]
    rw [hstore] at hstore' hphase
    rcases hphase with hwaits | hserves
    · exact Tracks.waits hwaits hstore' hd
    · rw [← hd] at hserves
      refine Tracks.serves hserves (by rw [hd]) ?_
      rw [hstore', hd]
  | serves hserves hd hsub =>
    have hobeys := hserves.feedLineRaw line
    rw [if_pos hserves.state]
    refine Tracks.serves hobeys.serves ((d.messages_after _ _).trans hd) ?_
    rw [d.messages_after, hobeys.store]
    split_ifs
    · exact (hserves.committed_quit (hd ▸ hasc) hsub).sublist.trans hsub
    · exact hsub

theorem Tracks.run {store : σ} (h : Tracks store s d)
    (hasc : (inboxMessages store).Pairwise fun m m' => m.uid < m'.uid) (lines : List String) :
    Tracks store (s.run lines) (s.maildrop d lines) := by
  induction lines generalizing s d with
  | nil => exact h
  | cons line lines ih => exact ih (h.step hasc line)

end Run

end Session

section Contract
variable {σ : Type} [MailStore σ] [LawfulMailStore σ]

/-- A POP3 session serves the messages that INBOX had at login under their numbers, less those
marked since. It leaves the store alone until QUIT commits the marks. -/
theorem quit_commits_marked (store : σ) (auth : Authenticator) (tls : Bool)
    (hasc : (inboxMessages store).Pairwise fun m m' => m.uid < m'.uid)
    (lines : List String) (line : String) :
    let s := (Session.new store auth tls).run lines
    let d := (Session.new store auth tls).maildrop ⟨inboxMessages store, []⟩ lines
    d.messages = inboxMessages store ∧
      (s.state = .authorization → s.store = store) ∧
      (s.state = .transaction → s.Serves d ∧
        (inboxMessages s.store).Sublist d.messages ∧
        ∀ reply, d.answer (verbAndRest line).1 (verbAndRest line).2 = some reply →
          (s.feedLineRaw line).2 = reply) ∧
      (¬ (s.state = .transaction ∧ (verbAndRest line).1 = "QUIT") →
        (s.feedLineRaw line).1.store = s.store) ∧
      (s.state = .transaction ∧ (verbAndRest line).1 = "QUIT" →
        Maildrop.Committed d s.store (s.feedLineRaw line).1.store) := by
  intro s d
  have hnew : Session.Tracks store (Session.new store auth tls) ⟨inboxMessages store, []⟩ :=
    Session.Tracks.waits rfl rfl rfl
  have htracks : Session.Tracks store s d := hnew.run hasc lines
  refine ⟨htracks.messages, ?_⟩
  cases htracks with
  | waits hstate hstore hd =>
    have hnot : ¬ s.state = .transaction := by
      rw [hstate]
      exact nofun
    refine ⟨fun _ => hstore, fun h => absurd h hnot, fun _ => ?_, fun h => absurd h.1 hnot⟩
    exact (Session.atLogin_feedLineRaw hstate line).1
  | serves hserves hd hsub =>
    have hobeys := hserves.feedLineRaw line
    have hnot : ¬ s.state = .authorization := by
      rw [hserves.state]
      exact nofun
    refine ⟨fun h => absurd h hnot, fun _ => ⟨hserves, hsub, hobeys.answers⟩, fun h => ?_,
      fun h => ?_⟩
    · rw [hobeys.store, if_neg fun hquit => h ⟨hserves.state, hquit⟩]
    · rw [hobeys.store, if_pos h.2]
      exact hserves.committed_quit (hd ▸ hasc) hsub

def twoMessages : MemoryStore :=
  ((MemoryStore.new.deliverRaw "INBOX" [97] [] 0).1.deliverRaw "INBOX" [98] [] 0).1

/-- After DELE of the first message QUIT commits its number. -/
theorem quit_commits_marked_first :
    Maildrop.Committed ⟨inboxMessages twoMessages, [1]⟩
      ((Session.new twoMessages (.issued "alice" "pw" [1]) true).run
        ["USER alice", "PASS pw", "DELE 1"]).store
      (((Session.new twoMessages (.issued "alice" "pw" [1]) true).run
        ["USER alice", "PASS pw", "DELE 1"]).feedLineRaw "QUIT").1.store := by
  obtain ⟨-, -, -, -, hquit⟩ := quit_commits_marked twoMessages (.issued "alice" "pw" [1]) true
    (by decide) ["USER alice", "PASS pw", "DELE 1"] "QUIT"
  have hmarks : (Session.new twoMessages (.issued "alice" "pw" [1]) true).maildrop
      ⟨inboxMessages twoMessages, []⟩ ["USER alice", "PASS pw", "DELE 1"] =
        ⟨inboxMessages twoMessages, [1]⟩ := by decide +kernel
  rw [hmarks] at hquit
  exact hquit (by decide +kernel)

end Contract

end Pop3

end Dmtap.Mail
