import Dmtap.Mail.Refresh

/-! What a mailbox name, a UIDVALIDITY and a UID stand for. Every mailbox starts with UIDVALIDITY 1
and UID 1, so the three stand for one message only as long as the name stands for one mailbox. -/
namespace Dmtap.Mail
open Lib

/-- Two moments of one message: only its flags and the time of their last change may differ. -/
def Message.SameAs (m m' : Message) : Prop :=
  m.uid = m'.uid ∧ m.createdModseq = m'.createdModseq ∧ m.internalDate = m'.internalDate ∧
    m.raw = m'.raw

/-- What a client keeps a message under: the UIDVALIDITY and the UID, 32 bits each. -/
def Mailbox.identityOf (mb : Mailbox) (m : Message) : UInt32 × UInt32 :=
  (mb.uidValidity.toUInt32, m.uid.toUInt32)

/-- Some call of a run puts another mailbox under a name: a new one, or one that was not there
before under that name. -/
def Reuses (name : String) (calls : List Call) : Prop :=
  ∃ before c after, calls = before ++ c :: after ∧
    (c = .create name ∨ ∃ source, c = .rename source name ∧ follow before name ≠ some source)

section Paths
variable {s s' : MemoryStore} {calls : List Call}

theorem follow_append (calls calls' : List Call) (n : String) :
    follow (calls ++ calls') n = (follow calls n).bind (follow calls') := by
  induction calls generalizing n with
  | nil => rfl
  | cons c calls ih =>
    change (c.follow n).bind (follow (calls ++ calls')) = ((c.follow n).bind (follow calls)).bind _
    rw [Option.bind_assoc, funext ih]

theorem Path.snoc_inv {c : Call} (h : Path s (calls ++ [c]) s') :
    ∃ t, Path s calls t ∧ Step t c s' := by
  induction calls generalizing s with
  | nil =>
    cases h with
    | cons hstep hrest =>
      cases hrest
      exact ⟨s, .nil s, hstep⟩
  | cons c₁ calls ih =>
    cases h with
    | cons hstep hrest =>
      obtain ⟨t, hpath, hlast⟩ := ih hrest
      exact ⟨t, .cons hstep hpath, hlast⟩

theorem Reuses.append {name : String} (h : Reuses name calls) (calls' : List Call) :
    Reuses name (calls ++ calls') := by
  obtain ⟨before, c, after, rfl, hc⟩ := h
  exact ⟨before, c, after ++ calls', by simp, hc⟩

/-- As long as a name is not used again, the mailbox under it is the one that was there. -/
theorem follow_of_not_reuses (h : Path s calls s') {name : String} {mb mb' : Mailbox}
    (hmb : s.mailbox name = some mb) (hreuse : ¬Reuses name calls)
    (hmb' : s'.mailbox name = some mb') : follow calls name = some name := by
  induction calls using List.reverseRecOn generalizing s' mb' with
  | nil => rfl
  | append_singleton calls c ih =>
    obtain ⟨t, hpath, hstep⟩ := h.snoc_inv
    have hlast : ∀ {n}, follow calls name = some n → c.follow n = some name →
        follow (calls ++ [c]) name = some name := by
      intro n hn hc
      rw [follow_append, hn, Option.bind_some]
      change (c.follow n).bind some = some name
      rw [hc]
      rfl
    rcases hstep.origin hmb' with ⟨n, mb₁, hmb₁, hfollow, -⟩ | ⟨rfl, -⟩
    · by_cases hn : n = name
      · subst hn
        exact hlast (ih hpath (fun h => hreuse (h.append [c])) hmb₁) hfollow
      · have hrename : c = .rename n name := (Call.eq_or_rename hfollow).resolve_left hn
        by_cases hback : follow calls name = some n
        · exact hlast hback hfollow
        · exact absurd ⟨calls, c, [], rfl, Or.inr ⟨n, hrename, hback⟩⟩ hreuse
    · exact absurd ⟨calls, _, [], rfl, Or.inl rfl⟩ hreuse

end Paths

/-- A UID stands for one message in all mailboxes that one grows into. -/
theorem Mailbox.Grows.sameAs {mb mb' : Mailbox} (h : mb.Grows mb')
    (hmb' : mb'.ledger.WellFormed) {m m' : Message} (hm : m ∈ mb.messages)
    (hm' : m' ∈ mb'.messages) (huid : m.uid = m'.uid) : m.SameAs m' := by
  have hlive' := Mailbox.mem_ledger_live hm'
  rcases h.ledger.since.accounted m.entry (Mailbox.mem_ledger_live hm) with
    ⟨e', he', hkey, hborn, hsame⟩ | ⟨t, ht, -⟩
  · have heq := hmb'.eq_of_key he' hlive' (hkey.trans huid)
    subst heq
    exact ⟨huid, hborn.symm, hsame.1, hsame.2⟩
  · exact absurd huid (hmb'.apart (m.uid, t) ht m'.entry hlive')

/-- Below `2 ^ 32` the 32 bits of a UID are the UID. -/
theorem uid_eq_of_identityOf {mb mb' : Mailbox} {m m' : Message} (hm : m.uid < 2 ^ 32)
    (hm' : m'.uid < 2 ^ 32) (h : mb.identityOf m = mb'.identityOf m') : m.uid = m'.uid := by
  have huid := congrArg UInt32.toNat (Prod.mk.inj h).2
  rw [Nat.toUInt32_eq, Nat.toUInt32_eq, UInt32.toNat_ofNat_of_lt' hm,
    UInt32.toNat_ofNat_of_lt' hm'] at huid
  exact huid

/-- Between two moments of a run in which no other mailbox comes under a name, and until its
32-bit counter of UIDs is used up, the name, the UIDVALIDITY and a UID stand for one message. -/
theorem message_identity_unique {r : Renderers} {s s' : MemoryStore} {calls : List Call}
    (h : Reachable r s) (hrun : Run r s calls s') {name : String} (hreuse : ¬Reuses name calls)
    {mb mb' : Mailbox} (hmb : s.mailbox name = some mb) (hmb' : s'.mailbox name = some mb')
    (happends : mb'.messages.length + mb'.expunged.length < 2 ^ 32 - 1)
    {m m' : Message} (hm : m ∈ mb.messages) (hm' : m' ∈ mb'.messages)
    (hidentity : mb.identityOf m = mb'.identityOf m') : m.SameAs m' := by
  have hs' := hrun.path.wellFormed h.wellFormed
  obtain ⟨mb'', hmb'', hgrows⟩ :=
    hrun.path.follow hmb (follow_of_not_reuses hrun.path hmb hreuse hmb')
  rw [hmb'] at hmb''
  cases hmb''
  have hinvariant := Mailbox.invariant_of_ledger (h.wellFormed.ledgers name mb hmb)
  have hinvariant' := Mailbox.invariant_of_ledger (hs'.ledgers name mb' hmb')
  have hnext' : mb'.uidNext < 2 ^ 32 := hinvariant'.uidNext_lt happends
  have hnext : mb.uidNext ≤ mb'.uidNext := hgrows.counters.1
  have huid : m.uid = m'.uid :=
    uid_eq_of_identityOf ((hinvariant.uids m hm).2.trans_le (hnext.trans hnext'.le))
      ((hinvariant'.uids m' hm').2.trans hnext') hidentity
  exact hgrows.sameAs (hs'.ledgers name mb' hmb') hm hm' huid

theorem not_reuses_edits (name : String) (names : List String) :
    ¬Reuses name (names.map Call.edit) := by
  rintro ⟨before, c, after, hcalls, hc⟩
  have hmem : c ∈ names.map Call.edit := by
    rw [hcalls]
    exact List.mem_append_right _ List.mem_cons_self
  obtain ⟨n, -, rfl⟩ := List.mem_map.mp hmem
  rcases hc with hc | ⟨source, hc, -⟩
  · cases hc
  · cases hc

/-- A fresh INBOX with two messages. -/
def MemoryStore.beforeQuit : MemoryStore :=
  ((MemoryStore.holding "INBOX").deliverRaw "INBOX" [98] [] 0).1

/-- A POP3 session in which the first message is marked as deleted. -/
def Pop3.Session.marking (store : MemoryStore) : Pop3.Session MemoryStore :=
  { Pop3.Session.new store (.issued "alice" "pw" [1]) true with
    state := .transaction
    identity := some [1]
    slots := [⟨1, [97], true⟩, ⟨2, [98], false⟩] }

/-- A third message has come in, and the first is gone. -/
def MemoryStore.afterQuit : MemoryStore :=
  ((Pop3.Session.marking (MemoryStore.beforeQuit.deliverRaw "INBOX" [99] [] 0).1).feedLineRaw
    "QUIT").1.store

/-- The second message of INBOX before and after a delivery and an expunge there. -/
theorem message_identity_unique_delivery : ∃ (calls : List Call) (mb mb' : Mailbox)
    (m m' : Message), Run .blank MemoryStore.beforeQuit calls MemoryStore.afterQuit ∧
      MemoryStore.beforeQuit.mailbox "INBOX" = some mb ∧
      MemoryStore.afterQuit.mailbox "INBOX" = some mb' ∧
      mb.messages.map Message.uid = [1, 2] ∧ mb'.messages.map Message.uid = [2, 3] ∧
      m ∈ mb.messages ∧ m' ∈ mb'.messages ∧ mb.identityOf m = mb'.identityOf m' ∧
      m.SameAs m' := by
  have hreach : Reachable .blank MemoryStore.beforeQuit :=
    (reachable_holding "INBOX").op (.deliverRaw "INBOX" [98] [] 0) rfl
  have hmb : MemoryStore.beforeQuit.mailbox "INBOX" = some
      (((Mailbox.new "INBOX" (some .inbox)).append [97] [] 0).2.append [98] [] 0).2 := by decide
  have hmb' : MemoryStore.afterQuit.mailbox "INBOX" = some
      (((((Mailbox.new "INBOX" (some .inbox)).append [97] [] 0).2.append [98] [] 0).2.append
        [99] [] 0).2.removeAt 0).2 := by decide +kernel
  obtain ⟨names, hquit⟩ := (Pop3.Session.marking
    (MemoryStore.beforeQuit.deliverRaw "INBOX" [99] [] 0).1).editedTo_feedLineRaw "QUIT"
  have hrun := (Run.start.deliverRaw (r := .blank) hmb [99] [] 0).step
    (.pop3 (Pop3.Session.marking (MemoryStore.beforeQuit.deliverRaw "INBOX" [99] [] 0).1) "QUIT")
    rfl hquit
  refine ⟨_, _, _, Message.new 2 [] 0 3 [98], Message.new 2 [] 0 3 [98], hrun, hmb, hmb',
    by decide, by decide, by decide, by decide, by decide, ?_⟩
  exact message_identity_unique hreach hrun (not_reuses_edits "INBOX" ("INBOX" :: names)) hmb hmb'
    (by decide) (by decide) (by decide) rfl

/-- The Archive is deleted and created again: its first message gets the UID of the old one, under
the same UIDVALIDITY. -/
theorem message_identity_reused : ∃ (calls : List Call) (s' : MemoryStore) (mb mb' : Mailbox)
    (m m' : Message), Reachable .blank (MemoryStore.holding "Archive") ∧
      Run .blank (MemoryStore.holding "Archive") calls s' ∧
      (MemoryStore.holding "Archive").mailbox "Archive" = some mb ∧
      s'.mailbox "Archive" = some mb' ∧ m ∈ mb.messages ∧ m' ∈ mb'.messages ∧
      mb.identityOf m = mb'.identityOf m' ∧ ¬m.SameAs m' := by
  have hmb : (MemoryStore.holding "Archive").mailbox "Archive" =
      some ((Mailbox.new "Archive" (some .archive)).append [97] [] 0).2 := by decide
  have hdeleted : ((MemoryStore.holding "Archive").delete "Archive").1.mailbox "Archive" = none := by
    decide +kernel
  have hcreated : (((MemoryStore.holding "Archive").delete "Archive").1.create
      "Archive").1.mailbox "Archive" = some (Mailbox.new "Archive" none) := by decide +kernel
  have hmb' : ((((MemoryStore.holding "Archive").delete "Archive").1.create
      "Archive").1.deliverRaw "Archive" [98] [] 0).1.mailbox "Archive" =
      some ((Mailbox.new "Archive" none).append [98] [] 0).2 := by decide +kernel
  have hrun := (((Run.start (r := .blank)).delete (by decide +kernel) hmb).create
    hdeleted).deliverRaw hcreated [98] [] 0
  refine ⟨_, _, _, _, Message.new 1 [] 0 2 [97], Message.new 1 [] 0 2 [98],
    reachable_holding "Archive", hrun, hmb, hmb', by decide, by decide, rfl, ?_⟩
  rintro ⟨-, -, -, hraw⟩
  cases hraw

end Dmtap.Mail
