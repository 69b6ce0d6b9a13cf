import Dmtap.Mail.Changes
import Dmtap.Mail.Invariant

/-! A client that holds every email as of a state token and asks for the changes since. Messages of
a mailbox that is deleted or renamed are never reported as destroyed, and a new mailbox under an old
name is compared with the old one. -/
namespace Dmtap.Mail
open Lib

/-- All emails of a store: their ids with their flags. -/
def MemoryStore.emails (s : MemoryStore) : Set (String × List Flag) :=
  {p | ∃ name mb m, s.mailbox name = some mb ∧ m ∈ mb.messages ∧ p = (emailId name m.uid, m.flags)}

/-- What a client holds after it removed the destroyed emails and read the created and the updated
ones again. -/
def refreshed (client : Set (String × List Flag)) (c : JmapChanges)
    (now : Set (String × List Flag)) : Set (String × List Flag) :=
  {p | p ∈ client ∧ p.1 ∉ c.destroyed ∧ p.1 ∉ c.created ∧ p.1 ∉ c.updated} ∪
    {p | p ∈ now ∧ (p.1 ∈ c.created ∨ p.1 ∈ c.updated)}

/-- No call of a run deletes or renames a mailbox that held messages at the start, or puts a
mailbox under a name that had changes at the start. -/
structure Undisturbed (s : MemoryStore) (calls : List Call) : Prop where
  kept : ∀ name mb, s.mailbox name = some mb → mb.messages ≠ [] →
    .delete name ∉ calls ∧ ∀ target, .rename name target ∉ calls
  unused : ∀ name mb, s.mailbox name = some mb → 1 < mb.highestModseq →
    .create name ∉ calls ∧ ∀ source, .rename source name ∉ calls

section Tokens
variable {s : MemoryStore}

theorem get?_foldl_modseqs (l : List String) (map : StateMap) (name : String) :
    (l.foldl (fun map n =>
      match MailStore.mailbox s n with
      | some mb => map.insert n mb.highestModseq
      | none => map) map).get? name =
      if name ∈ l ∧ (s.mailbox name).isSome then (s.mailbox name).map Mailbox.highestModseq
      else map.get? name := by
  induction l generalizing map with
  | nil => simp
  | cons n l ih =>
    rw [List.foldl_cons, ih]
    by_cases hlater : name ∈ l ∧ (s.mailbox name).isSome
    · rw [if_pos hlater, if_pos ⟨List.mem_cons_of_mem _ hlater.1, hlater.2⟩]
    · rw [if_neg hlater]
      cases hmb : s.mailbox n with
      | none =>
        rw [show MailStore.mailbox s n = none from hmb]
        have hnot : ¬(name ∈ n :: l ∧ (s.mailbox name).isSome) := by
          rintro ⟨hmem, hsome⟩
          rcases List.mem_cons.mp hmem with rfl | hmem
          · rw [hmb] at hsome
            cases hsome
          · exact hlater ⟨hmem, hsome⟩
        rw [if_neg hnot]
      | some mb =>
        rw [show MailStore.mailbox s n = some mb from hmb]
        dsimp only
        rw [SortedMap.get?_insert]
        by_cases heq : name = n
        · subst heq
          rw [if_pos rfl, if_pos ⟨List.mem_cons_self, by rw [hmb]; rfl⟩, hmb]
          rfl
        · rw [if_neg heq]
          have hnot : ¬(name ∈ n :: l ∧ (s.mailbox name).isSome) := by
            rintro ⟨hmem, hsome⟩
            exact hlater ⟨(List.mem_cons.mp hmem).resolve_left heq, hsome⟩
          rw [if_neg hnot]

/-- The state records the modification sequence of every mailbox. -/
theorem get?_modseqs (hs : s.WellFormed) (name : String) :
    (modseqs s).get? name = (s.mailbox name).map Mailbox.highestModseq := by
  refine (get?_foldl_modseqs s.order SortedMap.empty name).trans ?_
  by_cases hsome : (s.mailbox name).isSome
  · rw [if_pos ⟨(hs.listed name).mpr hsome, hsome⟩]
  · rw [if_neg fun h => hsome h.2, SortedMap.get?_empty]
    rw [Option.not_isSome_iff_eq_none] at hsome
    rw [hsome]
    rfl

/-- What a store can put into a token. -/
def MemoryStore.FitsToken (s : MemoryStore) : Prop :=
  ∀ name mb, s.mailbox name = some mb → Mail.FitsToken (name, mb.highestModseq)

theorem decodeStateMap_jmapState (hs : s.WellFormed) (hfits : s.FitsToken) :
    decodeStateMap (jmapState s) = some (modseqs s) := by
  refine decodeStateMap_encodeStateMap fun p hp => ?_
  have hget := SortedMap.get?_eq_some_iff.mpr (show (p.1, p.2) ∈ (modseqs s).entries from hp)
  rw [get?_modseqs hs] at hget
  obtain ⟨mb, hmb, hmodseq⟩ := Option.map_eq_some_iff.mp hget
  have hfit := hfits p.1 mb hmb
  rw [hmodseq] at hfit
  exact hfit

theorem mem_namedMailboxes (hs : s.WellFormed) {name : String} {mb : Mailbox} :
    (name, mb) ∈ namedMailboxes s ↔ s.mailbox name = some mb := by
  unfold namedMailboxes
  rw [List.mem_filterMap]
  constructor
  · rintro ⟨n, -, hn⟩
    obtain ⟨mb', hmb', heq⟩ := Option.map_eq_some_iff.mp hn
    obtain ⟨rfl, rfl⟩ := Prod.mk.inj heq
    exact hmb'
  · intro hmb
    refine ⟨name, (hs.listed name).mpr ?_, ?_⟩
    · rw [hmb]
      rfl
    · rw [show MailStore.mailbox s name = some mb from hmb]
      rfl

/-- Created or updated, a message is listed when it changed after the old sequence. -/
theorem mem_changedIds {name id : String} {mb : Mailbox} {old : ℕ} :
    (id ∈ changedIds name mb old true ∨ id ∈ changedIds name mb old false) ↔
      ∃ m ∈ mb.messages, old < m.modseq ∧ id = emailId name m.uid := by
  unfold changedIds
  constructor
  · rintro (hid | hid)
    · obtain ⟨m, hm, rfl⟩ := List.mem_map.mp hid
      obtain ⟨hm, hlt⟩ := List.mem_filter.mp hm
      rw [Bool.and_eq_true, decide_eq_true_eq] at hlt
      exact ⟨m, hm, hlt.1, rfl⟩
    · obtain ⟨m, hm, rfl⟩ := List.mem_map.mp hid
      obtain ⟨hm, hlt⟩ := List.mem_filter.mp hm
      rw [Bool.and_eq_true, decide_eq_true_eq] at hlt
      exact ⟨m, hm, hlt.1, rfl⟩
  · rintro ⟨m, hm, hlt, rfl⟩
    by_cases hborn : old < m.createdModseq
    · left
      exact List.mem_map.mpr ⟨m, List.mem_filter.mpr ⟨hm, by simp [hlt, hborn]⟩, rfl⟩
    · right
      exact List.mem_map.mpr ⟨m, List.mem_filter.mpr ⟨hm, by simp [hlt, hborn]⟩, rfl⟩

theorem mem_destroyedIds {name id : String} {mb : Mailbox} {old : ℕ} :
    id ∈ destroyedIds name mb old ↔ ∃ p ∈ mb.expunged, old < p.2 ∧ id = emailId name p.1 := by
  unfold destroyedIds
  constructor
  · intro hid
    obtain ⟨p, hp, rfl⟩ := List.mem_map.mp hid
    obtain ⟨hp, hlt⟩ := List.mem_filter.mp hp
    exact ⟨p, hp, by simpa using hlt, rfl⟩
  · rintro ⟨p, hp, hlt, rfl⟩
    exact List.mem_map.mpr ⟨p, List.mem_filter.mpr ⟨hp, by simpa using hlt⟩, rfl⟩

end Tokens

/-- The modification sequence the state of `s` has for a name. -/
def MemoryStore.seen (s : MemoryStore) (name : String) : ℕ :=
  ((s.mailbox name).map Mailbox.highestModseq).getD 0

theorem MemoryStore.seen_of_mailbox {s : MemoryStore} {name : String} {mb : Mailbox}
    (hmb : s.mailbox name = some mb) : s.seen name = mb.highestModseq := by
  unfold MemoryStore.seen
  rw [hmb]
  rfl

/-- What an answer lists: the messages changed, and the UIDs expunged, after the modification
sequence the token has for their mailbox. -/
structure Reports (s s' : MemoryStore) (c : JmapChanges) : Prop where
  changed : ∀ id, (id ∈ c.created ∨ id ∈ c.updated) ↔ ∃ name mb m, s'.mailbox name = some mb ∧
    m ∈ mb.messages ∧ s.seen name < m.modseq ∧ id = emailId name m.uid
  destroyed : ∀ id, id ∈ c.destroyed ↔ ∃ name mb p, s'.mailbox name = some mb ∧ p ∈ mb.expunged ∧
    s.seen name < p.2 ∧ id = emailId name p.1

section Answers
variable {s s' : MemoryStore} {c : JmapChanges}

theorem jmapChanges_email (hs : s.WellFormed) (hs' : s'.WellFormed) (hfits : s.FitsToken) :
    ∃ c, jmapChanges s' .email (jmapState s) = some c ∧ Reports s s' c := by
  have hseen : ∀ name, ((modseqs s).get? name).getD 0 = s.seen name := by
    intro name
    rw [get?_modseqs hs]
    rfl
  unfold jmapChanges
  rw [decodeStateMap_jmapState hs hfits]
  refine ⟨_, rfl, ⟨?_, ?_⟩⟩
  · intro id
    dsimp only
    rw [List.mem_flatMap, List.mem_flatMap, ← exists_or]
    constructor
    · rintro ⟨⟨name, mb⟩, hid⟩
      rw [← and_or_left, mem_changedIds, hseen] at hid
      obtain ⟨hmb, m, hm, hlt, heq⟩ := hid
      exact ⟨name, mb, m, (mem_namedMailboxes hs').mp hmb, hm, hlt, heq⟩
    · rintro ⟨name, mb, m, hmb, hm, hlt, heq⟩
      refine ⟨(name, mb), ?_⟩
      rw [← and_or_left, mem_changedIds, hseen]
      exact ⟨(mem_namedMailboxes hs').mpr hmb, m, hm, hlt, heq⟩
  · intro id
    dsimp only
    rw [List.mem_flatMap]
    constructor
    · rintro ⟨⟨name, mb⟩, hmb, hid⟩
      rw [mem_destroyedIds, hseen] at hid
      obtain ⟨p, hp, hlt, heq⟩ := hid
      exact ⟨name, mb, p, (mem_namedMailboxes hs').mp hmb, hp, hlt, heq⟩
    · rintro ⟨name, mb, p, hmb, hp, hlt, heq⟩
      refine ⟨(name, mb), (mem_namedMailboxes hs').mpr hmb, ?_⟩
      rw [mem_destroyedIds, hseen]
      exact ⟨p, hp, hlt, heq⟩

/-- After an undisturbed run a mailbox is the one its name stood for, or it is new to a name that
had no changes before. -/
theorem Undisturbed.origin {calls : List Call} (hu : Undisturbed s calls) (h : Path s calls s')
    {name : String} {mb' : Mailbox} (hmb' : s'.mailbox name = some mb') :
    (∃ mb, s.mailbox name = some mb ∧ mb.Grows mb') ∨ s.seen name ≤ 1 := by
  have hnew : (.create name ∈ calls ∨ ∃ source, .rename source name ∈ calls) →
      s.seen name ≤ 1 := by
    intro hput
    unfold MemoryStore.seen
    cases hmb : s.mailbox name with
    | none => exact Nat.zero_le 1
    | some mb =>
      by_contra hlt
      obtain ⟨hcreate, hrename⟩ := hu.unused name mb hmb (Nat.lt_of_not_le hlt)
      rcases hput with hcreated | ⟨source, hrenamed⟩
      · exact hcreate hcreated
      · exact hrename source hrenamed
  rcases h.origin hmb' with ⟨n, mb, hmb, hfollow, hgrows⟩ | ⟨before, n, after, rfl, hfollow, -⟩
  · rcases eq_or_rename_of_follow hfollow with rfl | hrenamed
    · exact Or.inl ⟨mb, hmb, hgrows⟩
    · exact Or.inr (hnew (Or.inr hrenamed))
  · right
    rcases eq_or_rename_of_follow hfollow with rfl | ⟨source, hsource⟩
    · exact hnew (Or.inl (List.mem_append_right _ List.mem_cons_self))
    · exact hnew (Or.inr ⟨source, List.mem_append_right _ (List.mem_cons_of_mem _ hsource)⟩)

/-- Every email of the later store is reported, or it was there before with the same flags and
is not reported as destroyed. -/
theorem Undisturbed.mem_emails {calls : List Call} (hu : Undisturbed s calls) (h : Path s calls s')
    (hs' : s'.WellFormed) {name : String} {mb' : Mailbox} {m : Message}
    (hmb' : s'.mailbox name = some mb') (hm : m ∈ mb'.messages) :
    s.seen name < m.modseq ∨ ∃ mb m₀, s.mailbox name = some mb ∧ m₀ ∈ mb.messages ∧
      m₀.uid = m.uid ∧ m₀.flags = m.flags := by
  have hbounds := (hs'.ledgers name mb' hmb').bounds m.entry (Mailbox.mem_ledger_live hm)
  rcases hu.origin h hmb' with ⟨mb, hmb, hgrows⟩ | hseen
  · by_cases hlt : s.seen name < m.modseq
    · exact Or.inl hlt
    · right
      have hle : m.modseq ≤ mb.highestModseq := by
        rw [← MemoryStore.seen_of_mailbox hmb]
        exact Nat.le_of_not_lt hlt
      have hkept := hgrows.ledger.since.kept m.entry (Mailbox.mem_ledger_live hm) hle
      obtain ⟨m₀, hm₀, hentry⟩ := List.mem_map.mp hkept
      exact ⟨mb, m₀, hmb, hm₀, congrArg Entry.key hentry,
        congrArg (fun e => e.value.flags) hentry⟩
  · left
    have hborn : 1 < m.createdModseq ∧ m.createdModseq ≤ m.modseq :=
      ⟨hbounds.2.2.1, hbounds.2.2.2.1⟩
    omega

/-- Every email of the earlier store is still there with the same flags, or it is reported. -/
theorem Undisturbed.mem_or_reported {calls : List Call} (hu : Undisturbed s calls)
    (h : Path s calls s') (hs : s.WellFormed) {name : String} {mb : Mailbox} {m : Message}
    (hmb : s.mailbox name = some mb) (hm : m ∈ mb.messages) :
    ∃ mb', s'.mailbox name = some mb' ∧
      ((∃ m' ∈ mb'.messages, m'.uid = m.uid ∧ (m'.flags = m.flags ∨ s.seen name < m'.modseq)) ∨
        ∃ p ∈ mb'.expunged, p.1 = m.uid ∧ s.seen name < p.2) := by
  obtain ⟨hdelete, hrename⟩ := hu.kept name mb hmb (List.ne_nil_of_mem hm)
  obtain ⟨mb', hmb', hgrows⟩ := h.follow hmb (follow_of_not_mem hdelete hrename)
  have hseen := MemoryStore.seen_of_mailbox hmb
  have hsince := hgrows.ledger.since
  refine ⟨mb', hmb', ?_⟩
  rcases hsince.accounted m.entry (Mailbox.mem_ledger_live hm) with ⟨e', he', hkey, -⟩ | ⟨t, ht, hlt⟩
  · left
    obtain ⟨m', hm', rfl⟩ := List.mem_map.mp he'
    refine ⟨m', hm', hkey, ?_⟩
    by_cases hlt : s.seen name < m'.modseq
    · exact Or.inr hlt
    · have hle : m'.modseq ≤ mb.highestModseq := by
        rw [← hseen]
        exact Nat.le_of_not_lt hlt
      have hkept := hsince.kept m'.entry he' hle
      have hsame := (hs.ledgers name mb hmb).eq_of_key hkept (Mailbox.mem_ledger_live hm) hkey
      exact Or.inl (congrArg (fun e => e.value.flags) hsame)
  · exact Or.inr ⟨(m.uid, t), ht, rfl, hseen ▸ hlt⟩

/-- After an undisturbed run the answer brings a client up to date. -/
theorem Undisturbed.refreshed_eq {calls : List Call} (hu : Undisturbed s calls)
    (h : Path s calls s') (hs : s.WellFormed) (hs' : s'.WellFormed) (hc : Reports s s' c) :
    refreshed s.emails c s'.emails = s'.emails := by
  apply Set.ext
  intro p
  constructor
  · rintro (⟨⟨name, mb, m, hmb, hm, rfl⟩, hnot, hcreated, hupdated⟩ | ⟨hp, -⟩)
    · obtain ⟨mb', hmb', ⟨m', hm', huid, hflags | hlt⟩ | ⟨q, hq, huid, hlt⟩⟩ :=
        hu.mem_or_reported h hs hmb hm
      · exact ⟨name, mb', m', hmb', hm', by rw [huid, hflags]⟩
      · have hreported := (hc.changed (emailId name m.uid)).mpr
          ⟨name, mb', m', hmb', hm', hlt, by rw [huid]⟩
        rcases hreported with hreported | hreported
        · exact absurd hreported hcreated
        · exact absurd hreported hupdated
      · exact absurd ((hc.destroyed _).mpr ⟨name, mb', q, hmb', hq, hlt, by rw [huid]⟩) hnot
    · exact hp
  · rintro ⟨name, mb', m, hmb', hm, rfl⟩
    by_cases hreported : emailId name m.uid ∈ c.created ∨ emailId name m.uid ∈ c.updated
    · exact Or.inr ⟨⟨name, mb', m, hmb', hm, rfl⟩, hreported⟩
    · rcases hu.mem_emails h hs' hmb' hm with hlt | ⟨mb, m₀, hmb, hm₀, huid, hflags⟩
      · exact absurd ((hc.changed _).mpr ⟨name, mb', m, hmb', hm, hlt, rfl⟩) hreported
      · have hlive : emailId name m.uid ∉ c.destroyed := by
          intro hgone
          obtain ⟨name', mb'', q, hmb'', hq, -, hid⟩ := (hc.destroyed _).mp hgone
          obtain ⟨rfl, huid'⟩ := emailId_inj hid
          rw [hmb'] at hmb''
          cases hmb''
          exact (hs'.ledgers name mb' hmb').apart q hq m.entry (Mailbox.mem_ledger_live hm)
            huid'.symm
        exact Or.inl ⟨⟨name, mb, m₀, hmb, hm₀, by rw [huid, hflags]⟩, hlive,
          fun h => hreported (Or.inl h), fun h => hreported (Or.inr h)⟩

/-- A client never learns that the messages of a deleted or renamed mailbox are gone. -/
theorem refreshed_ne_of_gone (hc : Reports s s' c) {name : String} {mb : Mailbox}
    (hmb : s.mailbox name = some mb) (hmessages : mb.messages ≠ [])
    (hgone : s'.mailbox name = none) : refreshed s.emails c s'.emails ≠ s'.emails := by
  intro heq
  obtain ⟨m, hm⟩ := List.exists_mem_of_ne_nil _ hmessages
  have habsent : ∀ {name' : String} {mb' : Mailbox} {uid : ℕ}, s'.mailbox name' = some mb' →
      emailId name m.uid ≠ emailId name' uid := by
    intro name' mb' uid hmb' hid
    obtain ⟨rfl, -⟩ := emailId_inj hid
    rw [hgone] at hmb'
    cases hmb'
  have hquiet : ¬(emailId name m.uid ∈ c.created ∨ emailId name m.uid ∈ c.updated) := by
    intro hreported
    obtain ⟨name', mb', m', hmb', -, -, hid⟩ := (hc.changed _).mp hreported
    exact habsent hmb' hid
  have hkept : emailId name m.uid ∉ c.destroyed := by
    intro hdestroyed
    obtain ⟨name', mb', q, hmb', -, -, hid⟩ := (hc.destroyed _).mp hdestroyed
    exact habsent hmb' hid
  have hstays : (emailId name m.uid, m.flags) ∈ refreshed s.emails c s'.emails :=
    Or.inl ⟨⟨name, mb, m, hmb, hm, rfl⟩, hkept, fun h => hquiet (Or.inl h),
      fun h => hquiet (Or.inr h)⟩
  rw [heq] at hstays
  obtain ⟨name', mb', m', hmb', -, hid⟩ := hstays
  exact habsent hmb' (Prod.mk.inj hid).1

end Answers

/-- The changes since a token bring a client up to date after every undisturbed run. They never do
when a name that held messages stands for no mailbox any more. -/
theorem email_changes_complete {r : Renderers} {s s' : MemoryStore} {calls : List Call}
    (h : Reachable r s) (hfits : s.FitsToken) (hrun : Run r s calls s') :
    ∃ c, jmapChanges s' .email (jmapState s) = some c ∧
      (Undisturbed s calls → refreshed s.emails c s'.emails = s'.emails) ∧
      ∀ name mb, s.mailbox name = some mb → mb.messages ≠ [] → s'.mailbox name = none →
        refreshed s.emails c s'.emails ≠ s'.emails := by
  have hs := h.wellFormed
  have hs' := hrun.path.wellFormed hs
  obtain ⟨c, hc, hreports⟩ := jmapChanges_email hs hs' hfits
  refine ⟨c, hc, fun hu => hu.refreshed_eq hrun.path hs hs' hreports, ?_⟩
  intro name mb hmb hmessages hgone
  exact refreshed_ne_of_gone hreports hmb hmessages hgone

/-- A fresh store with one message in a mailbox. -/
def MemoryStore.holding (name : String) : MemoryStore :=
  (MemoryStore.new.deliverRaw name [97] [] 0).1

theorem reachable_holding (name : String) : Reachable .blank (MemoryStore.holding name) :=
  (reachable_new _).op (.deliverRaw name [97] [] 0) rfl

theorem fitsToken_holding : (MemoryStore.holding "Archive").FitsToken := by
  have hentries : ∀ p ∈ (modseqs (MemoryStore.holding "Archive")).entries,
      (utf8 p.1).length < 2 ^ 32 ∧ p.2 < 2 ^ 64 := by decide
  intro name mb hmb
  have hget := get?_modseqs (reachable_holding "Archive").wellFormed name
  rw [hmb] at hget
  exact hentries _ (SortedMap.get?_eq_some_iff.mp hget)

/-- A delivery after the token: the answer is right. -/
theorem email_changes_complete_delivery : ∃ c,
    jmapChanges ((MemoryStore.holding "Archive").deliverRaw "INBOX" [98] [.seen] 0).1 .email
        (jmapState (MemoryStore.holding "Archive")) = some c ∧
      refreshed (MemoryStore.holding "Archive").emails c
          ((MemoryStore.holding "Archive").deliverRaw "INBOX" [98] [.seen] 0).1.emails =
        ((MemoryStore.holding "Archive").deliverRaw "INBOX" [98] [.seen] 0).1.emails := by
  have hmb : (MemoryStore.holding "Archive").mailbox "INBOX" =
      some (Mailbox.new "INBOX" (some .inbox)) := by decide
  obtain ⟨c, hc, hright, -⟩ := email_changes_complete (reachable_holding "Archive")
    fitsToken_holding (Run.start.deliverRaw hmb [98] [.seen] 0)
  refine ⟨c, hc, hright ⟨?_, ?_⟩⟩
  · intro name mb _ _
    simp
  · intro name mb _ _
    simp

/-- The Archive is deleted after the token: its message is not reported as destroyed, and the
client keeps it. -/
theorem email_changes_deleted_mailbox : Reachable .blank (MemoryStore.holding "Archive") ∧
    Run .blank (MemoryStore.holding "Archive") [.delete "Archive"]
        ((MemoryStore.holding "Archive").delete "Archive").1 ∧
      ∃ c, jmapChanges ((MemoryStore.holding "Archive").delete "Archive").1 .email
          (jmapState (MemoryStore.holding "Archive")) = some c ∧
        refreshed (MemoryStore.holding "Archive").emails c
            ((MemoryStore.holding "Archive").delete "Archive").1.emails ≠
          ((MemoryStore.holding "Archive").delete "Archive").1.emails := by
  have hmb : (MemoryStore.holding "Archive").mailbox "Archive" =
      some ((Mailbox.new "Archive" (some .archive)).append [97] [] 0).2 := by decide
  have hrun : Run .blank (MemoryStore.holding "Archive") [.delete "Archive"]
      ((MemoryStore.holding "Archive").delete "Archive").1 :=
    Run.start.delete (by decide +kernel) hmb
  have hs := (reachable_holding "Archive").wellFormed
  obtain ⟨c, hc, hreports⟩ := jmapChanges_email hs (hrun.path.wellFormed hs) fitsToken_holding
  have hgone : ((MemoryStore.holding "Archive").delete "Archive").1.mailbox "Archive" = none := by
    decide +kernel
  exact ⟨reachable_holding "Archive", hrun, c, hc, refreshed_ne_of_gone hreports hmb (by simp [Mailbox.append]) hgone⟩

end Dmtap.Mail
