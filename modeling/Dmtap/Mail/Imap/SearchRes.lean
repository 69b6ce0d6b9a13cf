import Dmtap.Mail.Imap.Examine
import Dmtap.Mail.Imap.Targets

/-! The saved search result beside a record of what it should be: the searches that were saved since
the mailbox was selected. A selection leaves the saved result as it is. -/
namespace Dmtap.Mail.Imap.Session
open Lib

/-- The saved result and the selection are those of the session before. -/
structure Carries {σ : Type} (s s' : Session σ) : Prop where
  savedSearch : s'.savedSearch = s.savedSearch
  selected : s'.selected = s.selected

section Carries
variable {σ : Type} {s s' : Session σ}

theorem carries_of_outline (h : s'.outline = s.outline) : Carries s s' :=
  ⟨congrArg (fun t : Session Unit => t.savedSearch) h,
    congrArg (fun t : Session Unit => t.selected) h⟩

theorem OpenStep.carries (h : OpenStep s s') : Carries s s' := by
  cases h with
  | settle => exact ⟨rfl, rfl⟩
  | refuse => exact ⟨rfl, rfl⟩
  | accept => exact ⟨rfl, rfl⟩

end Carries

/-- A selection of a mailbox: what was saved when it was selected, and the UIDs that each saved
search matched since. -/
structure Selection where
  mailbox : String
  leftover : List ℕ
  searches : List (List ℕ)

/-- What a session with this history has saved. -/
def saved : Option Selection → List ℕ
  | none => []
  | some sel => sel.searches.getLast?.getD sel.leftover

def Selection.add (sel : Selection) (uids : List ℕ) : Selection :=
  { sel with searches := sel.searches ++ [uids] }

theorem saved_of_unsearched {sel : Selection} (h : sel.searches = []) :
    saved (some sel) = sel.leftover := by
  unfold saved
  dsimp only
  rw [h]
  rfl

theorem saved_add (sel : Selection) (uids : List ℕ) : saved (some (sel.add uids)) = uids :=
  congrArg (Option.getD · sel.leftover) List.getLast?_concat

theorem saved_mem_searches {sel : Selection} (h : sel.searches ≠ []) :
    saved (some sel) ∈ sel.searches := by
  unfold saved
  dsimp only
  rw [List.getLast?_eq_some_getLast h]
  exact List.getLast_mem h

section History
variable (views : Views) (s : Session MemoryStore)

def recordSelect (hist : Option Selection) (name : String) : Option Selection :=
  if s.identity.isSome && (s.store.mailbox name).isSome then some ⟨name, s.savedSearch, []⟩
  else hist

/-- The history after a command of this session. -/
def recordCommand (hist : Option Selection) : Command → Option Selection
  | .select name _ _ => s.recordSelect hist name
  | .examine name _ _ => s.recordSelect hist name
  | .search charset key _ ret =>
    match s.selected.bind s.store.mailbox with
    | some mb =>
      if s.identity.isSome && !badCharset charset && (ret.map String.toUpper).contains "SAVE" then
        hist.map (Selection.add · ((searchMatches views mb key s.savedSearch).map
          (numberOf mb true)))
      else hist
    | none => hist
  | _ => hist

/-- The command an input arrives as, if the session takes it for one. -/
def commandOf (buf : Bytes) : Option Command :=
  match s.idleTag, s.pending, parseCommand buf with
  | none, none, .ok pc => some pc.command
  | _, _, _ => none

def record (hist : Option Selection) (buf : Bytes) : Option Selection :=
  match s.commandOf buf with
  | some command => s.selfHeal.recordCommand views hist command
  | none => hist

/-- A run beside its history. -/
def follow (views : Views) (s : Session MemoryStore) (hist : Option Selection) :
    List Bytes → Option (Session MemoryStore × Option Selection)
  | [] => some (s, hist)
  | buf :: inputs =>
    match s.process views buf with
    | some (t, _) => follow views t (s.record views hist buf) inputs
    | none => none

/-- The session has saved what its history says, and has selected what it says. -/
structure InStep (hist : Option Selection) (s : Session MemoryStore) : Prop where
  savedSearch : s.savedSearch = saved hist
  selected : ∀ name, s.selected = some name → ∃ sel, hist = some sel ∧ sel.mailbox = name

end History

section Step
variable {views : Views} {s s' : Session MemoryStore} {hist : Option Selection}

theorem InStep.carry (h : InStep hist s) (hcarries : Carries s s') : InStep hist s' where
  savedSearch := hcarries.savedSearch.trans h.savedSearch
  selected := fun name hname => h.selected name (hcarries.selected.symm.trans hname)

/-- Nothing is selected any more. -/
theorem InStep.deselect (h : InStep hist s) (hsaved : s'.savedSearch = s.savedSearch)
    (hselected : s'.selected = none) : InStep hist s' where
  savedSearch := hsaved.trans h.savedSearch
  selected := fun _ hname => nomatch hselected.symm.trans hname

theorem InStep.selfHeal (h : InStep hist s) : InStep hist s.selfHeal := by
  unfold Session.selfHeal
  split
  · split_ifs
    · exact h.deselect rfl rfl
    · exact h
  · exact h

theorem cmdSelect_savedSearch (s : Session MemoryStore) (tag name : String)
    (readOnly condstore : Bool) (qresync : Option QResyncParams) :
    (s.cmdSelect tag name readOnly condstore qresync).1.savedSearch = s.savedSearch := by
  unfold cmdSelect
  cases MailStore.mailbox s.store name with
  | none => rfl
  | some mb =>
    dsimp only
    split_ifs
    all_goals rfl

theorem inStep_cmdSelect (h : InStep hist s) (hidentity : s.identity.isSome = true)
    (tag name : String) (readOnly condstore : Bool) (qresync : Option QResyncParams) :
    InStep (s.recordSelect hist name) (s.cmdSelect tag name readOnly condstore qresync).1 := by
  have hsaved := s.cmdSelect_savedSearch tag name readOnly condstore qresync
  unfold recordSelect
  unfold cmdSelect at hsaved ⊢
  rw [hidentity, Bool.true_and]
  cases hmb : s.store.mailbox name with
  | none =>
    rw [show MailStore.mailbox s.store name = none from hmb]
    exact h
  | some mb =>
    rw [show MailStore.mailbox s.store name = some mb from hmb] at hsaved ⊢
    exact ⟨hsaved, fun _ hname => ⟨_, rfl, Option.some.inj hname⟩⟩

theorem inStep_cmdSearch (h : InStep hist s) (hidentity : s.identity.isSome = true) (tag : String)
    (charset : Option String) (key : SearchKey) (uid : Bool) (ret : List String) :
    InStep (s.recordCommand views hist (.search charset key uid ret))
      (s.cmdSearch views tag key uid ret charset).1 := by
  unfold recordCommand cmdSearch
  dsimp only
  rw [hidentity, Bool.true_and]
  cases hmb : s.selected.bind s.store.mailbox with
  | none =>
    dsimp only
    split_ifs
    · exact h
    · exact h
  | some mb =>
    by_cases hcharset : badCharset charset = true
    · rw [if_pos hcharset, hcharset]
      exact h
    · rw [if_neg hcharset, Bool.eq_false_iff.mpr hcharset]
      dsimp only
      by_cases hsave : (ret.map String.toUpper).contains "SAVE" = true
      · obtain ⟨name, hname, -⟩ := Option.bind_eq_some_iff.mp hmb
        obtain ⟨sel, rfl, rfl⟩ := h.selected name hname
        rw [hsave]
        constructor
        · exact (saved_add sel _).symm
        · intro name' hname'
          exact ⟨_, rfl, Option.some.inj (hname.symm.trans hname')⟩
      · rw [Bool.eq_false_iff.mpr hsave]
        exact h

/-- The commands that neither select nor search leave the history as it is. -/
theorem inStep_dispatchAuthenticated (h : InStep hist s) (hidentity : s.identity.isSome = true)
    (tag : String) (command : Command) :
    InStep (s.recordCommand views hist command)
      (s.dispatchAuthenticated views tag command).1 := by
  cases command with
  | select mailbox qresync condstore =>
    exact inStep_cmdSelect h hidentity tag mailbox false condstore qresync
  | examine mailbox qresync condstore =>
    exact inStep_cmdSelect h hidentity tag mailbox true condstore qresync
  | search charset key uid ret => exact inStep_cmdSearch h hidentity tag charset key uid ret
  | close => exact h.deselect rfl rfl
  | unselect => exact h.deselect rfl rfl
  | _ => exact h.carry (carries_of_outline (s.dispatchAuthenticated_outline views tag _ rfl rfl))

theorem inStep_dispatchOpen (h : InStep hist s) (tag : String) (command : Command)
    {f : Unit → Session MemoryStore × List Reply}
    (hf : InStep (s.recordCommand views hist command) (f ()).1) :
    InStep (s.recordCommand views hist command) (s.dispatchOpen tag command f).1 := by
  unfold dispatchOpen
  cases command with
  | enable caps => exact h.carry (s.openStep_cmdEnable tag caps).carries
  | login user pass => exact h.carry (s.openStep_cmdLogin tag user pass).carries
  | authenticate mechanism initial =>
    exact h.carry (s.openStep_cmdAuthenticate tag mechanism initial).carries
  | capability | noop | id | namespaces => exact h
  | logout => exact h.carry ⟨rfl, rfl⟩
  | startTls => exact h.carry ⟨rfl, rfl⟩
  | _ => exact hf

/-- Nothing is recorded of a session that nobody logged in to. -/
theorem recordCommand_of_identity (hidentity : s.identity.isNone = true) (command : Command) :
    s.recordCommand views hist command = hist := by
  have hsome : s.identity.isSome = false := by
    rw [Option.isNone_iff_eq_none.mp hidentity]
    rfl
  cases command with
  | select name qresync condstore => simp [recordCommand, recordSelect, hsome]
  | examine name qresync condstore => simp [recordCommand, recordSelect, hsome]
  | search charset key uid ret =>
    unfold recordCommand
    dsimp only
    rw [hsome]
    cases s.selected.bind s.store.mailbox with
    | none => rfl
    | some mb => rfl
  | _ => rfl

theorem inStep_dispatch (views : Views) (h : InStep hist s) (pc : ParsedCommand) :
    InStep (s.selfHeal.recordCommand views hist pc.command) (s.dispatch views pc).1 := by
  refine inStep_dispatchOpen h.selfHeal pc.tag pc.command ?_
  by_cases hidentity : s.selfHeal.identity.isNone = true
  · rw [if_pos hidentity, recordCommand_of_identity hidentity]
    exact h.selfHeal
  · rw [if_neg hidentity]
    refine inStep_dispatchAuthenticated h.selfHeal ?_ pc.tag pc.command
    exact Option.isSome_iff_ne_none.mpr fun hnone =>
      hidentity (Option.isNone_iff_eq_none.mpr hnone)

/-- Every input keeps the session and its history in step. -/
theorem inStep_process (h : InStep hist s) {buf : Bytes} {out : List Reply}
    (hprocess : s.process views buf = some (s', out)) : InStep (s.record views hist buf) s' := by
  unfold process at hprocess
  unfold record commandOf
  cases hidle : s.idleTag with
  | some tag =>
    rw [hidle] at hprocess
    dsimp only at hprocess
    split_ifs at hprocess
    · cases hprocess
      exact h.carry ⟨rfl, rfl⟩
    · cases hprocess
      exact h
  | none =>
    rw [hidle] at hprocess
    cases hpending : s.pending with
    | some p =>
      rw [hpending] at hprocess
      have hsasl := (openStep_continueSasl { s with idleTag := none, pending := none } p buf).carries
      rw [Option.some.inj hprocess] at hsasl
      exact h.carry ⟨hsasl.savedSearch, hsasl.selected⟩
    | none =>
      rw [hpending] at hprocess
      cases hparse : parseCommand buf with
      | ok pc =>
        rw [hparse] at hprocess
        have hdispatch := inStep_dispatch views h pc
        rw [Option.some.inj hprocess] at hdispatch
        exact hdispatch
      | error fault =>
        rw [hparse] at hprocess
        cases fault with
        | error e =>
          cases hprocess
          exact h
        | _ => cases hprocess

theorem inStep_new (store : MemoryStore) (auth : Authenticator) (tls : Bool) :
    InStep none (new store auth tls) where
  savedSearch := rfl
  selected := fun _ (hname : none = some _) => nomatch hname

/-- So does every run. -/
theorem InStep.follow {inputs : List Bytes} {t : Session MemoryStore} {hist' : Option Selection}
    (h : InStep hist s) (hfollow : s.follow views hist inputs = some (t, hist')) :
    InStep hist' t := by
  induction inputs generalizing s hist with
  | nil =>
    obtain ⟨rfl, rfl⟩ := Prod.mk.inj (Option.some.inj hfollow)
    exact h
  | cons buf inputs ih =>
    unfold Session.follow at hfollow
    cases hprocess : s.process views buf with
    | none =>
      rw [hprocess] at hfollow
      cases hfollow
    | some answer =>
      rw [hprocess] at hfollow
      exact ih (inStep_process h hprocess) hfollow

theorem exists_follow {inputs : List Bytes} {t : Session MemoryStore}
    (h : s.Reaches views inputs t) (hist : Option Selection) :
    ∃ hist', s.follow views hist inputs = some (t, hist') := by
  induction inputs generalizing s hist with
  | nil =>
    rw [(reaches_nil views).mp h]
    exact ⟨hist, rfl⟩
  | cons buf inputs ih =>
    obtain ⟨u, out, hprocess, hreaches⟩ := (reaches_cons views).mp h
    obtain ⟨hist', hfollow⟩ := ih hreaches (s.record views hist buf)
    refine ⟨hist', ?_⟩
    unfold Session.follow
    rw [hprocess]
    exact hfollow

theorem reaches_of_follow {inputs : List Bytes} {t : Session MemoryStore}
    {hist' : Option Selection} (h : s.follow views hist inputs = some (t, hist')) :
    s.Reaches views inputs t := by
  induction inputs generalizing s hist with
  | nil => exact (reaches_nil views).mpr (congrArg Prod.fst (Option.some.inj h)).symm
  | cons buf inputs ih =>
    unfold Session.follow at h
    cases hprocess : s.process views buf with
    | none =>
      rw [hprocess] at h
      cases h
    | some answer =>
      rw [hprocess] at h
      exact (reaches_cons views).mpr ⟨answer.1, answer.2, hprocess, ih h⟩

end Step

section Dollar

/-- The reference to the saved result. -/
def dollar : SequenceSet := ⟨[], true⟩

example : SequenceSet.parse "$" = some dollar := by decide

/-- The reference means the message at an index: as the target of a command, as the set of an EXPUNGE,
or in a search. -/
def DollarMeans (views : Views) (t : Session MemoryStore) (mb : Mailbox) (i : ℕ) : Prop :=
  (∃ uidMode, i ∈ resolveTargets mb (t.materialize dollar uidMode) uidMode) ∨
    (∃ m, mb.messages[i]? = some m ∧
      (t.materialize dollar true).contains m.uid mb.maxUid = true) ∨
    i ∈ searchMatches views mb (.seq dollar) t.savedSearch ∨
    i ∈ searchMatches views mb (.uid dollar) t.savedSearch

variable {views : Views} {t : Session MemoryStore} {mb : Mailbox}

/-- All its uses mean the messages whose UIDs are saved. -/
theorem dollarMeans_iff (h : mb.Invariant) (hmb : t.selected.bind t.store.mailbox = some mb)
    {i : ℕ} {m : Message} (hm : mb.messages[i]? = some m) :
    t.DollarMeans views mb i ↔ m.uid ∈ t.savedSearch := by
  have hthere {p : Message → Prop} : (∃ m', mb.messages[i]? = some m' ∧ p m') ↔ p m := by
    rw [hm]
    constructor
    · rintro ⟨m', heq, hp⟩
      rwa [Option.some.inj heq]
    · exact fun hp => ⟨m, rfl, hp⟩
  have htargets (uidMode : Bool) :
      i ∈ resolveTargets mb (t.materialize dollar uidMode) uidMode ↔ m.uid ∈ t.savedSearch := by
    rw [resolveTargets_materialize h.ascending hmb, mem_positions, hthere]
    exact List.contains_iff_mem
  have hset : (∃ m', mb.messages[i]? = some m' ∧
      (t.materialize dollar true).contains m'.uid mb.maxUid = true) ↔ m.uid ∈ t.savedSearch := by
    rw [hthere]
    exact SequenceSet.contains_fromUids _ _ _
  have hsearch {key : SearchKey} (hkey : key = .seq dollar ∨ key = .uid dollar) :
      i ∈ searchMatches views mb key t.savedSearch ↔ m.uid ∈ t.savedSearch := by
    refine mem_positions.trans (hthere.trans ?_)
    rcases hkey with rfl | rfl
    · exact List.contains_iff_mem
    · exact List.contains_iff_mem
  unfold DollarMeans
  rw [hset, hsearch (.inl rfl), hsearch (.inr rfl)]
  simp only [htargets, exists_const, or_self]

/-- In every run, the reference means only messages matched by searches that were saved since the
selection just if there was one, or nothing that was saved before is in the mailbox. -/
theorem dollarMeans_since_iff {r : Renderers} {store : MemoryStore} (h : Reachable r store)
    (auth : Authenticator) (tls : Bool) (views : Views) {inputs : List Bytes}
    (hreaches : (new store auth tls).Reaches views inputs t) {name : String}
    (hname : t.selected = some name) (hmb : t.store.mailbox name = some mb) :
    ∃ sel, (new store auth tls).follow views none inputs = some (t, some sel) ∧
      sel.mailbox = name ∧
      ((∀ i m, mb.messages[i]? = some m → t.DollarMeans views mb i →
          ∃ hits ∈ sel.searches, m.uid ∈ hits) ↔
        sel.searches ≠ [] ∨ ∀ m ∈ mb.messages, m.uid ∉ sel.leftover) := by
  obtain ⟨hist, hfollow⟩ := exists_follow hreaches none
  have hinStep := (inStep_new store auth tls).follow hfollow
  obtain ⟨sel, rfl, hsel⟩ := hinStep.selected name hname
  have hinvariant := Mailbox.invariant_of_ledger
    ((hreaches.wellFormed views h.wellFormed).ledgers name mb hmb)
  have hselected : t.selected.bind t.store.mailbox = some mb := by
    rw [hname]
    exact hmb
  have hmeans {i : ℕ} {m : Message} (hm : mb.messages[i]? = some m) :
      t.DollarMeans views mb i ↔ m.uid ∈ saved (some sel) := by
    rw [dollarMeans_iff hinvariant hselected hm, hinStep.savedSearch]
  refine ⟨sel, hfollow, hsel, ?_⟩
  by_cases hnil : sel.searches = []
  · rw [saved_of_unsearched hnil] at hmeans
    rw [hnil]
    constructor
    · intro honly
      right
      intro m hm hleft
      obtain ⟨i, hi⟩ := List.mem_iff_getElem?.mp hm
      obtain ⟨hits, hhits, -⟩ := honly i m hi ((hmeans hi).mpr hleft)
      cases hhits
    · rintro (hne | hapart) i m hi hdollar
      · exact absurd rfl hne
      · exact absurd ((hmeans hi).mp hdollar) (hapart m (List.mem_of_getElem? hi))
  · have hlast := saved_mem_searches hnil
    exact iff_of_true (fun i m hi hdollar => ⟨_, hlast, (hmeans hi).mp hdollar⟩) (.inl hnil)

/-- A message in INBOX and another one in Trash. -/
def scattered : MemoryStore :=
  ((MemoryStore.new.deliverRaw "INBOX" [97] [] 0).1.deliverRaw "Trash" [98] [] 0).1

theorem reachable_scattered : Reachable .blank scattered :=
  ((reachable_new .blank).op (.deliverRaw "INBOX" [97] [] 0) rfl).op
    (.deliverRaw "Trash" [98] [] 0) rfl

/-- The commands search INBOX, save the result, and go over to Trash. -/
def crossing : List Bytes :=
  [utf8 "a LOGIN alice pw\r\n", utf8 "b SELECT INBOX\r\n",
    utf8 "c SEARCH RETURN (SAVE) ALL\r\n", utf8 "d SELECT Trash\r\n"]

/-- What was found in INBOX means the message in Trash. -/
theorem dollarMeans_crossing : Reachable .blank scattered ∧ ∃ t sel mb,
    (new scattered (.issued "alice" "pw" [1]) true).follow .blank none crossing =
      some (t, some sel) ∧
    t.selected = some "Trash" ∧ t.store.mailbox "Trash" = some mb ∧ sel.searches = [] ∧
    mb.messages.length = 1 ∧ t.DollarMeans .blank mb 0 := by
  refine ⟨reachable_scattered, ?_⟩
  have hfacts : ((new scattered (.issued "alice" "pw" [1]) true).follow .blank none crossing).map
      (fun r => (r.1.selected, r.2.map Selection.searches,
        (r.1.store.mailbox "Trash").map fun mb => (mb.messages.length,
          resolveTargets mb (r.1.materialize dollar true) true))) =
      some (some "Trash", some [], some (1, [0])) := by decide +kernel
  obtain ⟨⟨t, hist⟩, hfollow, hfacts⟩ := Option.map_eq_some_iff.mp hfacts
  simp only [Prod.mk.injEq] at hfacts
  obtain ⟨hselected, hsearches, htargets⟩ := hfacts
  obtain ⟨sel, rfl, hnil⟩ := Option.map_eq_some_iff.mp hsearches
  obtain ⟨mb, hmb, htargets⟩ := Option.map_eq_some_iff.mp htargets
  obtain ⟨hlength, htargets⟩ := Prod.mk.inj htargets
  refine ⟨t, sel, mb, hfollow, hselected, hmb, hnil, hlength, .inl ⟨true, ?_⟩⟩
  rw [htargets]
  exact List.mem_singleton_self _

/-- After one more search it means what that one found. -/
theorem dollarMeans_since_again : ∃ t sel mb,
    (new scattered (.issued "alice" "pw" [1]) true).follow .blank none
      (crossing ++ [utf8 "e SEARCH RETURN (SAVE) ALL\r\n"]) = some (t, some sel) ∧
    sel.mailbox = "Trash" ∧ t.store.mailbox "Trash" = some mb ∧
    ∀ i m, mb.messages[i]? = some m → t.DollarMeans .blank mb i →
      ∃ hits ∈ sel.searches, m.uid ∈ hits := by
  have hfacts : ((new scattered (.issued "alice" "pw" [1]) true).follow .blank none
      (crossing ++ [utf8 "e SEARCH RETURN (SAVE) ALL\r\n"])).map
      (fun r => (r.1.selected, r.2.map Selection.searches,
        (r.1.store.mailbox "Trash").map fun mb => mb.messages.length)) =
      some (some "Trash", some [[1]], some 1) := by decide +kernel
  obtain ⟨⟨t, hist⟩, hfollow, hfacts⟩ := Option.map_eq_some_iff.mp hfacts
  simp only [Prod.mk.injEq] at hfacts
  obtain ⟨hselected, hsearches, hlength⟩ := hfacts
  obtain ⟨mb, hmb, -⟩ := Option.map_eq_some_iff.mp hlength
  obtain ⟨sel, hfollow', hsel, hiff⟩ := dollarMeans_since_iff reachable_scattered
    (.issued "alice" "pw" [1]) true .blank (reaches_of_follow hfollow) hselected hmb
  rw [hfollow] at hfollow'
  obtain ⟨-, rfl⟩ := Prod.mk.inj (Option.some.inj hfollow')
  have hone : sel.searches = [[1]] := Option.some.inj hsearches
  refine ⟨t, sel, mb, hfollow, hsel, hmb, hiff.mpr (.inl ?_)⟩
  rw [hone]
  exact List.cons_ne_nil _ _

end Dollar
end Dmtap.Mail.Imap.Session
