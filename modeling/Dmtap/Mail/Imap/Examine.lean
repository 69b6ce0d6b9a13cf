import Dmtap.Mail.Imap.Login
import Dmtap.Mail.Imap.Expunge

/-! A mailbox opened with EXAMINE: the commands over it leave its messages as they are, and MOVE does
not. -/
namespace Dmtap.Mail.Imap.Session
open Lib

/-- The session has the mailbox open for reading only. -/
structure Examines (t : Session MemoryStore) (name : String) : Prop where
  selected : t.selected = some name
  readOnly : t.readOnly = true

/-- The commands over the messages of the selected mailbox. -/
def readsMailbox : Command → Bool
  | .fetch _ _ _ _ _ => true
  | .store _ => true
  | .search _ _ _ _ => true
  | .expunge => true
  | .uidExpunge _ => true
  | .copy _ _ _ => true
  | .move _ _ _ => true
  | .close => true
  | _ => false

/-- Every message is still there, with its flags and its modification sequence. -/
def Kept (mb mb' : Mailbox) : Prop :=
  ∀ m ∈ mb.messages, ∃ m' ∈ mb'.messages, m'.uid = m.uid ∧ m'.flags = m.flags ∧
    m'.modseq = m.modseq

/-- The messages of a mailbox are kept from one store to another. -/
def KeepsMailbox (s s' : MemoryStore) (name : String) : Prop :=
  ∀ mb, s.mailbox name = some mb → ∃ mb', s'.mailbox name = some mb' ∧ Kept mb mb'

/-- A MOVE of some message of the mailbox to a mailbox that is there. -/
def MovesAway (t : Session MemoryStore) (name : String) : Command → Prop
  | .move set dest uidMode =>
    t.identity.isSome = true ∧ (t.store.mailbox dest).isSome = true ∧
      ∃ mb, t.store.mailbox name = some mb ∧ t.chosen mb set uidMode ≠ []
  | _ => False

theorem Kept.of_subset {mb mb' : Mailbox} (h : mb.messages ⊆ mb'.messages) : Kept mb mb' :=
  fun m hm => ⟨m, h hm, rfl, rfl, rfl⟩

theorem keepsMailbox_of_eq {s s' : MemoryStore} {name : String}
    (h : s'.mailbox name = s.mailbox name) : KeepsMailbox s s' name :=
  fun mb hmb => ⟨mb, h.trans hmb, Kept.of_subset (List.Subset.refl _)⟩

section Commands
variable {t : Session MemoryStore} {name : String} (ht : t.Examines name) (views : Views)
  (tag : String)
include ht

theorem fetchOne_examined (items : List FetchItem) (uidMode : Bool) (changedsince : Option ℕ)
    (acc : Mailbox × List Reply) (i : ℕ) :
    (fetchOne views items uidMode t.readOnly changedsince acc i).1 = acc.1 := by
  unfold fetchOne
  rw [ht.readOnly]
  cases acc.1.messages[i]? with
  | none => rfl
  | some m =>
    dsimp only
    split_ifs with hold hmark
    · rfl
    · simp at hmark
    · rfl

theorem foldl_fetchOne_examined (items : List FetchItem) (uidMode : Bool) (changedsince : Option ℕ)
    (indices : List ℕ) (acc : Mailbox × List Reply) :
    (indices.foldl (fetchOne views items uidMode t.readOnly changedsince) acc).1 = acc.1 := by
  induction indices generalizing acc with
  | nil => rfl
  | cons i indices ih =>
    exact (ih _).trans (fetchOne_examined ht views items uidMode changedsince acc i)

theorem cmdFetch_examined (set : SequenceSet) (items : List FetchItem) (uidMode : Bool)
    (changedsince : Option ℕ) (vanished : Bool) :
    (t.cmdFetch views tag set items uidMode changedsince vanished).1.store.mailbox name =
      t.store.mailbox name := by
  unfold cmdFetch
  rw [ht.selected]
  dsimp only
  cases hmut : MailStore.mailboxMut t.store name with
  | none => rfl
  | some p =>
    obtain ⟨mb, write⟩ := p
    obtain ⟨hmb, rfl⟩ := MemoryStore.mailboxMut_eq_some hmut
    dsimp only
    rw [foldl_fetchOne_examined ht, MemoryStore.mailbox_put, if_pos rfl, hmb]

theorem cmdStore_examined (sc : StoreCommand) : (t.cmdStore tag sc).1 = t := by
  unfold cmdStore
  rw [ht.selected, ht.readOnly]
  rfl

theorem cmdExpunge_examined (uidSet : Option SequenceSet) : (t.cmdExpunge tag uidSet).1 = t := by
  unfold cmdExpunge
  rw [ht.selected, ht.readOnly]
  rfl

theorem cmdClose_examined (expunge : Bool) : (t.cmdClose tag expunge).1.store = t.store := by
  unfold cmdClose
  dsimp only
  rw [ht.selected, ht.readOnly]
  dsimp only
  rw [if_neg (by simp)]

end Commands

/-- Only EXAMINE opens a mailbox for reading only. -/
theorem examines_cmdSelect_iff (t : Session MemoryStore) {name : String}
    (hmb : (t.store.mailbox name).isSome = true) (tag : String) (readOnly condstore : Bool)
    (qresync : Option QResyncParams) :
    (t.cmdSelect tag name readOnly condstore qresync).1.Examines name ↔ readOnly = true := by
  obtain ⟨mb, hmb⟩ := Option.isSome_iff_exists.mp hmb
  unfold cmdSelect
  rw [show MailStore.mailbox t.store name = some mb from hmb]
  exact ⟨fun h => h.readOnly, fun h => ⟨rfl, h⟩⟩

section Step
variable {t : Session MemoryStore} {name : String}

theorem kept_cmdCopy (hs : t.store.WellFormed) (tag : String) (set : SequenceSet) (dest : String)
    (uidMode : Bool) :
    KeepsMailbox t.store (t.cmdCopy tag set dest uidMode).1.store name := by
  rcases cmdCopy_cases hs tag set dest uidMode with ⟨reply, -, heq⟩ |
    ⟨name', mb, dmb, dmb', -, -, hdmb, hmessages, heq⟩
  · rw [heq]
    exact keepsMailbox_of_eq rfl
  · rw [heq]
    intro mb hmb
    dsimp only
    rw [MemoryStore.mailbox_put]
    by_cases hdest : name = dest
    · rw [if_pos hdest]
      refine ⟨dmb', rfl, Kept.of_subset ?_⟩
      rw [hdest, hdmb] at hmb
      rw [hmessages, ← Option.some.inj hmb]
      exact List.subset_append_left _ _
    · rw [if_neg hdest]
      exact ⟨mb, hmb, Kept.of_subset (List.Subset.refl _)⟩

/-- MOVE keeps the messages exactly if it moves none. -/
theorem kept_cmdMove_iff (hs : t.store.WellFormed) (hname : t.selected = some name)
    {mb : Mailbox} (hmb : t.store.mailbox name = some mb) (tag : String) (set : SequenceSet)
    (dest : String) (uidMode : Bool) :
    KeepsMailbox t.store (t.cmdMove tag set dest uidMode).1.store name ↔
      ¬((t.store.mailbox dest).isSome = true ∧ t.chosen mb set uidMode ≠ []) := by
  rcases cmdMove_cases hs tag set dest uidMode with ⟨reply, -, heq, hmissing⟩ |
    ⟨name', mb', dmb, dmb', smb, hname', hmb', hdmb, -, -, hself, hother, heq⟩
  · rw [heq]
    refine ⟨fun _ h => ?_, fun _ => keepsMailbox_of_eq rfl⟩
    rw [hmissing name mb hname hmb] at h
    cases h.1
  · obtain rfl : name' = name := Option.some.inj (hname'.symm.trans hname)
    obtain rfl : mb' = mb := Option.some.inj (hmb'.symm.trans hmb)
    have hsub : mb'.messages ⊆ smb.messages := by
      by_cases hdest : dest = name'
      · rw [hself hdest]
        exact List.subset_append_left _ _
      · rw [hother hdest]
        exact List.Subset.refl _
    rw [heq]
    constructor
    · rintro hkeeps ⟨-, hchosen⟩
      obtain ⟨m, hm⟩ := List.exists_mem_of_ne_nil _ hchosen
      obtain ⟨mb₁, hmb₁, hkept⟩ := hkeeps mb' hmb
      dsimp only at hmb₁
      rw [MemoryStore.mailbox_put, if_pos rfl] at hmb₁
      obtain ⟨m', hm', huid, -⟩ := hkept m ((picked_sublist _ _).subset hm)
      rw [← Option.some.inj hmb₁, removeAll_taken, List.mem_filter, huid] at hm'
      have hgone := List.mem_map_of_mem (f := Message.uid) hm
      rw [decide_eq_true hgone] at hm'
      cases hm'.2
    · intro hnone mb₁ hmb₁
      obtain rfl : mb' = mb₁ := Option.some.inj (hmb.symm.trans hmb₁)
      have hchosen : t.chosen mb' set uidMode = [] := by
        by_contra hne
        exact hnone ⟨by rw [hdmb]; rfl, hne⟩
      dsimp only
      rw [MemoryStore.mailbox_put, if_pos rfl]
      refine ⟨_, rfl, Kept.of_subset ?_⟩
      rw [removeAll_taken, hchosen]
      exact fun m hm => List.mem_filter.mpr ⟨hsub hm, rfl⟩

/-- Behind the login, a command over an examined mailbox keeps its messages exactly if it is not a
MOVE that moves some. -/
theorem keeps_dispatchAuthenticated_iff (views : Views) (hs : t.store.WellFormed)
    (ht : t.Examines name) (hidentity : t.identity.isSome = true) {mb : Mailbox}
    (hmb : t.store.mailbox name = some mb) (tag : String) (command : Command)
    (hreads : readsMailbox command = true) :
    KeepsMailbox t.store (t.dispatchAuthenticated views tag command).1.store name ↔
      ¬t.MovesAway name command := by
  have hkeeps : ∀ {s' : MemoryStore} {p : Prop}, s'.mailbox name = t.store.mailbox name → ¬p →
      (KeepsMailbox t.store s' name ↔ ¬p) := fun h hp => iff_of_true (keepsMailbox_of_eq h) hp
  unfold dispatchAuthenticated
  cases command with
  | fetch set items uid changedsince vanished =>
    exact hkeeps (cmdFetch_examined ht views tag set items uid changedsince vanished) id
  | store sc => exact hkeeps (by rw [cmdStore_examined ht]) id
  | search charset key uid ret =>
    exact hkeeps (congrArg (MemoryStore.mailbox · name)
      (t.quiet_cmdSearch views tag key uid ret charset).store) id
  | expunge => exact hkeeps (by rw [cmdExpunge_examined ht]) id
  | uidExpunge set => exact hkeeps (by rw [cmdExpunge_examined ht]) id
  | close => exact hkeeps (by rw [cmdClose_examined ht]) id
  | copy set dest uidMode => exact iff_of_true (kept_cmdCopy hs tag set dest uidMode) id
  | move set dest uidMode =>
    refine (kept_cmdMove_iff hs ht.selected hmb tag set dest uidMode).trans (not_congr ?_)
    constructor
    · exact fun h => ⟨hidentity, h.1, mb, hmb, h.2⟩
    · rintro ⟨-, hdest, mb', hmb', hchosen⟩
      obtain rfl : mb = mb' := Option.some.inj (hmb.symm.trans hmb')
      exact ⟨hdest, hchosen⟩
  | _ => cases hreads

theorem selfHeal_of_mailbox {mb : Mailbox} (hname : t.selected = some name)
    (hmb : t.store.mailbox name = some mb) : t.selfHeal = t := by
  unfold selfHeal
  rw [hname]
  dsimp only
  rw [if_neg]
  change ¬(t.store.mailbox name).isNone = true
  rw [hmb]
  exact nofun

theorem dispatchOpen_of_reads (tag : String) {command : Command}
    (hreads : readsMailbox command = true) (f : Unit → Session MemoryStore × List Reply) :
    t.dispatchOpen tag command f = f () := by
  unfold dispatchOpen
  cases command with
  | fetch | store | search | expunge | uidExpunge | copy | move | close => rfl
  | _ => cases hreads

theorem keeps_dispatch_iff (views : Views) (hs : t.store.WellFormed) (ht : t.Examines name)
    (tag : String) (command : Command) (hreads : readsMailbox command = true) :
    KeepsMailbox t.store (t.dispatch views ⟨tag, command⟩).1.store name ↔
      ¬t.MovesAway name command := by
  cases hmb : t.store.mailbox name with
  | none =>
    refine iff_of_true (fun mb h => nomatch hmb.symm.trans h) fun h => ?_
    cases command with
    | move set dest uidMode =>
      obtain ⟨-, -, mb, h, -⟩ := h
      cases hmb.symm.trans h
    | _ => exact h
  | some mb =>
    unfold dispatch
    rw [selfHeal_of_mailbox ht.selected hmb]
    dsimp only
    rw [dispatchOpen_of_reads tag hreads]
    by_cases hnone : t.identity.isNone = true
    · rw [if_pos hnone]
      refine iff_of_true (keepsMailbox_of_eq rfl) fun h => ?_
      cases command with
      | move set dest uidMode =>
        have hidentity := h.1
        rw [Option.isNone_iff_eq_none.mp hnone] at hidentity
        cases hidentity
      | _ => exact h
    · rw [if_neg hnone]
      have hidentity : t.identity.isSome = true :=
        Option.isSome_iff_ne_none.mpr fun h => hnone (Option.isNone_iff_eq_none.mpr h)
      exact keeps_dispatchAuthenticated_iff views hs ht hidentity hmb tag command hreads

end Step

section Runs
variable (views : Views)

/-- Along a run from one session, the input arrives at another one as a command over the mailbox
that is open there for reading only. -/
structure Arrives (s : Session MemoryStore) (inputs : List Bytes) (name : String)
    (t : Session MemoryStore) (buf : Bytes) (tag : String) (command : Command) : Prop where
  split : ∃ pre post, inputs = pre ++ buf :: post ∧ s.Reaches views pre t
  examines : t.Examines name
  idle : t.idleTag = none
  pending : t.pending = none
  parsed : parseCommand buf = .ok ⟨tag, command⟩
  reads : readsMailbox command = true

theorem Reaches.wellFormed {s t : Session MemoryStore} {inputs : List Bytes}
    (h : s.Reaches views inputs t) (hs : s.store.WellFormed) : t.store.WellFormed := by
  obtain ⟨outs, hrun⟩ := h
  refine run_invariant (P := fun t => t.store.WellFormed) (fun hprocess ht => ?_) hrun hs
  obtain ⟨calls, hpath⟩ := leads_process views hprocess
  exact hpath.wellFormed ht

theorem Arrives.process {s t : Session MemoryStore} {inputs : List Bytes} {name tag : String}
    {buf : Bytes} {command : Command} (h : Arrives views s inputs name t buf tag command) :
    t.process views buf = some (t.dispatch views ⟨tag, command⟩) := by
  unfold Session.process
  rw [h.idle]
  dsimp only
  rw [h.pending]
  dsimp only
  rw [h.parsed]

/-- In every run, the commands over a mailbox that is open for reading only keep its messages
exactly if none of them is a MOVE that moves some. -/
theorem examined_kept_iff {r : Renderers} {store : MemoryStore} (h : Reachable r store)
    (auth : Authenticator) (tls : Bool) (inputs : List Bytes) (name : String) :
    (∀ t buf tag command,
        Arrives views (new store auth tls) inputs name t buf tag command →
        ¬t.MovesAway name command) ↔
      ∀ t buf tag command t' out,
        Arrives views (new store auth tls) inputs name t buf tag command →
        t.process views buf = some (t', out) → KeepsMailbox t.store t'.store name := by
  have hstep : ∀ {t buf tag command},
      Arrives views (new store auth tls) inputs name t buf tag command →
      (KeepsMailbox t.store (t.dispatch views ⟨tag, command⟩).1.store name ↔
        ¬t.MovesAway name command) := by
    intro t buf tag command harrives
    obtain ⟨pre, post, -, hreaches⟩ := harrives.split
    exact keeps_dispatch_iff views (hreaches.wellFormed views h.wellFormed) harrives.examines tag
      command harrives.reads
  constructor
  · intro hmoves t buf tag command t' out harrives hprocess
    rw [harrives.process] at hprocess
    have hkeeps := (hstep harrives).mpr (hmoves t buf tag command harrives)
    rw [Option.some.inj hprocess] at hkeeps
    exact hkeeps
  · intro hkeeps t buf tag command harrives
    exact (hstep harrives).mp (hkeeps t buf tag command _ _ harrives harrives.process)

end Runs

def isMove : Command → Bool
  | .move _ _ _ => true
  | _ => false

theorem not_movesAway {t : Session MemoryStore} {name : String} {command : Command}
    (h : isMove command = false) : ¬t.MovesAway name command := by
  cases command with
  | move => cases h
  | _ => exact id

/-- A login and an EXAMINE of an INBOX with one message, then commands that mark and remove it. -/
def examiningInputs : List Bytes :=
  [utf8 "a LOGIN alice pw\r\n", utf8 "b EXAMINE INBOX\r\n",
    utf8 "c STORE 1 +FLAGS (\\Deleted)\r\n", utf8 "d EXPUNGE\r\n"]

theorem isMove_examiningInputs : ∀ buf ∈ examiningInputs,
    ((parseCommand buf).toOption.map fun pc => isMove pc.command) = some false := by decide +kernel

theorem examined_kept_marked :
    ((MemoryStore.new.deliverRaw "INBOX" [97] [] 0).1.mailbox "INBOX").map
        (fun mb => mb.messages.length) = some 1 ∧
      ∀ t buf tag command t' out,
        Arrives .blank (new (MemoryStore.new.deliverRaw "INBOX" [97] [] 0).1
          (.issued "alice" "pw" [1]) true) examiningInputs "INBOX" t buf tag command →
        t.process .blank buf = some (t', out) → KeepsMailbox t.store t'.store "INBOX" := by
  refine ⟨by decide, ?_⟩
  have hreach : Reachable .blank (MemoryStore.new.deliverRaw "INBOX" [97] [] 0).1 :=
    (reachable_new .blank).op (.deliverRaw "INBOX" [97] [] 0) rfl
  refine (examined_kept_iff .blank hreach (.issued "alice" "pw" [1]) true examiningInputs
    "INBOX").mp ?_
  intro t buf tag command harrives
  obtain ⟨pre, post, hinputs, -⟩ := harrives.split
  have hmove := isMove_examiningInputs buf (by rw [hinputs]; simp)
  rw [harrives.parsed] at hmove
  exact not_movesAway (Option.some.inj hmove)

/-- A MOVE out of an examined INBOX takes the message away. -/
theorem examined_kept_move :
    ¬∀ t buf tag command t' out,
      Arrives .blank (new (MemoryStore.new.deliverRaw "INBOX" [97] [] 0).1
          (.issued "alice" "pw" [1]) true)
        [utf8 "a LOGIN alice pw\r\n", utf8 "b EXAMINE INBOX\r\n", utf8 "c MOVE 1 Trash\r\n"]
        "INBOX" t buf tag command →
      t.process .blank buf = some (t', out) → KeepsMailbox t.store t'.store "INBOX" := by
  intro hkeeps
  have hexamined : ((new (MemoryStore.new.deliverRaw "INBOX" [97] [] 0).1
      (.issued "alice" "pw" [1]) true).run .blank
        [utf8 "a LOGIN alice pw\r\n", utf8 "b EXAMINE INBOX\r\n"]).map
      (fun r => ((r.1.selected, r.1.readOnly, r.1.idleTag, r.1.pending),
        (r.1.store.mailbox "INBOX").map fun mb => mb.messages.length,
        (r.1.process .blank (utf8 "c MOVE 1 Trash\r\n")).bind fun r =>
          (r.1.store.mailbox "INBOX").map fun mb => mb.messages.length)) =
      some ((some "INBOX", true, none, none), some 1, some 0) := by decide +kernel
  have hparse : ((parseCommand (utf8 "c MOVE 1 Trash\r\n")).toOption.map fun pc =>
      readsMailbox pc.command) = some true := by decide +kernel
  obtain ⟨⟨t, outs⟩, hrun, ht⟩ := Option.map_eq_some_iff.mp hexamined
  simp only [Prod.mk.injEq] at ht
  obtain ⟨⟨hselected, hreadOnly, hidle, hpending⟩, hbefore, hafter⟩ := ht
  obtain ⟨⟨t', out⟩, hprocess, hafter⟩ := Option.bind_eq_some_iff.mp hafter
  obtain ⟨⟨tag, command⟩, hok, hreads⟩ := Option.map_eq_some_iff.mp hparse
  have harrives : Arrives .blank (new (MemoryStore.new.deliverRaw "INBOX" [97] [] 0).1
      (.issued "alice" "pw" [1]) true)
      [utf8 "a LOGIN alice pw\r\n", utf8 "b EXAMINE INBOX\r\n", utf8 "c MOVE 1 Trash\r\n"]
      "INBOX" t (utf8 "c MOVE 1 Trash\r\n") tag command := by
    refine ⟨⟨_, [], rfl, outs, hrun⟩, ⟨hselected, hreadOnly⟩, hidle, hpending, ?_, hreads⟩
    cases hcommand : parseCommand (utf8 "c MOVE 1 Trash\r\n") with
    | error e =>
      rw [hcommand] at hok
      cases hok
    | ok pc =>
      rw [hcommand] at hok
      rw [Option.some.inj hok]
  obtain ⟨mb, hmb, hone⟩ := Option.map_eq_some_iff.mp hbefore
  obtain ⟨mb', hmb', hkept⟩ := hkeeps _ _ _ _ _ _ harrives hprocess mb hmb
  dsimp only at hafter
  rw [hmb', Option.map_some] at hafter
  have hnil := List.length_eq_zero_iff.mp (Option.some.inj hafter)
  obtain ⟨m, hm⟩ := List.exists_mem_of_length_pos (show 0 < mb.messages.length by omega)
  obtain ⟨m', hm', -⟩ := hkept m hm
  rw [hnil] at hm'
  cases hm'

end Dmtap.Mail.Imap.Session
