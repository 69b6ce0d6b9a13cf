import Dmtap.Mail.Imap.Edits
import Dmtap.Mail.Jmap
import Dmtap.Mail.Pop3

/-! Runs: the operations of every protocol over one store, in any order. -/
namespace Dmtap.Mail
open Lib

section Pop3

theorem Mailbox.edits_removeUids (mb : Mailbox) (uids : List ℕ) :
    mb.Edits (Pop3.Session.removeUids mb uids) := by
  refine Mailbox.edits_foldl (fun mb => mb) (fun mb uid => ?_) uids mb
  cases mb.indexOfUid uid with
  | none => exact Relation.ReflTransGen.refl
  | some pos => exact Mailbox.Edits.of_edit (Mailbox.Edit.remove pos)

theorem Pop3.Session.editedTo_quit (s : Pop3.Session MemoryStore) :
    EditedTo s.store s.quit.1.store := by
  unfold Pop3.Session.quit
  dsimp only
  by_cases hstate : s.state = .transaction
  · rw [if_pos hstate]
    cases h : MailStore.mailboxMut s.store "INBOX" with
    | none => exact EditedTo.refl _
    | some p => exact editedTo_write h (Mailbox.edits_removeUids p.1 _)
  · rw [if_neg hstate]
    exact EditedTo.refl _

/-- Of the POP3 commands only QUIT writes to the store. -/
theorem Pop3.Session.editedTo_feedLineRaw (s : Pop3.Session MemoryStore) (line : String) :
    EditedTo s.store (s.feedLineRaw line).1.store := by
  have hsame : ∀ {t : Pop3.Session MemoryStore}, t.store = s.store → EditedTo s.store t.store := by
    intro t ht
    rw [ht]
    exact EditedTo.refl _
  apply s.feedLineRaw_cases (P := fun t => EditedTo s.store t.store) line
  · intro _
    exact hsame (Pop3.Session.finishPlain_store { s with pendingSasl := false } _)
  · intro _ _
    exact ⟨fun _ => hsame (s.pass_store _), fun _ => hsame (s.apop_store _),
      fun _ => hsame (s.authCmd_store _)⟩
  · intro _ _
    exact ⟨EditedTo.refl _, EditedTo.refl _, EditedTo.refl _, s.editedTo_quit,
      hsame (s.dele_store _), EditedTo.refl _⟩

end Pop3

section Jmap
open Jmap
variable (views : Jmap.Views MemoryStore)

theorem onlyFlags_patchMessage (obj : Jmap.Members) : OnlyFlags (Jmap.patchMessage obj) := by
  have hpatch : ∀ member, OnlyFlags fun m => Jmap.patchKeyword m member := by
    intro member
    unfold Jmap.patchKeyword
    cases stripPrefix "keywords/" member.1 with
    | none => exact OnlyFlags.id
    | some kw =>
      exact OnlyFlags.ite (c := fun _ => member.2.clears = true) (OnlyFlags.clearFlag _)
        (OnlyFlags.setFlag _)
  have hfold := OnlyFlags.foldl hpatch obj
  unfold Jmap.patchMessage
  cases (obj.lookup "keywords").bind Jmap.Json.asObject with
  | none => exact hfold
  | some kw =>
    have hreplace : OnlyFlags fun m => { m with flags := kw.map fun p => Jmap.flagOfKeyword p.1 } :=
      fun _ => rfl
    have hrecent := OnlyFlags.ite (c := fun m => m.hasFlag .recent = true)
      ((OnlyFlags.setFlag .recent).comp hreplace) hreplace
    exact hfold.comp hrecent

theorem editedTo_composeEmail (store : MemoryStore) (obj : Json) :
    EditedTo store (composeEmail views store obj).1 := by
  unfold composeEmail
  dsimp only
  split_ifs
  · exact EditedTo.refl _
  · cases h : MailStore.mailboxMut store (destination store obj) with
    | none => exact EditedTo.refl _
    | some p => exact editedTo_write h (Mailbox.Edits.of_edit (Mailbox.Edit.append _ _ 0))

theorem editedTo_applyEmailUpdate (store : MemoryStore) (mailbox : String) (uid : ℕ)
    (patch : Json) : EditedTo store (applyEmailUpdate store mailbox uid patch).1 := by
  unfold applyEmailUpdate
  cases h : MailStore.mailboxMut store mailbox with
  | none => exact EditedTo.refl _
  | some p =>
    dsimp only
    cases hi : p.1.messages.findIdx? fun m => m.uid = uid with
    | none => exact EditedTo.refl _
    | some i =>
      dsimp only
      cases patch.asObject with
      | none => exact EditedTo.refl _
      | some obj =>
        obtain ⟨hlt, -⟩ := List.findIdx?_eq_some_iff_getElem.mp hi
        exact editedTo_write h (Mailbox.edits_touch (List.getElem?_eq_getElem hlt)
          (onlyFlags_patchMessage obj))

theorem editedTo_destroyEmail (store : MemoryStore) (id : String) :
    EditedTo store (destroyEmail store id).1 := by
  unfold destroyEmail
  cases parseEmailId id with
  | none => exact EditedTo.refl _
  | some key =>
    dsimp only
    cases h : MailStore.mailboxMut store key.1 with
    | none => exact EditedTo.refl _
    | some p =>
      dsimp only
      cases p.1.indexOfUid key.2 with
      | none => exact EditedTo.refl _
      | some pos => exact editedTo_write h (Mailbox.Edits.of_edit (Mailbox.Edit.remove pos))

theorem leads_createEmail (st : SetState MemoryStore) (member : String × Json) :
    Leads st.store (createEmail views st member).store := by
  have hcompose := (editedTo_composeEmail views st.store member.2).leads
  unfold createEmail
  rcases hr : composeEmail views st.store member.2 with ⟨store, r⟩
  rw [hr] at hcompose
  cases r with
  | error e => exact hcompose
  | ok r => exact hcompose

theorem leads_updateEmail (st : SetState MemoryStore) (member : String × Json) :
    Leads st.store (updateEmail st member).store := by
  unfold updateEmail
  cases parseEmailId member.1 with
  | none => exact Leads.refl _
  | some key =>
    have hupdate := (editedTo_applyEmailUpdate st.store key.1 key.2 member.2).leads
    dsimp only
    rcases hr : applyEmailUpdate st.store key.1 key.2 member.2 with ⟨store, done⟩
    rw [hr] at hupdate
    cases done with
    | true => exact hupdate
    | false => exact hupdate

theorem leads_destroyOneEmail (st : SetState MemoryStore) (id : String) :
    Leads st.store (destroyOneEmail st id).store := by
  have hdestroy := (editedTo_destroyEmail st.store id).leads
  unfold destroyOneEmail
  rcases hr : destroyEmail st.store id with ⟨store, done⟩
  rw [hr] at hdestroy
  cases done with
  | true => exact hdestroy
  | false => exact hdestroy

theorem leads_emailSet (store : MemoryStore) (account : String) (args : Json) :
    Leads store (emailSet views store account args).1 := by
  have hcreate := leads_foldl SetState.store (leads_createEmail views) (membersOf args "create")
    (SetState.start store)
  have hupdate := leads_foldl SetState.store leads_updateEmail (membersOf args "update")
    ((membersOf args "create").foldl (createEmail views) (SetState.start store))
  exact (hcreate.trans hupdate).trans
    (leads_foldl SetState.store leads_destroyOneEmail (stringsOf args "destroy") _)

theorem leads_createMailbox (st : SetState MemoryStore) (member : String × Json) :
    Leads st.store (createMailbox st member).store := by
  have hcreate : ∀ {name : String} {r : MemoryStore × Except StoreError Unit},
      MailStore.create st.store name = r → Leads st.store r.1 := by
    intro name r h
    rw [← h]
    exact leads_create st.store name
  unfold createMailbox
  dsimp only
  split_ifs
  · exact Leads.refl _
  · split
    case h_1 heq => exact hcreate heq
    case h_2 heq => exact hcreate heq

theorem leads_renameFor (store : MemoryStore) (id : String) (patch : Json) :
    Leads store (renameFor store id patch).1 := by
  unfold renameFor
  cases (patch.get "name").bind Json.asStr with
  | none => exact Leads.refl _
  | some newName =>
    have hrename := leads_rename store id newName
    dsimp only
    rcases hr : MailStore.rename store id newName with ⟨store', r⟩
    rw [hr] at hrename
    cases r with
    | error e => exact hrename
    | ok _ => exact hrename

theorem leads_subscribeFor (store : MemoryStore) (id : String) (patch : Json) :
    Leads store (subscribeFor store id patch) := by
  unfold subscribeFor
  cases (patch.get "isSubscribed").bind Json.asBool with
  | none => exact Leads.refl _
  | some sub =>
    dsimp only
    cases h : MailStore.mailboxMut store (((patch.get "name").bind Json.asStr).getD id) with
    | none => exact Leads.refl _
    | some p =>
      exact (editedTo_write h (Mailbox.Edits.of_edit (Mailbox.Edit.subscribe sub))).leads

theorem leads_updateMailbox (st : SetState MemoryStore) (member : String × Json) :
    Leads st.store (updateMailbox st member).store := by
  have hrename := leads_renameFor st.store member.1 member.2
  unfold updateMailbox
  rcases hr : renameFor st.store member.1 member.2 with ⟨store, done⟩
  rw [hr] at hrename
  cases done with
  | true => exact hrename.trans (leads_subscribeFor _ _ _)
  | false => exact hrename

theorem leads_destroyMailbox (st : SetState MemoryStore) (id : String) :
    Leads st.store (destroyMailbox st id).store := by
  have hdelete := leads_delete st.store id
  unfold destroyMailbox
  rcases hr : MailStore.delete st.store id with ⟨store, r⟩
  rw [hr] at hdelete
  cases r with
  | error e => exact hdelete
  | ok _ => exact hdelete

theorem leads_mailboxSet (store : MemoryStore) (account : String) (args : Json) :
    Leads store (mailboxSet store account args).1 := by
  have hcreate := leads_foldl SetState.store leads_createMailbox (membersOf args "create")
    (SetState.start store)
  have hupdate := leads_foldl SetState.store leads_updateMailbox (membersOf args "update")
    ((membersOf args "create").foldl createMailbox (SetState.start store))
  exact (hcreate.trans hupdate).trans
    (leads_foldl SetState.store leads_destroyMailbox (stringsOf args "destroy") _)

theorem Jmap.leads_dispatch (store : MemoryStore) (account name : String) (args : Json) :
    Leads store (dispatch views store account name args).1 := by
  unfold dispatch
  split
  case h_2 => exact leads_mailboxSet store account args
  case h_3 => exact leads_emailSet views store account args
  case h_7 =>
    cases views.other store account name args with
    | none => exact Leads.refl _
    | some r => exact Leads.refl _
  all_goals exact Leads.refl _

theorem leads_call (account : String) (acc : MemoryStore × List Invocation) (inv : Invocation) :
    Leads acc.1 (call views account acc inv).1 := by
  unfold call
  cases resolveReferences inv.args acc.2 with
  | error e => exact Leads.refl _
  | ok args =>
    have hdispatch := Jmap.leads_dispatch views acc.1 account inv.name args
    dsimp only
    rcases hr : dispatch views acc.1 account inv.name args with ⟨store, r⟩
    rw [hr] at hdispatch
    cases r with
    | error e => exact hdispatch
    | ok r => exact hdispatch

/-- Every JMAP request leads somewhere. -/
theorem Jmap.leads_process (store : MemoryStore) (account : String)
    (methodCalls : List Invocation) : Leads store (process views store account methodCalls).1 :=
  leads_foldl Prod.fst (leads_call views account) methodCalls (store, ([] : List Invocation))

end Jmap

/-- The renderings the operations use. -/
structure Renderers where
  imap : Imap.Views
  jmap : Jmap.Views MemoryStore
  renderRfc5322 : Mote.Payload → ℕ → Bytes

/-- Renderers that show nothing. -/
def Renderers.blank : Renderers where
  imap := Imap.Views.blank
  jmap := ⟨fun _ => [], fun _ _ _ _ => none⟩
  renderRfc5322 := fun _ _ => []

/-- One operation on the store. A session of any protocol may be in any state when its turn
comes. -/
inductive Op where
  | imap (session : Imap.Session MemoryStore) (input : Bytes)
  | pop3 (session : Pop3.Session MemoryStore) (line : String)
  | jmap (account : String) (methodCalls : List Jmap.Invocation)
  | deliverMote (payload : Mote.Payload) (mailbox : String) (ts : ℕ)
  | deliverRaw (mailbox : String) (raw : Bytes) (flags : List Flag) (internalDate : ℕ)
  | create (name : String)
  | delete (name : String)
  | rename (source target : String)

/-- The store after an operation; none where the IMAP parser faults. -/
def Op.run (r : Renderers) (s : MemoryStore) : Op → Option MemoryStore
  | imap session input =>
    (Imap.Session.process r.imap { session with store := s } input).map fun p => p.1.store
  | pop3 session line => some (Pop3.Session.feedLineRaw { session with store := s } line).1.store
  | jmap account methodCalls => some (Jmap.process r.jmap s account methodCalls).1
  | deliverMote payload mailbox ts => some (s.deliverMote r.renderRfc5322 payload mailbox ts).1
  | deliverRaw mailbox raw flags internalDate =>
    some (s.deliverRaw mailbox raw flags internalDate).1
  | create name => some (s.create name).1
  | delete name => some (s.delete name).1
  | rename source target => some (s.rename source target).1

/-- Every operation is a path of calls. -/
theorem Op.leads {r : Renderers} {s s' : MemoryStore} {op : Op} (h : op.run r s = some s') :
    Leads s s' := by
  cases op with
  | imap session input =>
    obtain ⟨p, hprocess, rfl⟩ := Option.map_eq_some_iff.mp h
    exact Imap.Session.leads_process r.imap (s := { session with store := s }) hprocess
  | pop3 session line =>
    cases h
    exact (Pop3.Session.editedTo_feedLineRaw { session with store := s } line).leads
  | jmap account methodCalls =>
    cases h
    exact Jmap.leads_process r.jmap s account methodCalls
  | deliverMote payload mailbox ts =>
    cases h
    exact (editedTo_deliverMote _ s payload mailbox ts).leads
  | deliverRaw mailbox raw flags internalDate =>
    cases h
    exact (editedTo_deliverRaw s mailbox raw flags internalDate).leads
  | create name =>
    cases h
    exact leads_create s name
  | delete name =>
    cases h
    exact leads_delete s name
  | rename source target =>
    cases h
    exact leads_rename s source target

/-- A run of operations, with the calls that took effect in it. -/
inductive Run (r : Renderers) (s : MemoryStore) : List Call → MemoryStore → Prop
  | start : Run r s [] s
  | step {s₁ s₂ : MemoryStore} {calls more : List Call} (h : Run r s calls s₁) (op : Op)
    (hop : op.run r s₁ = some s₂) (hpath : Path s₁ more s₂) : Run r s (calls ++ more) s₂

theorem Run.path {r : Renderers} {s s' : MemoryStore} {calls : List Call}
    (h : Run r s calls s') : Path s calls s' := by
  induction h with
  | start => exact Path.nil s
  | step _ op _ hpath ih => exact ih.append hpath

/-- Any operation continues any run. -/
theorem Run.extend {r : Renderers} {s s₁ s₂ : MemoryStore} {calls : List Call} {op : Op}
    (h : Run r s calls s₁) (hop : op.run r s₁ = some s₂) :
    ∃ more, Run r s (calls ++ more) s₂ := by
  obtain ⟨more, hpath⟩ := Op.leads hop
  exact ⟨more, h.step op hop hpath⟩

namespace Run
variable {r : Renderers} {s s₁ : MemoryStore} {calls : List Call} {name : String} {mb : Mailbox}

theorem deliverRaw (h : Run r s calls s₁) (hmb : s₁.mailbox name = some mb) (raw : Bytes)
    (flags : List Flag) (date : ℕ) :
    Run r s (calls ++ [.edit name]) (s₁.deliverRaw name raw flags date).1 := by
  refine h.step (.deliverRaw name raw flags date) rfl ?_
  rw [MemoryStore.deliverRaw_of_mailbox hmb]
  exact Path.single (Step.edit hmb (Mailbox.Edits.of_edit (Mailbox.Edit.append raw flags date)))

theorem create (h : Run r s calls s₁) (hname : s₁.mailbox name = none) :
    Run r s (calls ++ [.create name]) (s₁.create name).1 := by
  refine h.step (.create name) rfl ?_
  unfold MemoryStore.create
  rw [hname]
  exact Path.single (Step.create hname)

theorem delete (h : Run r s calls s₁) (hinbox : name.toLower ≠ "inbox")
    (hmb : s₁.mailbox name = some mb) :
    Run r s (calls ++ [.delete name]) (s₁.delete name).1 := by
  refine h.step (.delete name) rfl ?_
  unfold MemoryStore.delete
  rw [if_neg hinbox, hmb]
  exact Path.single (Step.delete hmb)

end Run

/-- A store that operations produce from a fresh one. -/
def Reachable (r : Renderers) (s : MemoryStore) : Prop :=
  ∃ s₀ calls, (s₀ = MemoryStore.new ∨ s₀ = MemoryStore.empty) ∧ Run r s₀ calls s

theorem reachable_new (r : Renderers) : Reachable r MemoryStore.new :=
  ⟨_, _, Or.inl rfl, .start⟩

theorem Reachable.op {r : Renderers} {s s' : MemoryStore} (h : Reachable r s) (op : Op)
    (hop : op.run r s = some s') : Reachable r s' := by
  obtain ⟨s₀, calls, hstart, hrun⟩ := h
  obtain ⟨more, hrun'⟩ := hrun.extend hop
  exact ⟨s₀, _, hstart, hrun'⟩

end Dmtap.Mail
