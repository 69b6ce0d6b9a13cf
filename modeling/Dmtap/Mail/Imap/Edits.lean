import Dmtap.Mail.Edits
import Dmtap.Mail.Imap.Login

/-! Every IMAP command is a path of calls; those over the selected mailbox only edit. -/
namespace Dmtap.Mail
open Lib Imap

theorem onlyFlags_applyStore (op : Imap.StoreOp) (flags : List Flag) :
    OnlyFlags fun m => Imap.applyStore m op flags := by
  cases op with
  | replace =>
    have hreplace : OnlyFlags fun m => { m with flags := flags.filter fun f => f ≠ .recent } :=
      fun _ => rfl
    exact OnlyFlags.ite (c := fun m => m.hasFlag .recent = true)
      ((OnlyFlags.setFlag .recent).comp hreplace) hreplace
  | add =>
    refine OnlyFlags.foldl (fun f => ?_) flags
    exact OnlyFlags.ite (c := fun _ => f ≠ .recent) (OnlyFlags.setFlag f) OnlyFlags.id
  | remove => exact OnlyFlags.foldl (fun f => OnlyFlags.clearFlag f) flags

namespace Mailbox

theorem edits_removeAll (mb : Mailbox) (indices : List ℕ) :
    mb.Edits (Session.removeAll mb indices).1 := by
  refine edits_foldl Prod.fst ?_ indices.reverse (mb, ([] : List ℕ))
  intro acc i
  have hremove : acc.1.Edits (acc.1.removeAt i).2 := Edits.of_edit (Edit.remove i)
  rcases hr : acc.1.removeAt i with ⟨uid, mb'⟩
  rw [hr] at hremove
  cases uid with
  | none => exact hremove
  | some uid => exact hremove

theorem edits_appendAll (mb : Mailbox) (copied : List (ℕ × Message)) :
    mb.Edits (Session.appendAll mb copied).1 :=
  edits_foldl Prod.fst (fun _ p => Edits.of_edit
    (Edit.append p.2.raw p.2.flags p.2.internalDate)) copied (mb, ([] : List ℕ))

theorem edits_fetchOne (views : Imap.Views) (items : List FetchItem) (uidMode readOnly : Bool)
    (changedsince : Option ℕ) (acc : Mailbox × List Reply) (i : ℕ) :
    acc.1.Edits (Session.fetchOne views items uidMode readOnly changedsince acc i).1 := by
  unfold Session.fetchOne
  cases hi : acc.1.messages[i]? with
  | none => exact Relation.ReflTransGen.refl
  | some m =>
    dsimp only
    split_ifs with hold hseen
    · exact Relation.ReflTransGen.refl
    · exact edits_touch hi (OnlyFlags.setFlag .seen)
    · exact Relation.ReflTransGen.refl

theorem edits_storeOne (sc : StoreCommand) (condstore : Bool)
    (acc : Mailbox × List Reply × List ℕ) (i : ℕ) :
    acc.1.Edits (Session.storeOne sc condstore acc i).1 := by
  obtain ⟨mb, out, modified⟩ := acc
  unfold Session.storeOne
  dsimp only
  cases hi : mb.messages[i]? with
  | none => exact Relation.ReflTransGen.refl
  | some m =>
    have htouch := edits_touch hi (onlyFlags_applyStore sc.op sc.flags)
    dsimp only
    by_cases hold : (sc.unchangedsince.map fun uc => decide (uc < m.modseq)).getD false = true
    · rw [if_pos hold]
    · rw [if_neg hold]
      cases sc.silent with
      | true => exact htouch
      | false => exact htouch

end Mailbox

namespace Imap.Session
variable (views : Imap.Views) (s : Session MemoryStore) (tag : String)

theorem editedTo_setSubscribed (name : String) (sub : Bool) :
    EditedTo s.store (s.setSubscribed tag name sub).1.store := by
  unfold setSubscribed
  cases h : MailStore.mailboxMut s.store name with
  | none => exact EditedTo.refl _
  | some p => exact editedTo_write h (Mailbox.Edits.of_edit (Mailbox.Edit.subscribe sub))

theorem editedTo_cmdAppend (name : String) (flags : List Flag) (date : Option String)
    (message : Bytes) (catenate : Option (List CatPart)) :
    EditedTo s.store (s.cmdAppend views tag name flags date message catenate).1.store := by
  unfold cmdAppend
  dsimp only
  split
  · exact EditedTo.refl _
  · cases h : MailStore.mailboxMut s.store name with
    | none => exact EditedTo.refl _
    | some p => exact editedTo_write h (Mailbox.Edits.of_edit (Mailbox.Edit.append _ flags _))

theorem editedTo_cmdClose (expunge : Bool) :
    EditedTo s.store (s.cmdClose tag expunge).1.store := by
  unfold cmdClose
  dsimp only
  cases s.selected with
  | none => exact EditedTo.refl _
  | some name =>
    dsimp only
    split_ifs
    · cases h : MailStore.mailboxMut s.store name with
      | none => exact EditedTo.refl _
      | some p => exact editedTo_write h (Mailbox.edits_removeAll p.1 _)
    · exact EditedTo.refl _

theorem editedTo_cmdExpunge (uidSet : Option SequenceSet) :
    EditedTo s.store (s.cmdExpunge tag uidSet).1.store := by
  unfold cmdExpunge
  cases s.selected with
  | none => exact EditedTo.refl _
  | some name =>
    dsimp only
    split_ifs
    · exact EditedTo.refl _
    · cases h : MailStore.mailboxMut s.store name with
      | none => exact EditedTo.refl _
      | some p => exact editedTo_write h (Mailbox.edits_removeAll p.1 _)

theorem editedTo_cmdFetch (set : SequenceSet) (items : List FetchItem) (uidMode : Bool)
    (changedsince : Option ℕ) (vanished : Bool) :
    EditedTo s.store (s.cmdFetch views tag set items uidMode changedsince vanished).1.store := by
  unfold cmdFetch
  cases s.selected with
  | none => exact EditedTo.refl _
  | some name =>
    dsimp only
    cases h : MailStore.mailboxMut s.store name with
    | none => exact EditedTo.refl _
    | some p =>
      exact editedTo_write h (Mailbox.edits_foldl Prod.fst
        (Mailbox.edits_fetchOne views items uidMode s.readOnly changedsince) _ (p.1, _))

theorem editedTo_cmdStore (sc : StoreCommand) :
    EditedTo s.store (s.cmdStore tag sc).1.store := by
  unfold cmdStore
  cases s.selected with
  | none => exact EditedTo.refl _
  | some name =>
    dsimp only
    split_ifs
    · exact EditedTo.refl _
    · cases h : MailStore.mailboxMut s.store name with
      | none => exact EditedTo.refl _
      | some p =>
        exact editedTo_write h (Mailbox.edits_foldl Prod.fst
          (Mailbox.edits_storeOne sc _) _ (p.1, _))

theorem editedTo_cmdCopy (set : SequenceSet) (dest : String) (uidMode : Bool) :
    EditedTo s.store (s.cmdCopy tag set dest uidMode).1.store := by
  unfold cmdCopy
  cases s.collectForCopy set uidMode with
  | none => exact EditedTo.refl _
  | some c =>
    dsimp only
    cases h : MailStore.mailboxMut s.store dest with
    | none => exact EditedTo.refl _
    | some p => exact editedTo_write h (Mailbox.edits_appendAll p.1 c.1)

/-- MOVE edits the destination first and the source, perhaps the same mailbox, after it. -/
theorem editedTo_cmdMove (set : SequenceSet) (dest : String) (uidMode : Bool) :
    EditedTo s.store (s.cmdMove tag set dest uidMode).1.store := by
  unfold cmdMove
  cases s.selected with
  | none => exact EditedTo.refl _
  | some name =>
    dsimp only
    cases s.collectForCopy set uidMode with
    | none => exact EditedTo.refl _
    | some c =>
      dsimp only
      cases h : MailStore.mailboxMut s.store dest with
      | none => exact EditedTo.refl _
      | some p =>
        have hcopied := editedTo_write h (Mailbox.edits_appendAll p.1 c.1)
        dsimp only
        cases h' : MailStore.mailboxMut (p.2 (appendAll p.1 c.1).1) name with
        | none => exact hcopied
        | some p' => exact hcopied.trans (editedTo_write h' (Mailbox.edits_removeAll p'.1 _))

theorem leads_cmdCreate (name : String) (useAttr : Option String) :
    Leads s.store (s.cmdCreate tag name useAttr).1.store := by
  have hcreate := leads_create s.store name
  unfold cmdCreate
  rcases hr : MailStore.create s.store name with ⟨store, r⟩
  rw [hr] at hcreate
  cases r with
  | error e => exact hcreate
  | ok _ =>
    dsimp only
    cases useAttr.bind specialUseFromAttr with
    | none => exact hcreate
    | some su =>
      dsimp only
      cases h : MailStore.mailboxMut store name with
      | none => exact hcreate
      | some p =>
        exact hcreate.trans
          (editedTo_write h (Mailbox.Edits.of_edit (Mailbox.Edit.designate _))).leads

theorem leads_cmdDelete (name : String) : Leads s.store (s.cmdDelete tag name).1.store := by
  have hdelete := leads_delete s.store name
  unfold cmdDelete
  rcases hr : MailStore.delete s.store name with ⟨store, r⟩
  rw [hr] at hdelete
  cases r with
  | error e => exact hdelete
  | ok _ => exact hdelete

theorem leads_cmdRename (source target : String) :
    Leads s.store (s.cmdRename tag source target).1.store := by
  have hrename := leads_rename s.store source target
  unfold cmdRename
  rcases hr : MailStore.rename s.store source target with ⟨store, r⟩
  rw [hr] at hrename
  cases r with
  | error e => exact hrename
  | ok _ => exact hrename

theorem Quiet.leads {s s' : Session MemoryStore} (h : s.Quiet s') : Leads s.store s'.store := by
  rw [h.store]
  exact Leads.refl s.store

theorem leads_of_same {s s' : Session MemoryStore} (h : s' = s) : Leads s.store s'.store := by
  rw [h]
  exact Leads.refl s.store

theorem OpenStep.leads {s s' : Session MemoryStore} (h : OpenStep s s') :
    Leads s.store s'.store := by
  rw [h.store]
  exact Leads.refl s.store

/-- The commands open to everyone leave the store alone. -/
theorem leads_dispatchOpen (command : Command) {f : Unit → Session MemoryStore × List Reply}
    (h : Leads s.store (f ()).1.store) : Leads s.store (s.dispatchOpen tag command f).1.store := by
  unfold dispatchOpen
  cases command with
  | enable caps => exact (s.openStep_cmdEnable tag caps).leads
  | login user pass => exact (s.openStep_cmdLogin tag user pass).leads
  | authenticate mechanism initial =>
    exact (s.openStep_cmdAuthenticate tag mechanism initial).leads
  | capability | noop | logout | startTls | id | namespaces => exact Leads.refl _
  | _ => exact h

theorem leads_dispatchAuthenticated (command : Command) :
    Leads s.store (s.dispatchAuthenticated views tag command).1.store := by
  unfold dispatchAuthenticated
  cases command with
  | create name useAttr => exact s.leads_cmdCreate tag name useAttr
  | delete name => exact s.leads_cmdDelete tag name
  | rename source target => exact s.leads_cmdRename tag source target
  | select mailbox qresync condstore => exact (s.quiet_cmdSelect tag mailbox _ _ _).leads
  | examine mailbox qresync condstore => exact (s.quiet_cmdSelect tag mailbox _ _ _).leads
  | subscribe name => exact (s.editedTo_setSubscribed tag name true).leads
  | unsubscribe name => exact (s.editedTo_setSubscribed tag name false).leads
  | append mailbox flags date message catenate =>
    exact (s.editedTo_cmdAppend views tag mailbox flags date message catenate).leads
  | close => exact (s.editedTo_cmdClose tag true).leads
  | unselect => exact (s.editedTo_cmdClose tag false).leads
  | expunge => exact (s.editedTo_cmdExpunge tag none).leads
  | uidExpunge set => exact (s.editedTo_cmdExpunge tag (some set)).leads
  | search charset key uid ret => exact (s.quiet_cmdSearch views tag key uid ret charset).leads
  | fetch set items uid changedsince vanished =>
    exact (s.editedTo_cmdFetch views tag set items uid changedsince vanished).leads
  | store sc => exact (s.editedTo_cmdStore tag sc).leads
  | copy set mailbox uid => exact (s.editedTo_cmdCopy tag set mailbox uid).leads
  | move set mailbox uid => exact (s.editedTo_cmdMove tag set mailbox uid).leads
  | list reference pattern returnOpts selectOpts =>
    exact leads_of_same (s.cmdList_same tag pattern false returnOpts selectOpts)
  | lsub reference pattern => exact leads_of_same (s.cmdList_same tag pattern true [] [])
  | status mailbox items => exact leads_of_same (s.cmdStatus_same tag mailbox items)
  | check => exact leads_of_same (s.requireSelected_same tag _)
  | sort criteria charset key uid =>
    exact leads_of_same (s.cmdSort_same views tag criteria charset key uid)
  | thread algorithm charset key uid =>
    exact leads_of_same (s.cmdThread_same views tag algorithm charset key uid)
  | _ => exact Leads.refl _

theorem leads_dispatch (pc : ParsedCommand) :
    Leads s.store (s.dispatch views pc).1.store := by
  unfold dispatch
  rw [← s.quiet_selfHeal.store]
  apply leads_dispatchOpen
  split_ifs
  · exact Leads.refl _
  · exact leads_dispatchAuthenticated views _ _ _

/-- Every IMAP input leads somewhere. -/
theorem leads_process {s s' : Session MemoryStore} {buf : Bytes} {out : List Reply}
    (h : s.process views buf = some (s', out)) : Leads s.store s'.store := by
  apply process_cases (P := fun t => Leads s.store t.store) h
  · exact Leads.refl _
  · exact Leads.refl _
  · exact fun p _ => (openStep_continueSasl { s with pending := none } p buf).leads
  · intro pc _
    exact s.leads_dispatch views pc

end Imap.Session

end Dmtap.Mail
