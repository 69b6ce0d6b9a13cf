import Dmtap.Mail.Imap.Session

/-! What the commands over the mailboxes leave alone: the connection itself. -/
namespace Dmtap.Mail.Imap.Session
open Lib
variable {σ τ : Type}

/-- The same connection over another store. -/
def withStore (s : Session σ) (t : τ) : Session τ where
  store := t
  auth := s.auth
  tls := s.tls
  state := s.state
  identity := s.identity
  selected := s.selected
  readOnly := s.readOnly
  condstore := s.condstore
  qresync := s.qresync
  idleTag := s.idleTag
  pending := s.pending
  savedSearch := s.savedSearch

/-- The connection with the saved search result. -/
def outline (s : Session σ) : Session Unit := { s.withStore () with idleTag := none }

/-- The connection, without what the commands over the mailboxes write. -/
def connection (s : Session σ) : Session Unit :=
  { s.withStore () with savedSearch := [], idleTag := none }

theorem connection_of_outline {s s' : Session σ} (h : s'.outline = s.outline) :
    s'.connection = s.connection :=
  congrArg (fun t : Session Unit => { t with savedSearch := [] }) h

section Connection
variable [MailStore σ] (s : Session σ) (tag : String) (views : Views)

theorem setSubscribed_outline (name : String) (sub : Bool) :
    (s.setSubscribed tag name sub).1.outline = s.outline := by
  unfold setSubscribed
  split
  · rfl
  · rfl

theorem cmdCreate_outline (name : String) (useAttr : Option String) :
    (s.cmdCreate tag name useAttr).1.outline = s.outline := by
  unfold cmdCreate
  split
  · rfl
  · rfl

theorem cmdDelete_outline (name : String) :
    (s.cmdDelete tag name).1.outline = s.outline := by
  unfold cmdDelete
  split
  · rfl
  · rfl

theorem cmdRename_outline (source target : String) :
    (s.cmdRename tag source target).1.outline = s.outline := by
  unfold cmdRename
  split
  · rfl
  · rfl

theorem cmdAppend_outline (name : String) (flags : List Flag) (date : Option String)
    (message : Bytes) (catenate : Option (List CatPart)) :
    (s.cmdAppend views tag name flags date message catenate).1.outline = s.outline := by
  unfold cmdAppend
  dsimp only
  split
  · rfl
  · split
    · rfl
    · rfl

theorem cmdExpunge_outline (uidSet : Option SequenceSet) :
    (s.cmdExpunge tag uidSet).1.outline = s.outline := by
  unfold cmdExpunge
  repeat' split
  all_goals rfl

theorem cmdFetch_outline (set : SequenceSet) (items : List FetchItem) (uidMode : Bool)
    (changedsince : Option ℕ) (vanished : Bool) :
    (s.cmdFetch views tag set items uidMode changedsince vanished).1.outline =
      s.outline := by
  unfold cmdFetch
  repeat' split
  all_goals rfl

theorem cmdStore_outline (sc : StoreCommand) :
    (s.cmdStore tag sc).1.outline = s.outline := by
  unfold cmdStore
  repeat' split
  all_goals rfl

theorem cmdCopy_outline (set : SequenceSet) (dest : String) (uidMode : Bool) :
    (s.cmdCopy tag set dest uidMode).1.outline = s.outline := by
  unfold cmdCopy
  repeat' split
  all_goals rfl

theorem cmdMove_outline (set : SequenceSet) (dest : String) (uidMode : Bool) :
    (s.cmdMove tag set dest uidMode).1.outline = s.outline := by
  unfold cmdMove
  split
  · rfl
  · split
    · rfl
    · split
      · rfl
      · dsimp only
        split
        · rfl
        · rfl

theorem cmdSearch_connection (key : SearchKey) (uid : Bool) (ret : List String)
    (charset : Option String) :
    (s.cmdSearch views tag key uid ret charset).1.connection = s.connection := by
  obtain ⟨saved, heq⟩ := s.cmdSearch_saves views tag key uid ret charset
  rw [heq]
  rfl

end Connection

/-- The commands that select or deselect a mailbox. -/
def selects : Command → Bool
  | .select _ _ _ => true
  | .examine _ _ _ => true
  | .close => true
  | .unselect => true
  | _ => false

/-- The commands that save a search result, if they are asked to. -/
def searches : Command → Bool
  | .search _ _ _ _ => true
  | _ => false

/-- The other commands behind the login leave the connection and the saved result alone. -/
theorem dispatchAuthenticated_outline [MailStore σ] (s : Session σ) (views : Views)
    (tag : String) (command : Command) (hselects : selects command = false)
    (hsearches : searches command = false) :
    (s.dispatchAuthenticated views tag command).1.outline = s.outline := by
  unfold dispatchAuthenticated
  cases command with
  | select mailbox qresync condstore => cases hselects
  | examine mailbox qresync condstore => cases hselects
  | close => cases hselects
  | unselect => cases hselects
  | search charset key uid ret => cases hsearches
  | create name useAttr => exact s.cmdCreate_outline tag name useAttr
  | delete name => exact s.cmdDelete_outline tag name
  | rename source target => exact s.cmdRename_outline tag source target
  | subscribe name => exact s.setSubscribed_outline tag name true
  | unsubscribe name => exact s.setSubscribed_outline tag name false
  | list reference pattern returnOpts selectOpts =>
    exact congrArg outline (s.cmdList_same tag pattern false returnOpts selectOpts)
  | lsub reference pattern => exact congrArg outline (s.cmdList_same tag pattern true [] [])
  | status mailbox items => exact congrArg outline (s.cmdStatus_same tag mailbox items)
  | append mailbox flags date message catenate =>
    exact s.cmdAppend_outline tag views mailbox flags date message catenate
  | check => exact congrArg outline (s.requireSelected_same tag _)
  | expunge => exact s.cmdExpunge_outline tag none
  | uidExpunge set => exact s.cmdExpunge_outline tag (some set)
  | sort criteria charset key uid =>
    exact congrArg outline (s.cmdSort_same views tag criteria charset key uid)
  | thread algorithm charset key uid =>
    exact congrArg outline (s.cmdThread_same views tag algorithm charset key uid)
  | fetch set items uid changedsince vanished =>
    exact s.cmdFetch_outline tag views set items uid changedsince vanished
  | store sc => exact s.cmdStore_outline tag sc
  | copy set mailbox uid => exact s.cmdCopy_outline tag set mailbox uid
  | move set mailbox uid => exact s.cmdMove_outline tag set mailbox uid
  | idle => rfl
  | _ => rfl

theorem dispatchAuthenticated_connection [MailStore σ] (s : Session σ) (views : Views)
    (tag : String) (command : Command) (h : selects command = false) :
    (s.dispatchAuthenticated views tag command).1.connection = s.connection := by
  cases hsearches : searches command with
  | false =>
    exact connection_of_outline (s.dispatchAuthenticated_outline views tag command h hsearches)
  | true =>
    cases command with
    | search charset key uid ret => exact s.cmdSearch_connection tag views key uid ret charset
    | _ => cases hsearches

end Dmtap.Mail.Imap.Session
