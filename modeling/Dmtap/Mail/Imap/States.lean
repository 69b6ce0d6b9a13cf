import Dmtap.Mail.Imap.Login

/-! The connection state of an IMAP session next to the data it stands for: the selected mailbox and
the identity. -/
namespace Dmtap.Mail.Imap.Session
open Lib
variable {σ : Type}

/-- The state says what the selection and the identity say. -/
structure Agrees (s : Session σ) : Prop where
  selected : s.state = .selected ↔ s.selected.isSome = true
  identity : s.state = .authenticated ∨ s.state = .selected → s.identity.isSome = true

/-- What an input does to the state. -/
inductive Turn where
  | keep
  | logIn
  | logOut
  | openMailbox
  | closeMailbox
  deriving DecidableEq

/-- The authenticator answers these credentials with an identity. -/
def accepts (s : Session σ) (cred : Option (String × String)) : Bool :=
  cred.any fun c => (s.auth.auth.verify c.1 c.2).isSome

def plainCredentials (ir : String) : Option (String × String) :=
  (decodePlain ir).map fun cred => (cred.authcid, cred.password)

/-- The credentials that the next line of a SASL exchange completes. -/
def pendingCredentials (line : String) : Pending → Option (String × String)
  | .plain _ => plainCredentials line
  | .loginUser _ => none
  | .loginPass _ user => some (user, (decodeLoginField line).getD "")

section Turn
variable [MailStore σ] (s : Session σ)

def turnOf : Command → Turn
  | .logout => .logOut
  | .login user pass => if s.tls && s.accepts (some (user, pass)) then .logIn else .keep
  | .authenticate mechanism (some ir) =>
    if SaslMechanism.parse mechanism = some .plain && s.tls && s.accepts (plainCredentials ir) then
      .logIn
    else .keep
  | .select name _ _ =>
    if s.identity.isSome && (MailStore.mailbox s.store name).isSome then .openMailbox else .keep
  | .examine name _ _ =>
    if s.identity.isSome && (MailStore.mailbox s.store name).isSome then .openMailbox else .keep
  | .close => if s.identity.isSome then .closeMailbox else .keep
  | .unselect => if s.identity.isSome then .closeMailbox else .keep
  | _ => .keep

def turn (buf : Bytes) : Turn :=
  match s.idleTag with
  | some _ => .keep
  | none =>
    match s.pending with
    | some p =>
      if s.accepts (pendingCredentials (trim (fromUtf8Lossy buf)) p) then .logIn else .keep
    | none =>
      match parseCommand buf with
      | .ok pc => s.turnOf pc.command
      | .error _ => .keep

/-- The selection an input finds: a command looks first whether the mailbox is still there. -/
def standing : Option String :=
  match s.pending with
  | some _ => s.selected
  | none => s.selfHeal.selected

/-- A login or logout comes with nothing selected, and after the logout nothing that takes the
session back. -/
structure Orderly (buf : Bytes) : Prop where
  logIn : s.turn buf = .logIn → s.standing = none ∧ s.state ≠ .logout
  logOut : s.turn buf = .logOut → s.standing = none
  opened : s.turn buf = .openMailbox → s.state ≠ .logout
  closed : s.turn buf = .closeMailbox → s.state ≠ .logout

end Turn

/-- The state and what it stands for are as they were. -/
structure Keeps (s s' : Session σ) : Prop where
  state : s'.state = s.state
  identity : s'.identity = s.identity
  selected : s'.selected = s.selected

theorem Keeps.refl (s : Session σ) : s.Keeps s := ⟨rfl, rfl, rfl⟩

theorem Keeps.pending (s : Session σ) (pending : Option Pending) :
    s.Keeps { s with pending := pending } := ⟨rfl, rfl, rfl⟩

section Keeps
variable (s : Session σ) (tag : String)

theorem keeps_cmdEnable (caps : List String) : s.Keeps (s.cmdEnable tag caps).1 := by
  obtain ⟨condstore, qresync, heq⟩ := s.cmdEnable_flags tag caps
  rw [heq]
  exact ⟨rfl, rfl, rfl⟩

end Keeps

theorem keeps_of_connection {s s' : Session σ} (h : s'.connection = s.connection) :
    s.Keeps s' := by
  constructor
  · show s'.connection.state = s.connection.state
    rw [h]
  · show s'.connection.identity = s.connection.identity
    rw [h]
  · show s'.connection.selected = s.connection.selected
    rw [h]

/-- Credentials put to the authenticator log in or change nothing. -/
structure Answered (s s' : Session σ) (cred : Option (String × String)) : Prop where
  accepted : s.accepts cred = true →
    s'.state = .authenticated ∧ s'.identity.isSome = true ∧ s'.selected = s.selected
  refused : s.accepts cred = false → s.Keeps s'

section Credentials
variable (s : Session σ) (tag : String)

theorem accepts_some (user pass : String) :
    s.accepts (some (user, pass)) = (s.auth.verify user pass).1.isSome := rfl

theorem answered_none {s s' : Session σ} (h : s.Keeps s') : s.Answered s' none where
  accepted := fun haccepts => nomatch haccepts
  refused := fun _ => h

theorem answered_finishCredentials (user pass : String) :
    s.Answered (s.finishCredentials tag user pass).1 (some (user, pass)) := by
  have haccepts := s.accepts_some user pass
  unfold finishCredentials
  rcases hverify : s.auth.verify user pass with ⟨answer, auth⟩
  rw [hverify] at haccepts
  cases answer with
  | none => exact ⟨fun h => (nomatch haccepts.symm.trans h), fun _ => ⟨rfl, rfl, rfl⟩⟩
  | some id => exact ⟨fun _ => ⟨rfl, rfl, rfl⟩, fun h => nomatch haccepts.symm.trans h⟩

theorem answered_cmdLogin (htls : s.tls = true) (user pass : String) :
    s.Answered (s.cmdLogin tag user pass).1 (some (user, pass)) := by
  have haccepts := s.accepts_some user pass
  unfold cmdLogin
  rw [htls]
  rcases hverify : s.auth.verify user pass with ⟨answer, auth⟩
  rw [hverify] at haccepts
  cases answer with
  | none => exact ⟨fun h => (nomatch haccepts.symm.trans h), fun _ => ⟨rfl, rfl, rfl⟩⟩
  | some id => exact ⟨fun _ => ⟨rfl, rfl, rfl⟩, fun h => nomatch haccepts.symm.trans h⟩

theorem answered_finishPlain (ir : String) :
    s.Answered (s.finishPlain tag ir).1 (plainCredentials ir) := by
  unfold finishPlain plainCredentials
  cases decodePlain ir with
  | none => exact answered_none (Keeps.refl s)
  | some cred => exact s.answered_finishCredentials tag cred.authcid cred.password

theorem answered_continueSasl (pending : Pending) (buf : Bytes) :
    s.Answered (s.continueSasl pending buf).1
      (pendingCredentials (trim (fromUtf8Lossy buf)) pending) := by
  unfold continueSasl
  cases pending with
  | plain tag => exact s.answered_finishPlain tag _
  | loginUser tag => exact answered_none ⟨rfl, rfl, rfl⟩
  | loginPass tag user => exact s.answered_finishCredentials tag user _

end Credentials

section Step
variable [MailStore σ] (views : Views) (s : Session σ) (tag : String)

/-- The session after an input of each kind. -/
inductive After (s' : Session σ) : Turn → Prop
  | keep (h : s.Keeps s' ∨ s.selfHeal.Keeps s') : After s' .keep
  | logIn (state : s'.state = .authenticated) (identity : s'.identity.isSome = true)
    (selected : s'.selected = s.standing) : After s' .logIn
  | logOut (state : s'.state = .logout) (selected : s'.selected = s.standing) : After s' .logOut
  | openMailbox (state : s'.state = .selected) (identity : s'.identity.isSome = true)
    (selected : s'.selected.isSome = true) : After s' .openMailbox
  | closeMailbox (state : s'.state = .authenticated) (identity : s'.identity.isSome = true)
    (selected : s'.selected = none) : After s' .closeMailbox

theorem selfHeal_identity : s.selfHeal.identity = s.identity := by
  unfold selfHeal
  split
  · split_ifs
    · rfl
    · rfl
  · rfl

theorem after_keep {s' : Session σ} {turn : Turn} (hturn : turn = .keep)
    (h : s.selfHeal.Keeps s') : s.After s' turn := by
  rw [hturn]
  exact After.keep (Or.inr h)

theorem after_of_answered {s' : Session σ} {cred : Option (String × String)}
    (hpending : s.pending = none) (h : s.selfHeal.Answered s' cred) :
    s.After s' (if s.accepts cred then .logIn else .keep) := by
  have haccepts : s.selfHeal.accepts cred = s.accepts cred := by
    unfold accepts
    rw [s.quiet_selfHeal.auth]
  by_cases haccepted : s.accepts cred = true
  · rw [if_pos haccepted]
    obtain ⟨hstate, hidentity, hselected⟩ := h.accepted (haccepts.trans haccepted)
    refine After.logIn hstate hidentity (hselected.trans ?_)
    unfold standing
    rw [hpending]
  · rw [if_neg haccepted]
    exact After.keep (Or.inr (h.refused (haccepts.trans (Bool.not_eq_true _ ▸ haccepted))))

theorem after_cmdLogin (hpending : s.pending = none) (user pass : String) :
    s.After (s.selfHeal.cmdLogin tag user pass).1
      (if s.tls && s.accepts (some (user, pass)) then .logIn else .keep) := by
  by_cases htls : s.tls = true
  · rw [htls, Bool.true_and]
    exact s.after_of_answered hpending
      (s.selfHeal.answered_cmdLogin tag (s.quiet_selfHeal.tls.trans htls) user pass)
  · have hoff : s.tls = false := Bool.not_eq_true _ ▸ htls
    have hheal : s.selfHeal.tls = false := s.quiet_selfHeal.tls.trans hoff
    unfold cmdLogin
    rw [hoff, hheal]
    exact After.keep (Or.inr (Keeps.refl _))

theorem turnOf_authenticate (mechanism : String) (initial : Option String)
    (h : SaslMechanism.parse mechanism ≠ some .plain ∨ s.tls = false ∨ initial = none) :
    s.turnOf (.authenticate mechanism initial) = .keep := by
  cases initial with
  | none => rfl
  | some ir =>
    dsimp only [turnOf]
    rcases h with hmech | htls | hinitial
    · rw [decide_eq_false hmech]
      rfl
    · rw [htls, Bool.and_false, Bool.false_and]
      rfl
    · cases hinitial

theorem after_cmdAuthenticate (hpending : s.pending = none) (mechanism : String)
    (initial : Option String) :
    s.After (s.selfHeal.cmdAuthenticate tag mechanism initial).1
      (s.turnOf (.authenticate mechanism initial)) := by
  unfold cmdAuthenticate
  cases hmech : SaslMechanism.parse mechanism with
  | none =>
    refine s.after_keep (s.turnOf_authenticate mechanism initial ?_) (Keeps.refl _)
    exact Or.inl (by rw [hmech]; exact nofun)
  | some mech =>
    dsimp only
    by_cases htls : (!s.selfHeal.tls) = true
    · have hoff : s.selfHeal.tls = false := Bool.not_eq_true' _ ▸ htls
      rw [if_pos htls]
      refine s.after_keep (s.turnOf_authenticate mechanism initial ?_) (Keeps.refl _)
      exact Or.inr (Or.inl (s.quiet_selfHeal.tls.symm.trans hoff))
    · rw [if_neg htls]
      cases mech with
      | login =>
        refine s.after_keep (s.turnOf_authenticate mechanism initial ?_) ?_
        · exact Or.inl (by rw [hmech]; exact nofun)
        · cases initial with
          | none => exact Keeps.pending _ _
          | some ir => exact Keeps.pending _ _
      | plain =>
        cases initial with
        | none => exact s.after_keep rfl (Keeps.pending _ _)
        | some ir =>
          have hon : s.tls = true := by
            rw [← s.quiet_selfHeal.tls]
            exact Bool.not_eq_false _ ▸ fun h => htls (by rw [h]; rfl)
          have hturn : s.turnOf (.authenticate mechanism (some ir)) =
              if s.accepts (plainCredentials ir) then .logIn else .keep := by
            simp only [turnOf, hmech, hon, decide_true, Bool.true_and]
          rw [hturn]
          exact s.after_of_answered hpending (s.selfHeal.answered_finishPlain tag ir)

theorem after_cmdSelect (name : String) (readOnly condstore : Bool)
    (qresync : Option QResyncParams) (hidentity : s.identity.isSome = true) :
    s.After (s.selfHeal.cmdSelect tag name readOnly condstore qresync).1
      (if s.identity.isSome && (MailStore.mailbox s.store name).isSome then .openMailbox
        else .keep) := by
  have hheal : s.selfHeal.identity.isSome = true := by
    rw [selfHeal_identity]
    exact hidentity
  unfold cmdSelect
  rw [s.quiet_selfHeal.store, hidentity, Bool.true_and]
  cases MailStore.mailbox s.store name with
  | none => exact After.keep (Or.inr (Keeps.refl _))
  | some mb =>
    refine After.openMailbox rfl ?_ rfl
    dsimp only
    split_ifs
    all_goals exact hheal

theorem after_cmdClose (expunge : Bool) (hidentity : s.identity.isSome = true) :
    s.After (s.selfHeal.cmdClose tag expunge).1
      (if s.identity.isSome then .closeMailbox else .keep) := by
  rw [if_pos hidentity]
  refine After.closeMailbox rfl ?_ rfl
  show s.selfHeal.identity.isSome = true
  rw [selfHeal_identity]
  exact hidentity

theorem turnOf_of_anonymous (command : Command) (h : selects command = true)
    (hidentity : s.identity.isSome = false) : s.turnOf command = .keep := by
  unfold turnOf
  cases command with
  | select name qresync condstore => rw [hidentity]; rfl
  | examine name qresync condstore => rw [hidentity]; rfl
  | close => rw [hidentity]; rfl
  | unselect => rw [hidentity]; rfl
  | _ => cases h

/-- The commands behind the login do what their kind says. -/
theorem after_behind (command : Command)
    (hturn : selects command = false → s.turnOf command = .keep) :
    s.After (if s.selfHeal.identity.isNone then (s.selfHeal, [no tag "Not authenticated"])
      else s.selfHeal.dispatchAuthenticated views tag command).1 (s.turnOf command) := by
  rw [selfHeal_identity]
  by_cases hnone : s.identity.isNone = true
  · rw [if_pos hnone]
    refine s.after_keep ?_ (Keeps.refl _)
    cases hselects : selects command with
    | false => exact hturn hselects
    | true =>
      refine s.turnOf_of_anonymous command hselects ?_
      rw [Option.isNone_iff_eq_none.mp hnone]
      rfl
  · rw [if_neg hnone]
    have hidentity : s.identity.isSome = true :=
      Option.isSome_iff_ne_none.mpr fun h => hnone (Option.isNone_iff_eq_none.mpr h)
    cases hselects : selects command with
    | false =>
      exact s.after_keep (hturn hselects)
        (keeps_of_connection (s.selfHeal.dispatchAuthenticated_connection views tag command hselects))
    | true =>
      cases command with
      | select name qresync condstore => exact s.after_cmdSelect tag name false condstore qresync hidentity
      | examine name qresync condstore => exact s.after_cmdSelect tag name true condstore qresync hidentity
      | close => exact s.after_cmdClose tag true hidentity
      | unselect => exact s.after_cmdClose tag false hidentity
      | _ => cases hselects

/-- A command does to the state what its kind says. -/
theorem after_dispatch (hpending : s.pending = none) (pc : ParsedCommand) :
    s.After (s.dispatch views pc).1 (s.turnOf pc.command) := by
  obtain ⟨tag, command⟩ := pc
  unfold dispatch
  dsimp only
  unfold dispatchOpen
  cases command with
  | logout =>
    refine After.logOut rfl ?_
    unfold standing
    rw [hpending]
  | login user pass => exact s.after_cmdLogin tag hpending user pass
  | authenticate mechanism initial => exact s.after_cmdAuthenticate tag hpending mechanism initial
  | enable caps => exact After.keep (Or.inr (s.selfHeal.keeps_cmdEnable tag caps))
  | capability | noop | startTls | id | namespaces => exact After.keep (Or.inr ⟨rfl, rfl, rfl⟩)
  | _ => exact s.after_behind views tag _ fun h => (by first | rfl | cases h)

section Kinds
variable {s : Session σ} {buf : Bytes}

theorem turn_of_idle {tag : String} (h : s.idleTag = some tag) : s.turn buf = .keep := by
  unfold turn
  rw [h]

theorem turn_of_pending (hidle : s.idleTag = none) {p : Pending} (h : s.pending = some p) :
    s.turn buf =
      if s.accepts (pendingCredentials (trim (fromUtf8Lossy buf)) p) then .logIn else .keep := by
  unfold turn
  rw [hidle]
  dsimp only
  rw [h]

theorem turn_of_command (hidle : s.idleTag = none) (hpending : s.pending = none)
    {pc : ParsedCommand} (h : parseCommand buf = .ok pc) : s.turn buf = s.turnOf pc.command := by
  unfold turn
  rw [hidle]
  dsimp only
  rw [hpending]
  dsimp only
  rw [h]

theorem turn_of_error (hidle : s.idleTag = none) (hpending : s.pending = none) {e : Fault}
    (h : parseCommand buf = .error e) : s.turn buf = .keep := by
  unfold turn
  rw [hidle]
  dsimp only
  rw [hpending]
  dsimp only
  rw [h]

end Kinds

/-- An input does to the state what its kind says. -/
theorem after_process {s s' : Session σ} {buf : Bytes} {out : List Reply}
    (h : s.process views buf = some (s', out)) : s.After s' (s.turn buf) := by
  unfold process at h
  split at h
  case h_1 tag hidle =>
    rw [turn_of_idle hidle]
    split_ifs at h
    · cases h
      exact After.keep (Or.inl ⟨rfl, rfl, rfl⟩)
    · cases h
      exact After.keep (Or.inl (Keeps.refl _))
  case h_2 hidle =>
    split at h
    case h_1 p hpending =>
      rw [turn_of_pending hidle hpending]
      have hanswered := answered_continueSasl { s with pending := none } p buf
      rw [Option.some.inj h] at hanswered
      generalize pendingCredentials (trim (fromUtf8Lossy buf)) p = cred at hanswered ⊢
      by_cases haccepted : s.accepts cred = true
      · rw [if_pos haccepted]
        obtain ⟨hstate, hidentity, hselected⟩ := hanswered.accepted haccepted
        refine After.logIn hstate hidentity (hselected.trans ?_)
        unfold standing
        rw [hpending]
      · rw [if_neg haccepted]
        have hkeeps := hanswered.refused (Bool.not_eq_true _ ▸ haccepted)
        exact After.keep (Or.inl ⟨hkeeps.state, hkeeps.identity, hkeeps.selected⟩)
    case h_2 hpending =>
      split at h
      case h_1 pc hparse =>
        rw [turn_of_command hidle hpending hparse]
        have hafter := s.after_dispatch views hpending pc
        rw [Option.some.inj h] at hafter
        exact hafter
      case h_2 e hparse =>
        rw [turn_of_error hidle hpending hparse]
        cases h
        exact After.keep (Or.inl (Keeps.refl _))
      case h_3 => cases h

omit [MailStore σ] in
theorem agrees_new (store : σ) (auth : Authenticator) (tls : Bool) :
    (new store auth tls).Agrees where
  selected := ⟨nofun, nofun⟩
  identity := fun h => by
    rcases h with h | h
    · cases h
    · cases h

variable {s}

omit [MailStore σ] in
theorem Agrees.keeps {s' : Session σ} (hs : s.Agrees) (h : s.Keeps s') : s'.Agrees where
  selected := by
    rw [h.state, h.selected]
    exact hs.selected
  identity := by
    rw [h.state, h.identity]
    exact hs.identity

/-- Forgetting a mailbox that is gone keeps the agreement, and does nothing after the logout. -/
theorem Agrees.selfHeal (hs : s.Agrees) : s.selfHeal.Agrees := by
  unfold Session.selfHeal
  cases hselected : s.selected with
  | none => exact hs
  | some name =>
    dsimp only
    split_ifs
    · have hstate : s.state = .selected := hs.selected.mpr (by rw [hselected]; rfl)
      exact ⟨⟨nofun, nofun⟩, fun _ => hs.identity (Or.inr hstate)⟩
    · exact hs

theorem Agrees.selfHeal_of_logout (hs : s.Agrees) (h : s.state = .logout) : s.selfHeal = s := by
  apply selfHeal_of_selected
  cases hselected : s.selected with
  | none => rfl
  | some name =>
    have hstate := hs.selected.mpr (by rw [hselected]; rfl)
    rw [h] at hstate
    cases hstate

omit [MailStore σ] in
theorem Agrees.selected_eq_none (hs : s.Agrees) (h : s.state ≠ .selected) : s.selected = none :=
  Option.not_isSome_iff_eq_none.mp fun hselected => h (hs.selected.mpr hselected)

omit [MailStore σ] in
theorem agrees_of_deselected (hselected : s.selected = none) (hstate : s.state ≠ .selected)
    (h : s.state = .authenticated → s.identity.isSome = true) : s.Agrees where
  selected := by
    rw [hselected]
    exact ⟨fun h => absurd h hstate, nofun⟩
  identity := by
    rintro (hauthenticated | hopen)
    · exact h hauthenticated
    · exact absurd hopen hstate

theorem orderly_of_keep {buf : Bytes} (h : s.turn buf = .keep) : s.Orderly buf where
  logIn := fun hturn => nomatch h.symm.trans hturn
  logOut := fun hturn => nomatch h.symm.trans hturn
  opened := fun hturn => nomatch h.symm.trans hturn
  closed := fun hturn => nomatch h.symm.trans hturn

/-- From a state that agrees, an input leads to one that agrees, and not back from the logout,
exactly if it is orderly. -/
theorem orderly_iff {s' : Session σ} {buf : Bytes} {out : List Reply} (hs : s.Agrees)
    (h : s.process views buf = some (s', out)) :
    s.Orderly buf ↔ s'.Agrees ∧ (s.state = .logout → s'.state = .logout) := by
  have hafter := after_process views h
  generalize hturn : s.turn buf = turn at hafter
  cases hafter with
  | keep hkeeps =>
    refine ⟨fun _ => ?_, fun _ => orderly_of_keep hturn⟩
    rcases hkeeps with hkeeps | hkeeps
    · exact ⟨hs.keeps hkeeps, fun hlogout => hkeeps.state.trans hlogout⟩
    · refine ⟨hs.selfHeal.keeps hkeeps, fun hlogout => ?_⟩
      rw [hs.selfHeal_of_logout hlogout] at hkeeps
      exact hkeeps.state.trans hlogout
  | logIn state identity selected =>
    constructor
    · intro horderly
      obtain ⟨hstanding, hnot⟩ := horderly.logIn hturn
      refine ⟨agrees_of_deselected (selected.trans hstanding) ?_ fun _ => identity, ?_⟩
      · rw [state]
        exact nofun
      · exact fun hlogout => absurd hlogout hnot
    · intro ⟨hagrees, hstays⟩
      constructor
      · intro _
        refine ⟨selected.symm.trans (hagrees.selected_eq_none ?_), fun hlogout => ?_⟩
        · rw [state]
          exact nofun
        · cases state.symm.trans (hstays hlogout)
      all_goals exact fun hother => nomatch hturn.symm.trans hother
  | logOut state selected =>
    constructor
    · intro horderly
      refine ⟨agrees_of_deselected (selected.trans (horderly.logOut hturn)) ?_ ?_, fun _ => state⟩
      · rw [state]
        exact nofun
      · rw [state]
        exact nofun
    · intro ⟨hagrees, _⟩
      constructor
      case logOut =>
        intro _
        refine selected.symm.trans (hagrees.selected_eq_none ?_)
        rw [state]
        exact nofun
      all_goals exact fun hother => nomatch hturn.symm.trans hother
  | openMailbox state identity selected =>
    constructor
    · intro horderly
      refine ⟨⟨⟨fun _ => selected, fun _ => state⟩, fun _ => identity⟩, fun hlogout => ?_⟩
      exact absurd hlogout (horderly.opened hturn)
    · intro ⟨_, hstays⟩
      constructor
      case opened =>
        intro _ hlogout
        cases state.symm.trans (hstays hlogout)
      all_goals exact fun hother => nomatch hturn.symm.trans hother
  | closeMailbox state identity selected =>
    constructor
    · intro horderly
      refine ⟨agrees_of_deselected selected ?_ fun _ => identity, fun hlogout => ?_⟩
      · rw [state]
        exact nofun
      · exact absurd hlogout (horderly.closed hturn)
    · intro ⟨_, hstays⟩
      constructor
      case closed =>
        intro _ hlogout
        cases state.symm.trans (hstays hlogout)
      all_goals exact fun hother => nomatch hturn.symm.trans hother

end Step

section Runs
variable [MailStore σ] (views : Views) {s t : Session σ}

/-- Every input of a run is orderly where it arrives. -/
def OrderlyRun (s : Session σ) (inputs : List Bytes) : Prop :=
  ∀ pre buf post t, inputs = pre ++ buf :: post → s.Reaches views pre t → t.Orderly buf

theorem OrderlyRun.behind (inputs : List Bytes) {inputs' : List Bytes}
    (h : s.OrderlyRun views (inputs ++ inputs')) (ht : s.Reaches views inputs t) :
    t.OrderlyRun views inputs' := by
  intro pre buf post u heq hu
  refine h (inputs ++ pre) buf post u ?_ ((reaches_append views).mpr ⟨t, ht, hu⟩)
  rw [heq, List.append_assoc]

theorem OrderlyRun.before (inputs : List Bytes) {inputs' : List Bytes}
    (h : s.OrderlyRun views (inputs ++ inputs')) : s.OrderlyRun views inputs := by
  intro pre buf post u heq hu
  refine h pre buf (post ++ inputs') u ?_ hu
  rw [heq, List.append_assoc, List.cons_append]

theorem OrderlyRun.agrees {inputs : List Bytes} (h : s.OrderlyRun views inputs) (hs : s.Agrees)
    (ht : s.Reaches views inputs t) : t.Agrees ∧ (s.state = .logout → t.state = .logout) := by
  induction inputs generalizing s with
  | nil =>
    rw [(reaches_nil views).mp ht]
    exact ⟨hs, id⟩
  | cons buf inputs ih =>
    obtain ⟨u, out, hprocess, hu⟩ := (reaches_cons views).mp ht
    have horderly := h [] buf inputs s rfl ((reaches_nil views).mpr rfl)
    obtain ⟨hagrees, hstays⟩ := (orderly_iff views hs hprocess).mp horderly
    have hstep : s.Reaches views [buf] u :=
      (reaches_cons views).mpr ⟨u, out, hprocess, (reaches_nil views).mpr rfl⟩
    obtain ⟨hagrees', hstays'⟩ := ih (OrderlyRun.behind views [buf] h hstep) hagrees hu
    exact ⟨hagrees', fun hlogout => hstays' (hstays hlogout)⟩

/-- The logout state comes from a LOGOUT. -/
theorem logOut_of_process {buf : Bytes} {out : List Reply} (h : s.process views buf = some (t, out))
    (hs : s.state ≠ .logout) (ht : t.state = .logout) : s.turn buf = .logOut := by
  have hafter := after_process views h
  have hheal : s.selfHeal.state ≠ .logout := by
    unfold selfHeal
    split
    · split_ifs
      · exact nofun
      · exact hs
    · exact hs
  generalize s.turn buf = turn at hafter ⊢
  cases hafter with
  | keep hkeeps =>
    rcases hkeeps with hkeeps | hkeeps
    · exact absurd (hkeeps.state.symm.trans ht) hs
    · exact absurd (hkeeps.state.symm.trans ht) hheal
  | logIn state => cases state.symm.trans ht
  | logOut => rfl
  | openMailbox state => cases state.symm.trans ht
  | closeMailbox state => cases state.symm.trans ht

theorem logOut_of_reaches {inputs : List Bytes} (h : s.Reaches views inputs t)
    (hs : s.state ≠ .logout) (ht : t.state = .logout) :
    ∃ pre buf mid u, inputs = pre ++ buf :: mid ∧ s.Reaches views pre u ∧ u.turn buf = .logOut ∧
      u.Reaches views (buf :: mid) t := by
  induction inputs generalizing s with
  | nil =>
    rw [(reaches_nil views).mp h] at ht
    exact absurd ht hs
  | cons buf inputs ih =>
    obtain ⟨u, out, hprocess, hu⟩ := (reaches_cons views).mp h
    by_cases hlogout : u.state = .logout
    · exact ⟨[], buf, inputs, s, rfl, (reaches_nil views).mpr rfl,
        logOut_of_process views hprocess hs hlogout, h⟩
    · obtain ⟨pre, b, mid, v, rfl, hv, hturn, hmid⟩ := ih hu hlogout
      exact ⟨buf :: pre, b, mid, v, rfl, (reaches_cons views).mpr ⟨u, out, hprocess, hv⟩, hturn, hmid⟩

/-- An input at which the parser faults does nothing. -/
theorem turn_of_fault {buf : Bytes} (h : s.process views buf = none) : s.turn buf = .keep := by
  unfold process at h
  split at h
  case h_1 tag hidle => exact turn_of_idle hidle
  case h_2 hidle =>
    split at h
    case h_1 => cases h
    case h_2 hpending =>
      split at h
      case h_1 => cases h
      case h_2 => cases h
      case h_3 hparse => exact turn_of_error hidle hpending hparse

/-- Along a run the state agrees with the session data and stays at the logout, exactly if every
input is orderly. -/
theorem run_agrees_iff (store : σ) (auth : Authenticator) (tls : Bool) (inputs : List Bytes) :
    (new store auth tls).OrderlyRun views inputs ↔
      (∀ pre post t, inputs = pre ++ post → (new store auth tls).Reaches views pre t → t.Agrees) ∧
      ∀ pre buf mid post t t', inputs = pre ++ buf :: mid ++ post →
        (new store auth tls).Reaches views pre t → t.turn buf = .logOut →
        t.Reaches views (buf :: mid) t' → t'.state = .logout := by
  constructor
  · intro h
    constructor
    · rintro pre post t rfl ht
      exact ((h.before views pre).agrees views (agrees_new store auth tls) ht).1
    · rintro pre buf mid post t t' rfl ht hturn ht'
      have hrun := h.before views (pre ++ buf :: mid)
      have hagrees := ((hrun.before views pre).agrees views (agrees_new store auth tls) ht).1
      obtain ⟨u, out, hprocess, hu⟩ := (reaches_cons views).mp ht'
      have hmid : t.OrderlyRun views (buf :: mid) := hrun.behind views pre ht
      have hstep : t.Reaches views [buf] u :=
        (reaches_cons views).mpr ⟨u, out, hprocess, (reaches_nil views).mpr rfl⟩
      have hstate : u.state = .logout := by
        have hafter := after_process views hprocess
        rw [hturn] at hafter
        cases hafter with
        | logOut state => exact state
      have hu' := (OrderlyRun.before views [buf] hmid).agrees views hagrees hstep
      exact ((OrderlyRun.behind views [buf] hmid hstep).agrees views hu'.1 hu).2 hstate
  · rintro ⟨hagrees, hlogout⟩ pre buf post t rfl ht
    cases hprocess : t.process views buf with
    | none => exact orderly_of_keep (turn_of_fault views hprocess)
    | some r =>
      obtain ⟨t', out⟩ := r
      have hstep : t.Reaches views [buf] t' :=
        (reaches_cons views).mpr ⟨t', out, hprocess, (reaches_nil views).mpr rfl⟩
      refine (orderly_iff views (hagrees pre (buf :: post) t rfl ht) hprocess).mpr ⟨?_, ?_⟩
      · refine hagrees (pre ++ [buf]) post t' ?_ ((reaches_append views).mpr ⟨t, ht, hstep⟩)
        rw [List.append_assoc, List.singleton_append]
      · intro hstate
        obtain ⟨pre', b, mid, u, rfl, hu, hturn, hmid⟩ := logOut_of_reaches views ht nofun hstate
        refine hlogout pre' b (mid ++ [buf]) post u t' ?_ hu hturn ?_
        · rw [List.append_assoc, List.append_assoc, List.cons_append, List.cons_append,
            List.append_assoc, List.singleton_append]
        · rw [← List.cons_append]
          exact (reaches_append views).mpr ⟨t, hmid, hstep⟩

end Runs

/-- A second login while INBOX is selected: the session leaves the selected state and the
selection stays. A login after the logout takes the session back. -/
theorem run_agrees_login_again :
    (∃ t, (new MemoryStore.new (.issued "alice" "pw" [1]) true).Reaches .blank
      [utf8 "a LOGIN alice pw\r\n", utf8 "b SELECT INBOX\r\n", utf8 "c LOGIN alice pw\r\n"] t ∧
      ¬t.Agrees) ∧
    (new MemoryStore.new (.issued "alice" "pw" [1]) true).turn (utf8 "a LOGOUT\r\n") = .logOut ∧
    ∃ t, (new MemoryStore.new (.issued "alice" "pw" [1]) true).Reaches .blank
      [utf8 "a LOGOUT\r\n", utf8 "b LOGIN alice pw\r\n"] t ∧ t.state ≠ .logout := by
  have hselected : ((new MemoryStore.new (.issued "alice" "pw" [1]) true).run .blank
      [utf8 "a LOGIN alice pw\r\n", utf8 "b SELECT INBOX\r\n", utf8 "c LOGIN alice pw\r\n"]).map
        (fun r => (r.1.state, r.1.selected)) = some (.authenticated, some "INBOX") := by
    decide +kernel
  have hback : ((new MemoryStore.new (.issued "alice" "pw" [1]) true).run .blank
      [utf8 "a LOGOUT\r\n", utf8 "b LOGIN alice pw\r\n"]).map (fun r => r.1.state) =
        some .authenticated := by decide +kernel
  obtain ⟨⟨t, outs⟩, hrun, ht⟩ := Option.map_eq_some_iff.mp hselected
  obtain ⟨⟨u, outs'⟩, hrun', hu⟩ := Option.map_eq_some_iff.mp hback
  obtain ⟨hstate, hname⟩ := Prod.mk.inj ht
  refine ⟨⟨t, ⟨outs, hrun⟩, fun hagrees => ?_⟩, by decide +kernel, u, ⟨outs', hrun'⟩, ?_⟩
  · have hopen := hagrees.selected.mpr (show t.selected.isSome = true by rw [hname]; rfl)
    rw [hstate] at hopen
    cases hopen
  · rw [hu]
    exact nofun

end Dmtap.Mail.Imap.Session
