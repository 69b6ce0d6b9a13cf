import Dmtap.Mail.Imap.Connection

/-! Before the login: the commands open to everyone neither read nor write the store, so a session
over one store answers them as it does over any other. -/
namespace Dmtap.Mail.Imap.Session
open Lib
variable {σ τ : Type}

/-- An answer, with the connection moved to another store. -/
def relocate (t : τ) (r : Session σ × List Reply) : Session τ × List Reply :=
  (r.1.withStore t, r.2)

section Frame
variable (s : Session σ) (t : τ) (tag : String)

theorem cmdLogin_withStore (user pass : String) :
    (s.withStore t).cmdLogin tag user pass = relocate t (s.cmdLogin tag user pass) := by
  unfold cmdLogin
  change (if !s.tls then _ else _) = _
  by_cases htls : (!s.tls) = true
  · rw [if_pos htls, if_pos htls]
    rfl
  · rw [if_neg htls, if_neg htls]
    rw [show (s.withStore t).auth = s.auth from rfl]
    rcases s.auth.verify user pass with ⟨answer, auth⟩
    cases answer with
    | none => rfl
    | some id => rfl

theorem finishCredentials_withStore (user pass : String) :
    (s.withStore t).finishCredentials tag user pass =
      relocate t (s.finishCredentials tag user pass) := by
  unfold finishCredentials
  rw [show (s.withStore t).auth = s.auth from rfl]
  rcases s.auth.verify user pass with ⟨answer, auth⟩
  cases answer with
  | none => rfl
  | some id => rfl

theorem finishPlain_withStore (ir : String) :
    (s.withStore t).finishPlain tag ir = relocate t (s.finishPlain tag ir) := by
  unfold finishPlain
  cases decodePlain ir with
  | none => rfl
  | some cred => exact s.finishCredentials_withStore t tag cred.authcid cred.password

theorem cmdAuthenticate_withStore (mechanism : String) (initial : Option String) :
    (s.withStore t).cmdAuthenticate tag mechanism initial =
      relocate t (s.cmdAuthenticate tag mechanism initial) := by
  unfold cmdAuthenticate
  cases SaslMechanism.parse mechanism with
  | none => rfl
  | some mech =>
    dsimp only
    change (if !s.tls then _ else _) = _
    by_cases htls : (!s.tls) = true
    · rw [if_pos htls, if_pos htls]
      rfl
    · rw [if_neg htls, if_neg htls]
      cases mech with
      | plain =>
        cases initial with
        | none => rfl
        | some ir => exact s.finishPlain_withStore t tag ir
      | login =>
        cases initial with
        | none => rfl
        | some ir => rfl

theorem continueSasl_withStore (pending : Pending) (buf : Bytes) :
    (s.withStore t).continueSasl pending buf = relocate t (s.continueSasl pending buf) := by
  unfold continueSasl
  cases pending with
  | plain tag => exact s.finishPlain_withStore t tag _
  | loginUser tag => rfl
  | loginPass tag user => exact s.finishCredentials_withStore t tag user _

theorem enableOne_withStore (acc : Session σ × List String) (c : String) :
    enableOne (acc.1.withStore t, acc.2) c =
      ((enableOne acc c).1.withStore t, (enableOne acc c).2) := by
  unfold enableOne
  split
  · rfl
  · rfl
  · rfl
  · rfl

theorem foldl_enableOne_withStore (caps : List String) (acc : Session σ × List String) :
    caps.foldl enableOne (acc.1.withStore t, acc.2) =
      ((caps.foldl enableOne acc).1.withStore t, (caps.foldl enableOne acc).2) := by
  induction caps generalizing acc with
  | nil => rfl
  | cons c caps ih =>
    rw [List.foldl_cons, enableOne_withStore]
    exact ih (enableOne acc c)

theorem cmdEnable_withStore (caps : List String) :
    (s.withStore t).cmdEnable tag caps = relocate t (s.cmdEnable tag caps) := by
  have hrun : caps.foldl enableOne (s.withStore t, []) =
      ((caps.foldl enableOne (s, [])).1.withStore t, (caps.foldl enableOne (s, [])).2) :=
    foldl_enableOne_withStore t caps (s, [])
  unfold cmdEnable
  rw [hrun]
  rfl

/-- A command open to everyone is answered over another store as over this one, if the commands
that are not are. -/
theorem dispatchOpen_withStore (command : Command) {f : Unit → Session σ × List Reply}
    {g : Unit → Session τ × List Reply} (h : g () = relocate t (f ())) :
    (s.withStore t).dispatchOpen tag command g = relocate t (s.dispatchOpen tag command f) := by
  unfold dispatchOpen
  cases command with
  | enable caps => exact s.cmdEnable_withStore t tag caps
  | login user pass => exact s.cmdLogin_withStore t tag user pass
  | authenticate mechanism initial => exact s.cmdAuthenticate_withStore t tag mechanism initial
  | capability => rfl
  | noop => rfl
  | logout => rfl
  | startTls => rfl
  | id params => rfl
  | namespaces => rfl
  | _ => exact h

end Frame

section Behind
variable [MailStore σ] (views : Views) (s : Session σ) (tag : String)

omit [MailStore σ] in
theorem Quiet.login {s s' : Session σ} (h : s.Quiet s') : s'.auth = s.auth ∧ s'.tls = s.tls :=
  ⟨h.auth, h.tls⟩

/-- The commands behind the login leave the credentials and the connection alone. -/
theorem dispatchAuthenticated_auth (command : Command) :
    (s.dispatchAuthenticated views tag command).1.auth = s.auth ∧
      (s.dispatchAuthenticated views tag command).1.tls = s.tls := by
  cases hselects : selects command with
  | false =>
    have hsame := s.dispatchAuthenticated_connection views tag command hselects
    exact ⟨congrArg (fun t : Session Unit => t.auth) hsame,
      congrArg (fun t : Session Unit => t.tls) hsame⟩
  | true =>
    cases command with
    | select mailbox qresync condstore => exact (s.quiet_cmdSelect tag mailbox _ _ _).login
    | examine mailbox qresync condstore => exact (s.quiet_cmdSelect tag mailbox _ _ _).login
    | close => exact ⟨rfl, rfl⟩
    | unselect => exact ⟨rfl, rfl⟩
    | _ => cases hselects

end Behind

/-- Nobody logged in, and nothing is set that only a login gives access to. -/
structure Anonymous (s : Session σ) : Prop where
  identity : s.identity = none
  selected : s.selected = none
  idleTag : s.idleTag = none

theorem anonymous_new [MailStore σ] (store : σ) (auth : Authenticator) (tls : Bool) :
    (new store auth tls).Anonymous := ⟨rfl, rfl, rfl⟩

/-- Some verification succeeded. -/
def Proven (s : Session σ) : Prop := ∃ q ∈ s.auth.asked, q.succeeded = true

/-- Questions are only added, a connection stays secured, and nobody logs in without a question
that succeeds. -/
structure Advances (s s' : Session σ) : Prop where
  asked : s.auth.asked <+: s'.auth.asked
  tls : s.tls = true → s'.tls = true
  anonymous : s.Anonymous → s'.Proven ∨ s'.Anonymous

section Advances
variable {s s' s'' : Session σ}

theorem Proven.mono (h : s.Proven) (hasked : s.auth.asked <+: s'.auth.asked) : s'.Proven := by
  obtain ⟨q, hq, hsucceeded⟩ := h
  exact ⟨q, hasked.subset hq, hsucceeded⟩

theorem Advances.trans (h : Advances s s') (h' : Advances s' s'') : Advances s s'' where
  asked := h.asked.trans h'.asked
  tls := fun hs => h'.tls (h.tls hs)
  anonymous := by
    intro hs
    rcases h.anonymous hs with hproven | hanonymous
    · exact Or.inl (hproven.mono h'.asked)
    · exact h'.anonymous hanonymous

/-- A step that asks nothing. -/
theorem advances_of_auth_eq (hauth : s'.auth = s.auth) (htls : s.tls = true → s'.tls = true)
    (h : s.Anonymous → s'.Anonymous) : Advances s s' where
  asked := by rw [hauth]
  tls := htls
  anonymous := fun hs => Or.inr (h hs)

theorem Advances.refl (s : Session σ) : Advances s s := advances_of_auth_eq rfl id id

/-- A step that asks for a verification. -/
theorem advances_of_verify {user pass : String} {answer : Option Bytes} {auth : Consulted}
    (hverify : s.auth.verify user pass = (answer, auth)) (hauth : s'.auth = auth)
    (htls : s'.tls = s.tls) (h : answer = none → s.Anonymous → s'.Anonymous) : Advances s s' := by
  obtain ⟨rfl, rfl⟩ := Prod.mk.inj hverify
  constructor
  · rw [hauth]
    exact List.prefix_append _ _
  · rw [htls]
    exact id
  · intro hs
    cases hanswer : s.auth.auth.verify user pass with
    | none => exact Or.inr (h hanswer hs)
    | some id =>
      left
      refine ⟨.verify user pass (some id), ?_, rfl⟩
      rw [hauth, ← hanswer]
      exact List.mem_append_right _ (List.mem_singleton_self _)

end Advances

/-- What the commands open to everyone write: the flags of the connection, and what a verification
answers. -/
inductive OpenStep (s : Session σ) : Session σ → Prop
  | settle (tls : Bool) (state : State) (condstore qresync : Bool) (pending : Option Pending)
      (htls : s.tls = true → tls = true) :
      OpenStep s { s with
        tls := tls
        state := state
        condstore := condstore
        qresync := qresync
        pending := pending }
  | refuse {user pass : String} {auth : Consulted}
      (hverify : s.auth.verify user pass = (none, auth)) : OpenStep s { s with auth := auth }
  | accept {user pass : String} {id : Bytes} {auth : Consulted}
      (hverify : s.auth.verify user pass = (some id, auth)) :
      OpenStep s { s with auth := auth, identity := some id, state := .authenticated }

section OpenStep
variable {s s' : Session σ}

theorem OpenStep.pending (s : Session σ) (pending : Option Pending) :
    OpenStep s { s with pending := pending } :=
  OpenStep.settle s.tls s.state s.condstore s.qresync pending id

theorem OpenStep.refl (s : Session σ) : OpenStep s s := OpenStep.pending s s.pending

theorem OpenStep.store (h : OpenStep s s') : s'.store = s.store := by
  cases h with
  | settle => rfl
  | refuse => rfl
  | accept => rfl

theorem OpenStep.advances (h : OpenStep s s') : Advances s s' := by
  cases h with
  | settle tls state condstore qresync pending htls =>
    exact advances_of_auth_eq rfl htls fun hs => ⟨hs.identity, hs.selected, hs.idleTag⟩
  | refuse hverify =>
    exact advances_of_verify hverify rfl rfl fun _ hs => ⟨hs.identity, hs.selected, hs.idleTag⟩
  | accept hverify => exact advances_of_verify hverify rfl rfl fun h => nomatch h

end OpenStep

section Gate
variable (s : Session σ) (tag : String)

theorem openStep_cmdLogin (user pass : String) : OpenStep s (s.cmdLogin tag user pass).1 := by
  unfold cmdLogin
  by_cases htls : (!s.tls) = true
  · rw [if_pos htls]
    exact OpenStep.refl s
  · rw [if_neg htls]
    rcases hverify : s.auth.verify user pass with ⟨answer, auth⟩
    cases answer with
    | none => exact OpenStep.refuse hverify
    | some id => exact OpenStep.accept hverify

theorem openStep_finishCredentials (user pass : String) :
    OpenStep s (s.finishCredentials tag user pass).1 := by
  unfold finishCredentials
  rcases hverify : s.auth.verify user pass with ⟨answer, auth⟩
  cases answer with
  | none => exact OpenStep.refuse hverify
  | some id => exact OpenStep.accept hverify

theorem openStep_finishPlain (ir : String) : OpenStep s (s.finishPlain tag ir).1 := by
  unfold finishPlain
  cases decodePlain ir with
  | none => exact OpenStep.refl s
  | some cred => exact s.openStep_finishCredentials tag cred.authcid cred.password

theorem openStep_cmdAuthenticate (mechanism : String) (initial : Option String) :
    OpenStep s (s.cmdAuthenticate tag mechanism initial).1 := by
  unfold cmdAuthenticate
  cases SaslMechanism.parse mechanism with
  | none => exact OpenStep.refl s
  | some mech =>
    dsimp only
    by_cases htls : (!s.tls) = true
    · rw [if_pos htls]
      exact OpenStep.refl s
    · rw [if_neg htls]
      cases mech with
      | plain =>
        cases initial with
        | none => exact OpenStep.pending s _
        | some ir => exact s.openStep_finishPlain tag ir
      | login =>
        cases initial with
        | none => exact OpenStep.pending s _
        | some ir => exact OpenStep.pending s _

theorem openStep_continueSasl (pending : Pending) (buf : Bytes) :
    OpenStep s (s.continueSasl pending buf).1 := by
  unfold continueSasl
  cases pending with
  | plain tag => exact s.openStep_finishPlain tag _
  | loginUser tag => exact OpenStep.pending s _
  | loginPass tag user => exact s.openStep_finishCredentials tag user _

theorem enableOne_flags (acc : Session σ × List String) (c : String) :
    ∃ condstore qresync, (enableOne acc c).1 =
      { acc.1 with condstore := condstore, qresync := qresync } := by
  unfold enableOne
  split
  all_goals exact ⟨_, _, rfl⟩

theorem foldl_enableOne_flags (caps : List String) (acc : Session σ × List String) :
    ∃ condstore qresync, (caps.foldl enableOne acc).1 =
      { acc.1 with condstore := condstore, qresync := qresync } := by
  induction caps generalizing acc with
  | nil => exact ⟨_, _, rfl⟩
  | cons c caps ih =>
    obtain ⟨condstore, qresync, hc⟩ := enableOne_flags acc c
    obtain ⟨condstore', qresync', hrest⟩ := ih (enableOne acc c)
    rw [hc] at hrest
    exact ⟨condstore', qresync', hrest⟩

/-- ENABLE turns extensions on and changes nothing else. -/
theorem cmdEnable_flags (caps : List String) :
    ∃ condstore qresync, (s.cmdEnable tag caps).1 =
      { s with condstore := condstore, qresync := qresync } :=
  foldl_enableOne_flags caps (s, [])

theorem openStep_cmdEnable (caps : List String) : OpenStep s (s.cmdEnable tag caps).1 := by
  obtain ⟨condstore, qresync, heq⟩ := s.cmdEnable_flags tag caps
  rw [heq]
  exact OpenStep.settle s.tls s.state condstore qresync s.pending id

theorem advances_dispatchOpen (command : Command) {f : Unit → Session σ × List Reply}
    (h : Advances s (f ()).1) : Advances s (s.dispatchOpen tag command f).1 := by
  unfold dispatchOpen
  cases command with
  | enable caps => exact (s.openStep_cmdEnable tag caps).advances
  | login user pass => exact (s.openStep_cmdLogin tag user pass).advances
  | authenticate mechanism initial =>
    exact (s.openStep_cmdAuthenticate tag mechanism initial).advances
  | capability => exact Advances.refl s
  | noop => exact Advances.refl s
  | logout =>
    exact advances_of_auth_eq rfl id fun hs => ⟨hs.identity, hs.selected, hs.idleTag⟩
  | startTls =>
    exact advances_of_auth_eq rfl (fun _ => rfl) fun hs => ⟨hs.identity, hs.selected, hs.idleTag⟩
  | id params => exact Advances.refl s
  | namespaces => exact Advances.refl s
  | _ => exact h

variable [MailStore σ] (views : Views)

theorem selfHeal_of_selected {s : Session σ} (h : s.selected = none) : s.selfHeal = s := by
  unfold selfHeal
  rw [h]

theorem advances_dispatch (pc : ParsedCommand) : Advances s (s.dispatch views pc).1 := by
  have hheal : Advances s s.selfHeal :=
    advances_of_auth_eq s.quiet_selfHeal.auth (fun h => s.quiet_selfHeal.tls.trans h) fun hs =>
      (selfHeal_of_selected hs.selected).symm ▸ hs
  refine hheal.trans (advances_dispatchOpen _ _ _ ?_)
  by_cases hidentity : s.selfHeal.identity.isNone = true
  · rw [if_pos hidentity]
    exact Advances.refl _
  · rw [if_neg hidentity]
    obtain ⟨hauth, htls⟩ := dispatchAuthenticated_auth views s.selfHeal pc.tag pc.command
    refine advances_of_auth_eq hauth (fun h => htls.trans h) fun hs => ?_
    rw [hs.identity] at hidentity
    exact absurd rfl hidentity

theorem advances_process {s s' : Session σ} {buf : Bytes} {out : List Reply}
    (h : s.process views buf = some (s', out)) : Advances s s' := by
  apply process_cases (P := s.Advances) h
  · exact Advances.refl s
  · exact advances_of_auth_eq rfl id fun hs => ⟨hs.identity, hs.selected, rfl⟩
  · intro p _
    exact (OpenStep.pending s none).advances.trans
      (openStep_continueSasl { s with pending := none } p buf).advances
  · intro pc _
    exact s.advances_dispatch views pc

end Gate

section Runs
variable [MailStore σ] [MailStore τ] (views : Views) {s s' : Session σ} {out : List Reply}

theorem dispatch_withStore (hs : s.Anonymous) (t : τ) (pc : ParsedCommand) :
    (s.withStore t).dispatch views pc = relocate t (s.dispatch views pc) := by
  have hidentity : s.identity.isNone = true := by rw [hs.identity]; rfl
  have hgate : (if (s.withStore t).identity.isNone = true
        then (s.withStore t, [no pc.tag "Not authenticated"])
        else (s.withStore t).dispatchAuthenticated views pc.tag pc.command) =
      relocate t (if s.identity.isNone = true then (s, [no pc.tag "Not authenticated"])
        else s.dispatchAuthenticated views pc.tag pc.command) := by
    rw [if_pos hidentity]
    exact if_pos hidentity
  unfold dispatch
  rw [selfHeal_of_selected hs.selected,
    selfHeal_of_selected (show (s.withStore t).selected = none from hs.selected)]
  exact s.dispatchOpen_withStore t pc.tag pc.command hgate

/-- An anonymous session answers an input over another store as over its own. -/
theorem process_withStore (hs : s.Anonymous) (t : τ) (buf : Bytes) :
    (s.withStore t).process views buf = (s.process views buf).map (relocate t) := by
  unfold process
  have hidle : (s.withStore t).idleTag = none := hs.idleTag
  rw [hs.idleTag, hidle]
  dsimp only
  have hpending : (s.withStore t).pending = s.pending := rfl
  rw [hpending]
  cases s.pending with
  | some p =>
    have hcontinue := continueSasl_withStore { s with idleTag := none, pending := none } t p buf
    exact congrArg some hcontinue
  | none =>
    dsimp only
    cases parseCommand buf with
    | ok pc => exact congrArg some (dispatch_withStore views hs t pc)
    | error fault =>
      cases fault with
      | error e => rfl
      | _ => rfl

theorem process_store (hs : s.Anonymous) {buf : Bytes} (h : s.process views buf = some (s', out)) :
    s'.store = s.store := by
  have hsame := process_withStore views hs s.store buf
  rw [show s.withStore s.store = s from rfl, h] at hsame
  exact congrArg (fun r => r.1.store) (Option.some.inj hsame)

/-- Process inputs one after the other, with the bytes sent for each. -/
def run (views : Views) (s : Session σ) : List Bytes → Option (Session σ × List Bytes)
  | [] => some (s, [])
  | buf :: inputs => do
    let (s, out) ← s.process views buf
    let (s, outs) ← run views s inputs
    some (s, wire out :: outs)

variable {views} in
theorem run_cons {buf : Bytes} {inputs outs : List Bytes}
    (h : s.run views (buf :: inputs) = some (s', outs)) :
    ∃ s₁ out outs₁, s.process views buf = some (s₁, out) ∧
      s₁.run views inputs = some (s', outs₁) ∧ outs = wire out :: outs₁ := by
  obtain ⟨⟨s₁, out⟩, hprocess, hrest⟩ := Option.bind_eq_some_iff.mp h
  obtain ⟨⟨s₂, outs₁⟩, hrun, heq⟩ := Option.bind_eq_some_iff.mp hrest
  obtain ⟨rfl, rfl⟩ := Prod.mk.inj (Option.some.inj heq)
  exact ⟨s₁, out, outs₁, hprocess, hrun, rfl⟩

variable {views} in
/-- What every input preserves, a run preserves. -/
theorem run_invariant {P : Session σ → Prop} {inputs outs : List Bytes}
    (hstep : ∀ {t t' : Session σ} {buf : Bytes} {out : List Reply},
      t.process views buf = some (t', out) → P t → P t')
    (h : s.run views inputs = some (s', outs)) (hs : P s) : P s' := by
  induction inputs generalizing s outs with
  | nil =>
    obtain ⟨rfl, -⟩ := Prod.mk.inj (Option.some.inj h)
    exact hs
  | cons buf inputs ih =>
    obtain ⟨s₁, out, outs₁, hprocess, hrun, -⟩ := run_cons h
    exact ih hrun (hstep hprocess hs)

theorem advances_run {inputs outs : List Bytes} (h : s.run views inputs = some (s', outs)) :
    Advances s s' :=
  run_invariant (fun hprocess ht => ht.trans (advances_process views hprocess)) h (Advances.refl s)

section Reaches
variable {t : Session σ}

/-- Some inputs lead from one session to another. -/
def Reaches (s : Session σ) (inputs : List Bytes) (t : Session σ) : Prop :=
  ∃ outs, s.run views inputs = some (t, outs)

theorem reaches_nil : s.Reaches views [] t ↔ t = s := by
  constructor
  · rintro ⟨outs, h⟩
    exact (Prod.mk.inj (Option.some.inj h)).1.symm
  · rintro rfl
    exact ⟨[], rfl⟩

theorem reaches_cons {buf : Bytes} {inputs : List Bytes} :
    s.Reaches views (buf :: inputs) t ↔
      ∃ u out, s.process views buf = some (u, out) ∧ u.Reaches views inputs t := by
  constructor
  · rintro ⟨outs, h⟩
    obtain ⟨u, out, outs₁, hprocess, hrun, -⟩ := run_cons h
    exact ⟨u, out, hprocess, outs₁, hrun⟩
  · rintro ⟨u, out, hprocess, outs₁, hrun⟩
    refine ⟨wire out :: outs₁, ?_⟩
    unfold run
    rw [hprocess]
    change ((u.run views inputs).bind fun r => some (r.1, wire out :: r.2)) = _
    rw [hrun]
    rfl

theorem reaches_append {inputs inputs' : List Bytes} :
    s.Reaches views (inputs ++ inputs') t ↔
      ∃ u, s.Reaches views inputs u ∧ u.Reaches views inputs' t := by
  induction inputs generalizing s with
  | nil =>
    constructor
    · exact fun h => ⟨s, (reaches_nil views).mpr rfl, h⟩
    · rintro ⟨u, hu, h⟩
      rw [(reaches_nil views).mp hu] at h
      exact h
  | cons buf inputs ih =>
    rw [List.cons_append]
    constructor
    · intro h
      obtain ⟨v, out, hprocess, hv⟩ := (reaches_cons views).mp h
      obtain ⟨u, hu, ht⟩ := ih.mp hv
      exact ⟨u, (reaches_cons views).mpr ⟨v, out, hprocess, hu⟩, ht⟩
    · rintro ⟨u, hu, ht⟩
      obtain ⟨v, out, hprocess, hv⟩ := (reaches_cons views).mp hu
      exact (reaches_cons views).mpr ⟨v, out, hprocess, ih.mpr ⟨u, hv, ht⟩⟩

end Reaches

/-- Along a run in which no verification succeeds, nothing depends on the store, and nothing
changes it. -/
theorem run_withStore {inputs outs : List Bytes} (hs : s.Anonymous)
    (h : s.run views inputs = some (s', outs)) (hproven : ¬s'.Proven) (t : τ) :
    (s.withStore t).run views inputs = some (s'.withStore t, outs) ∧ s'.store = s.store ∧
      s'.Anonymous := by
  induction inputs generalizing s outs with
  | nil =>
    obtain ⟨rfl, rfl⟩ := Prod.mk.inj (Option.some.inj h)
    exact ⟨rfl, rfl, hs⟩
  | cons buf inputs ih =>
    obtain ⟨s₁, out, outs₁, hprocess, hrun, rfl⟩ := run_cons h
    have hs₁ : s₁.Anonymous := by
      rcases (advances_process views hprocess).anonymous hs with hproven₁ | hs₁
      · exact absurd (hproven₁.mono (advances_run views hrun).asked) hproven
      · exact hs₁
    obtain ⟨hrun', hstore, hs'⟩ := ih hs₁ hrun
    have hprocess' := process_withStore views hs t buf
    rw [hprocess] at hprocess'
    refine ⟨?_, hstore.trans (process_store views hs hprocess), hs'⟩
    unfold run
    rw [hprocess']
    change (((s₁.withStore t).run views inputs).bind fun r => some (r.1, wire out :: r.2)) = _
    rw [hrun']
    rfl

/-- Two sessions over any two stores, with one authenticator, that receive the same inputs: as
long as no verification succeeds they send the same bytes and leave both stores as they were, and
their next answers are the same too. -/
theorem run_blind_before_login (auth : Authenticator) (tls : Bool) (store : σ)
    (store' : τ) (inputs : List Bytes) {s : Session σ} {outs : List Bytes}
    (h : (new store auth tls).run views inputs = some (s, outs))
    (hproven : ∀ q ∈ s.auth.asked, q.succeeded = false) :
    ∃ s' : Session τ, (new store' auth tls).run views inputs = some (s', outs) ∧
      s.store = store ∧ s'.store = store' ∧ s'.auth.asked = s.auth.asked ∧
      ∀ buf, (s'.process views buf).map (fun r => wire r.2) =
        (s.process views buf).map fun r => wire r.2 := by
  have hnot : ¬s.Proven := by
    rintro ⟨q, hq, hsucceeded⟩
    rw [hproven q hq] at hsucceeded
    cases hsucceeded
  obtain ⟨hrun, hstore, hanonymous⟩ :=
    run_withStore views (anonymous_new store auth tls) h hnot store'
  refine ⟨s.withStore store', hrun, hstore, rfl, rfl, fun buf => ?_⟩
  rw [process_withStore views hanonymous, Option.map_map]
  rfl

end Runs

/-- A refused login and a command behind it, over two different stores. -/
theorem run_blind_before_login_refused :
    ((new MemoryStore.new (.issued "alice" "pw" [1]) true).run .blank
        [utf8 "a LOGIN alice guess\r\n", utf8 "b SELECT INBOX\r\n"]).map Prod.snd =
      ((new MemoryStore.empty (.issued "alice" "pw" [1]) true).run .blank
        [utf8 "a LOGIN alice guess\r\n", utf8 "b SELECT INBOX\r\n"]).map Prod.snd := by
  have hasked : ((new MemoryStore.new (.issued "alice" "pw" [1]) true).run .blank
      [utf8 "a LOGIN alice guess\r\n", utf8 "b SELECT INBOX\r\n"]).map
        (fun r => r.1.auth.asked) = some [.verify "alice" "guess" none] := by decide +kernel
  obtain ⟨⟨s, outs⟩, hrun, hs⟩ := Option.map_eq_some_iff.mp hasked
  obtain ⟨s', hrun', -⟩ := run_blind_before_login .blank (.issued "alice" "pw" [1]) true
    MemoryStore.new MemoryStore.empty _ hrun (by rw [hs]; decide)
  rw [hrun, hrun']
  rfl

end Dmtap.Mail.Imap.Session
