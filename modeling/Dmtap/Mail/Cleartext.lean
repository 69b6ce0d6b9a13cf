import Dmtap.Mail.Imap.Login
import Dmtap.Mail.Pop3
import Dmtap.Mail.Smtp

/-! Sessions that never get a secured connection. IMAP and SMTP submission refuse every login on
them before they ask the authenticator; POP3 asks it all the same. -/
namespace Dmtap.Mail
open Lib

section Imap
namespace Imap.Session
variable {σ : Type} {s s' : Session σ}

/-- Nobody logged in, no login is under way, and the authenticator was never asked. -/
structure Untouched (s : Session σ) : Prop where
  anonymous : s.Anonymous
  pending : s.pending = none
  asked : s.auth.asked = []

theorem untouched_cmdEnable (hs : s.Untouched) (tag : String) (caps : List String) :
    (s.cmdEnable tag caps).1.Untouched := by
  obtain ⟨condstore, qresync, heq⟩ := s.cmdEnable_flags tag caps
  obtain ⟨hanonymous, hpending, hasked⟩ := hs
  rw [heq]
  exact ⟨⟨hanonymous.1, hanonymous.2, hanonymous.3⟩, hpending, hasked⟩

theorem cmdLogin_of_cleartext (htls : s.tls = false) (tag user pass : String) :
    (s.cmdLogin tag user pass).1 = s := by
  unfold cmdLogin
  rw [htls]
  rfl

theorem cmdAuthenticate_of_cleartext (htls : s.tls = false) (tag mechanism : String)
    (initial : Option String) : (s.cmdAuthenticate tag mechanism initial).1 = s := by
  unfold cmdAuthenticate
  cases SaslMechanism.parse mechanism with
  | none => rfl
  | some mech =>
    dsimp only
    rw [htls]
    rfl

variable [MailStore σ] (views : Views)

theorem untouched_dispatch (hs : s.Untouched) (htls : s.tls = false) (pc : ParsedCommand) :
    (s.dispatch views pc).1.tls = true ∨ (s.dispatch views pc).1.Untouched := by
  have hidentity : s.identity.isNone = true := by
    rw [hs.anonymous.identity]
    rfl
  unfold dispatch
  rw [selfHeal_of_selected hs.anonymous.selected]
  dsimp only
  rw [if_pos hidentity]
  unfold dispatchOpen
  obtain ⟨tag, command⟩ := pc
  cases command with
  | startTls => exact Or.inl rfl
  | enable caps => exact Or.inr (untouched_cmdEnable hs tag caps)
  | login user pass =>
    right
    dsimp only
    rw [cmdLogin_of_cleartext htls]
    exact hs
  | authenticate mechanism initial =>
    right
    dsimp only
    rw [cmdAuthenticate_of_cleartext htls]
    exact hs
  | logout =>
    obtain ⟨hanonymous, hpending, hasked⟩ := hs
    exact Or.inr ⟨⟨hanonymous.1, hanonymous.2, hanonymous.3⟩, hpending, hasked⟩
  | _ => exact Or.inr hs

/-- A session stays untouched until its connection is secured. -/
theorem untouched_process {buf : Bytes} {out : List Reply}
    (h : s.process views buf = some (s', out)) (hs : s.tls = true ∨ s.Untouched) :
    s'.tls = true ∨ s'.Untouched := by
  cases htls : s.tls with
  | true => exact Or.inl ((advances_process views h).tls htls)
  | false =>
    have huntouched : s.Untouched := hs.resolve_left (by rw [htls]; exact Bool.false_ne_true)
    apply process_cases (P := fun t => t.tls = true ∨ t.Untouched) h
    · exact hs
    · obtain ⟨hanonymous, hpending, hasked⟩ := huntouched
      exact Or.inr ⟨⟨hanonymous.1, hanonymous.2, rfl⟩, hpending, hasked⟩
    · intro p hp
      rw [huntouched.pending] at hp
      cases hp
    · intro pc _
      exact untouched_dispatch views huntouched htls pc

theorem untouched_run {inputs outs : List Bytes} (hs : s.Untouched)
    (h : s.run views inputs = some (s', outs)) (htls : s'.tls = false) : s'.Untouched := by
  have hkept : s'.tls = true ∨ s'.Untouched :=
    run_invariant (untouched_process views) h (Or.inr hs)
  exact hkept.resolve_left (by rw [htls]; exact Bool.false_ne_true)

end Imap.Session
end Imap

section Smtp
namespace Smtp.Session
variable {s s' : Session}

/-- What a login could change. -/
def login (s : Session) : Consulted × Bool × Option Bytes × Option PendingAuth :=
  (s.auth, s.tls, s.authed, s.pendingAuth)

/-- Nobody logged in, no login is under way, and the authenticator was never asked. -/
structure Untouched (s : Session) : Prop where
  authed : s.authed = none
  pending : s.pendingAuth = none
  asked : s.auth.asked = []

theorem Untouched.of_login (hs : s.Untouched) (h : s'.login = s.login) : s'.Untouched := by
  obtain ⟨hauth, -, hauthed, hpending⟩ : s'.auth = s.auth ∧ s'.tls = s.tls ∧
      s'.authed = s.authed ∧ s'.pendingAuth = s.pendingAuth := by
    simpa [login] using h
  exact ⟨hauthed.trans hs.authed, hpending.trans hs.pending, by rw [hauth, hs.asked]⟩

theorem feedDataLine_login (s : Session) (line : Bytes) :
    (s.feedDataLine line).1.login = s.login := by
  unfold feedDataLine
  dsimp only
  split_ifs
  all_goals rfl

theorem cmdMail_login {rest text : String} (h : s.cmdMail rest = some (s', text)) :
    s'.login = s.login := by
  unfold cmdMail at h
  by_cases hauthed : (s.requireAuth && s.authed.isNone) = true
  · rw [if_pos hauthed] at h
    cases h
    rfl
  · rw [if_neg hauthed] at h
    split at h
    · cases h
    · cases h
      rfl
    · split_ifs at h
      · cases h
        rfl
      · cases h
        rfl

theorem cmdRcpt_login {rest text : String} (h : s.cmdRcpt rest = some (s', text)) :
    s'.login = s.login := by
  unfold cmdRcpt at h
  split_ifs at h
  · cases h
    rfl
  · split at h
    · cases h
    · cases h
      rfl
    · cases h
      rfl

theorem cmdData_login (s : Session) : s.cmdData.1.login = s.login := by
  unfold cmdData
  split_ifs
  all_goals rfl

theorem ehlo_login (s : Session) (domain : String) (esmtp : Bool) :
    (s.ehlo domain esmtp).1.login = s.login := by
  unfold ehlo
  dsimp only
  split_ifs
  all_goals rfl

theorem finishCredentials_tls (s : Session) (user pass : String) :
    (s.finishCredentials user pass).1.tls = s.tls := by
  unfold finishCredentials
  rcases s.auth.verify user pass with ⟨answer, auth⟩
  cases answer with
  | none => rfl
  | some id => rfl

theorem finishPlain_tls (s : Session) (ir : String) : (s.finishPlain ir).1.tls = s.tls := by
  unfold finishPlain
  cases decodePlain ir with
  | none => rfl
  | some cred => exact s.finishCredentials_tls cred.authcid cred.password

theorem continueAuth_tls (s : Session) (p : PendingAuth) (line : String) :
    (s.continueAuth p line).1.tls = s.tls := by
  unfold continueAuth
  cases p with
  | plain =>
    dsimp only
    rw [finishPlain_tls]
  | loginUser => rfl
  | loginPass user =>
    dsimp only
    rw [finishCredentials_tls]

theorem cmdAuth_tls (s : Session) (rest : String) : (s.cmdAuth rest).1.tls = s.tls := by
  unfold cmdAuth
  split_ifs
  · rfl
  · rfl
  · dsimp only
    split
    · split
      · rw [finishPlain_tls]
      · rfl
    · rfl
    · rfl

/-- Without a secured connection AUTH changes nothing. -/
theorem cmdAuth_of_cleartext (htls : s.tls = false) (rest : String) : (s.cmdAuth rest).1 = s := by
  unfold cmdAuth
  rw [htls]
  split_ifs
  · rfl
  · rfl
  · rename_i h
    exact absurd rfl h

/-- What a line can do to a session: continue or start a login, secure the connection, or
neither. -/
theorem feedLineBytes_cases {P : Session → Prop} {line : Bytes} {text : String}
    (h : s.feedLineBytes line = some (s', text)) (hlogin : ∀ t, t.login = s.login → P t)
    (hsecure : P { s with tls := true })
    (hpending : ∀ p line, s.pendingAuth = some p →
      P ({ s with pendingAuth := none }.continueAuth p line).1)
    (hauth : ∀ rest, P (s.cmdAuth rest).1) : P s' := by
  have hsome : ∀ {r : Session × String}, P r.1 → some r = some (s', text) → P s' := by
    intro r hr heq
    rw [Option.some.inj heq] at hr
    exact hr
  unfold feedLineBytes at h
  by_cases hdata : s.phase = .data
  · rw [if_pos hdata] at h
    exact hsome (hlogin _ (s.feedDataLine_login line)) h
  · rw [if_neg hdata] at h
    dsimp only at h
    split at h
    case h_1 p hp => exact hsome (hpending p _ hp) h
    case h_2 =>
      split at h
      case h_1 => exact hsome (hlogin _ (s.ehlo_login _ _)) h
      case h_2 => exact hsome (hlogin _ (s.ehlo_login _ _)) h
      case h_3 => exact hsome hsecure h
      case h_4 => exact hsome (hauth _) h
      case h_5 => exact hlogin _ (cmdMail_login h)
      case h_6 => exact hlogin _ (cmdRcpt_login h)
      case h_7 => exact hsome (hlogin _ s.cmdData_login) h
      all_goals exact hsome (hlogin _ rfl) h

theorem tls_feedLineBytes {line : Bytes} {text : String}
    (h : s.feedLineBytes line = some (s', text)) (htls : s.tls = true) : s'.tls = true := by
  apply feedLineBytes_cases (P := fun t => t.tls = true) h
  · intro t ht
    exact (congrArg (fun l => l.2.1) ht).trans htls
  · rfl
  · intro p line _
    rw [continueAuth_tls]
    exact htls
  · intro rest
    rw [cmdAuth_tls]
    exact htls

/-- What the owner of a session can do with it. -/
inductive Input where
  | greeting
  | setMaxSize (max : ℕ)
  | takeSubmissions
  | line (bytes : Bytes)
  deriving DecidableEq

def feed (s : Session) : Input → Option (Session × String)
  | .greeting => some s.greeting
  | .setMaxSize max => some (s.setMaxSize max, "")
  | .takeSubmissions => some (s.takeSubmissions.1, "")
  | .line bytes => s.feedLineBytes bytes

theorem tls_feed {input : Input} {text : String} (h : s.feed input = some (s', text))
    (htls : s.tls = true) : s'.tls = true := by
  cases input with
  | greeting =>
    cases h
    exact htls
  | setMaxSize max =>
    cases h
    exact htls
  | takeSubmissions =>
    cases h
    exact htls
  | line bytes => exact tls_feedLineBytes h htls

/-- A session stays untouched until its connection is secured. -/
theorem untouched_feed {input : Input} {text : String} (h : s.feed input = some (s', text))
    (hs : s.tls = true ∨ s.Untouched) : s'.tls = true ∨ s'.Untouched := by
  cases htls : s.tls with
  | true => exact Or.inl (tls_feed h htls)
  | false =>
    have huntouched : s.Untouched := hs.resolve_left (by rw [htls]; exact Bool.false_ne_true)
    have hquiet : ∀ t : Session, t.login = s.login → t.tls = true ∨ t.Untouched := fun t ht =>
      Or.inr (huntouched.of_login ht)
    cases input with
    | greeting =>
      cases h
      exact hquiet _ rfl
    | setMaxSize max =>
      cases h
      exact hquiet _ rfl
    | takeSubmissions =>
      cases h
      exact hquiet _ rfl
    | line bytes =>
      apply feedLineBytes_cases (P := fun t => t.tls = true ∨ t.Untouched) h
      · exact hquiet
      · exact Or.inl rfl
      · intro p line hp
        rw [huntouched.pending] at hp
        cases hp
      · intro rest
        rw [cmdAuth_of_cleartext htls]
        exact hs

/-- Feed inputs one after the other, with the reply to each. -/
def run (s : Session) : List Input → Option (Session × List String)
  | [] => some (s, [])
  | input :: inputs => do
    let (s, text) ← s.feed input
    let (s, texts) ← run s inputs
    some (s, text :: texts)

theorem run_cons {input : Input} {inputs : List Input} {texts : List String}
    (h : s.run (input :: inputs) = some (s', texts)) :
    ∃ s₁ text texts₁, s.feed input = some (s₁, text) ∧ s₁.run inputs = some (s', texts₁) := by
  obtain ⟨⟨s₁, text⟩, hfeed, hrest⟩ := Option.bind_eq_some_iff.mp h
  obtain ⟨⟨s₂, texts₁⟩, hrun, heq⟩ := Option.bind_eq_some_iff.mp hrest
  obtain ⟨rfl, -⟩ := Prod.mk.inj (Option.some.inj heq)
  exact ⟨s₁, text, texts₁, hfeed, hrun⟩

/-- What every input preserves, a run preserves. -/
theorem run_invariant {P : Session → Prop} {inputs : List Input} {texts : List String}
    (hstep : ∀ {t t' : Session} {input : Input} {text : String},
      t.feed input = some (t', text) → P t → P t')
    (h : s.run inputs = some (s', texts)) (hs : P s) : P s' := by
  induction inputs generalizing s texts with
  | nil =>
    obtain ⟨rfl, -⟩ := Prod.mk.inj (Option.some.inj h)
    exact hs
  | cons input inputs ih =>
    obtain ⟨s₁, text, texts₁, hfeed, hrun⟩ := run_cons h
    exact ih hrun (hstep hfeed hs)

theorem untouched_run {inputs : List Input} {texts : List String} (hs : s.Untouched)
    (h : s.run inputs = some (s', texts)) (htls : s'.tls = false) : s'.Untouched := by
  have hkept : s'.tls = true ∨ s'.Untouched := run_invariant untouched_feed h (Or.inr hs)
  exact hkept.resolve_left (by rw [htls]; exact Bool.false_ne_true)

end Smtp.Session
end Smtp

section Pop3
namespace Pop3.Session
variable {σ : Type}

/-- A step that asks the authenticator. -/
def Asks (s t : Session σ) : Prop := ∃ q more, t.auth.asked = s.auth.asked ++ q :: more

/-- A step that leaves the login as it is. -/
def Keeps (s t : Session σ) : Prop :=
  t.auth = s.auth ∧ t.state = s.state ∧ t.identity = s.identity

/-- A step that asks the authenticator if credentials are presented, and only then. -/
structure Answers (presented : Bool) (s t : Session σ) : Prop where
  asks : presented = true → Asks s t
  keeps : presented = false → Keeps s t

theorem Asks.answers {s t : Session σ} (h : Asks s t) : Answers true s t :=
  ⟨fun _ => h, fun hfalse => (nomatch hfalse)⟩

theorem Keeps.answers {s t : Session σ} (h : Keeps s t) : Answers false s t :=
  ⟨fun htrue => (nomatch htrue), fun _ => h⟩

theorem keeps_refl (s : Session σ) : Keeps s s := ⟨rfl, rfl, rfl⟩

variable [MailStore σ] (s : Session σ)

/-- The response that `AUTH PLAIN` carries on its line. -/
def plainResponse (rest : String) : Option String :=
  match splitWhitespace rest with
  | mech :: ir :: _ => if mech.toUpper = "PLAIN" then some ir else none
  | _ => none

/-- A line with credentials: the rest of a SASL exchange that decodes, PASS after USER, APOP with a
name and a digest, or AUTH PLAIN with a response that decodes. -/
def presents (line : String) : Bool :=
  if s.pendingSasl then (decodePlain (trim line)).isSome
  else
    let (verb, rest) := verbAndRest line
    s.state = .authorization &&
      ((verb = "PASS" && s.user.isSome) || (verb = "APOP" && 2 ≤ (splitWhitespace rest).length) ||
        (verb = "AUTH" && ((plainResponse rest).bind decodePlain).isSome))

theorem asks_checkCredentials (user pass refusal : String) :
    Asks s (s.checkCredentials user pass refusal).1 := by
  refine ⟨.verify user pass (s.auth.auth.verify user pass), [], ?_⟩
  unfold checkCredentials Consulted.verify
  dsimp only
  cases s.auth.auth.verify user pass with
  | none => rfl
  | some id => rfl

theorem answers_finishPlain (ir : String) :
    Answers (decodePlain ir).isSome s (s.finishPlain ir).1 := by
  unfold finishPlain
  cases decodePlain ir with
  | none => exact s.keeps_refl.answers
  | some cred => exact (s.asks_checkCredentials cred.authcid cred.password _).answers

theorem answers_pass (password : String) : Answers s.user.isSome s (s.pass password).1 := by
  unfold pass
  cases s.user with
  | none => exact s.keeps_refl.answers
  | some user => exact (s.asks_checkCredentials user password _).answers

theorem answers_apop (rest : String) :
    Answers (decide (2 ≤ (splitWhitespace rest).length)) s (s.apop rest).1 := by
  unfold apop
  match splitWhitespace rest with
  | [] => exact s.keeps_refl.answers
  | [_] => exact s.keeps_refl.answers
  | name :: digest :: more =>
    have hlength : decide (2 ≤ (name :: digest :: more).length) = true := by simp
    rw [hlength]
    refine Asks.answers ?_
    dsimp only
    unfold Consulted.secretFor
    dsimp only
    cases s.auth.auth.secretFor name with
    | none => exact ⟨.secretFor name none, [], rfl⟩
    | some secret =>
      dsimp only
      split_ifs
      · obtain ⟨q, more, hasked⟩ := asks_checkCredentials { s with
          auth := ⟨s.auth.auth, s.auth.asked ++ [.secretFor name (some secret)]⟩ }
          name secret "-ERR [AUTH] APOP failed\r\n"
        refine ⟨.secretFor name (some secret), q :: more, hasked.trans ?_⟩
        exact List.append_assoc _ _ _
      · exact ⟨.secretFor name (some secret), [], rfl⟩

theorem answers_authCmd (rest : String) :
    Answers ((plainResponse rest).bind decodePlain).isSome s (s.authCmd rest).1 := by
  unfold authCmd plainResponse
  match splitWhitespace rest with
  | [] => exact s.keeps_refl.answers
  | [mech] =>
    refine Keeps.answers ?_
    dsimp only
    split_ifs
    · exact ⟨rfl, rfl, rfl⟩
    · exact ⟨rfl, rfl, rfl⟩
  | mech :: ir :: _ =>
    dsimp only
    by_cases hmech : mech.toUpper = "PLAIN"
    · rw [if_pos hmech, if_pos hmech, Option.bind_some]
      exact s.answers_finishPlain ir
    · rw [if_neg hmech, if_neg hmech]
      exact s.keeps_refl.answers

omit [MailStore σ] in
theorem keeps_dele (rest : String) : Keeps s (s.dele rest).1 := by
  unfold dele
  cases s.indexOf rest with
  | none => exact s.keeps_refl
  | some i => exact ⟨rfl, rfl, rfl⟩

/-- A line asks the authenticator exactly when it presents credentials. -/
theorem answers_feedLineRaw (line : String) :
    Answers (s.presents line) s (s.feedLineRaw line).1 := by
  apply feedLineRaw_cases (P := fun t => Answers (s.presents line) s t)
  · intro hpending
    have hpresents : s.presents line = (decodePlain (trim line)).isSome := if_pos hpending
    have hplain := answers_finishPlain { s with pendingSasl := false } (trim line)
    rw [hpresents]
    exact ⟨hplain.asks, hplain.keeps⟩
  · intro hpending hstate
    refine ⟨fun hverb => ?_, fun hverb => ?_, fun hverb => ?_⟩
    · have hpresents : s.presents line = s.user.isSome := by
        simp [presents, hpending, hstate, hverb]
      rw [hpresents]
      exact s.answers_pass _
    · have hpresents : s.presents line =
          decide (2 ≤ (splitWhitespace (verbAndRest line).2).length) := by
        simp [presents, hpending, hstate, hverb]
      rw [hpresents]
      exact s.answers_apop _
    · have hpresents : s.presents line =
          ((plainResponse (verbAndRest line).2).bind decodePlain).isSome := by
        simp [presents, hpending, hstate, hverb]
      rw [hpresents]
      exact s.answers_authCmd _
  · intro hpending hverb
    have hpresents : s.presents line = false := by
      simp only [presents, hpending]
      cases hstate : s.state with
      | transaction => simp
      | authorization =>
        have hnot := hverb hstate
        simp only [List.mem_cons, List.not_mem_nil, or_false, not_or] at hnot
        simp [hnot.1, hnot.2.1, hnot.2.2]
    rw [hpresents]
    have hkeeps : ∀ {t : Session σ}, Keeps s t → Answers false s t := Keeps.answers
    exact ⟨hkeeps ⟨rfl, rfl, rfl⟩, hkeeps ⟨rfl, rfl, rfl⟩, hkeeps ⟨rfl, rfl, rfl⟩,
      hkeeps ⟨rfl, rfl, rfl⟩, hkeeps (s.keeps_dele _), hkeeps ⟨rfl, rfl, rfl⟩⟩

/-- Feed lines one after the other. -/
def run (s : Session σ) : List String → Session σ
  | [] => s
  | line :: lines => run (s.feedLineRaw line).1 lines

/-- Some line of a run presents credentials. -/
def runPresents (s : Session σ) : List String → Bool
  | [] => false
  | line :: lines => s.presents line || runPresents (s.feedLineRaw line).1 lines

theorem asked_prefix_run (lines : List String) : s.auth.asked <+: (s.run lines).auth.asked := by
  induction lines generalizing s with
  | nil => exact List.prefix_rfl
  | cons line lines ih =>
    refine List.IsPrefix.trans ?_ (ih (s.feedLineRaw line).1)
    have hanswers := s.answers_feedLineRaw line
    cases hpresents : s.presents line with
    | true =>
      obtain ⟨q, more, hasked⟩ := hanswers.asks hpresents
      exact ⟨_, hasked.symm⟩
    | false =>
      rw [(hanswers.keeps hpresents).1]

/-- A run that presents no credentials leaves the login as it is; any other asks the
authenticator. -/
theorem answers_run (lines : List String) : Answers (s.runPresents lines) s (s.run lines) := by
  induction lines generalizing s with
  | nil => exact s.keeps_refl.answers
  | cons line lines ih =>
    have hstep := s.answers_feedLineRaw line
    have hrest := ih (s.feedLineRaw line).1
    change Answers (s.presents line || (s.feedLineRaw line).1.runPresents lines) s
      ((s.feedLineRaw line).1.run lines)
    cases hpresents : s.presents line with
    | true =>
      obtain ⟨q, more, hasked⟩ := hstep.asks hpresents
      obtain ⟨later, hlater⟩ := (s.feedLineRaw line).1.asked_prefix_run lines
      refine Asks.answers ⟨q, more ++ later, ?_⟩
      rw [← hlater, hasked, List.append_assoc, List.cons_append]
    | false =>
      obtain ⟨hauth, hstate, hidentity⟩ := hstep.keeps hpresents
      rw [Bool.false_or]
      constructor
      · intro hlater
        obtain ⟨q, more, hasked⟩ := hrest.asks hlater
        exact ⟨q, more, by rw [hasked, hauth]⟩
      · intro hlater
        obtain ⟨hauth', hstate', hidentity'⟩ := hrest.keeps hlater
        exact ⟨hauth'.trans hauth, hstate'.trans hstate, hidentity'.trans hidentity⟩

end Pop3.Session
end Pop3

/-- On connections that are never secured, IMAP and SMTP submission sessions never ask the
authenticator, and nobody logs in. A POP3 session keeps to that exactly as long as no line presents
credentials. -/
theorem no_login_in_cleartext {σ : Type} [MailStore σ] (views : Imap.Views) (auth : Authenticator)
    (store : σ) :
    (∀ inputs s outs, (Imap.Session.new store auth false).run views inputs = some (s, outs) →
      s.tls = false → s.auth.asked = [] ∧ s.identity = none) ∧
    (∀ inputs s texts, (Smtp.Session.new auth false).run inputs = some (s, texts) →
      s.tls = false → s.auth.asked = [] ∧ s.authed = none) ∧
    ∀ lines, ((Pop3.Session.new store auth false).run lines).tls = false →
      (((Pop3.Session.new store auth false).run lines).auth.asked = [] ∧
          ((Pop3.Session.new store auth false).run lines).identity = none ↔
        (Pop3.Session.new store auth false).runPresents lines = false) := by
  refine ⟨?_, ?_, ?_⟩
  · intro inputs s outs hrun htls
    have hs := Imap.Session.untouched_run views
      ⟨Imap.Session.anonymous_new store auth false, rfl, rfl⟩ hrun htls
    exact ⟨hs.asked, hs.anonymous.identity⟩
  · intro inputs s texts hrun htls
    have hs := Smtp.Session.untouched_run ⟨rfl, rfl, rfl⟩ hrun htls
    exact ⟨hs.asked, hs.authed⟩
  · intro lines _
    have hanswers := (Pop3.Session.new store auth false).answers_run lines
    constructor
    · rintro ⟨hasked, -⟩
      by_contra hpresents
      obtain ⟨q, more, hlog⟩ := hanswers.asks (Bool.eq_true_of_not_eq_false hpresents)
      rw [hlog] at hasked
      cases hasked
    · intro hpresents
      obtain ⟨hauth, -, hidentity⟩ := hanswers.keeps hpresents
      exact ⟨by rw [hauth]; rfl, hidentity⟩

/-- A login is refused over IMAP and SMTP, and a POP3 session that only lists its capabilities asks
nothing. -/
theorem no_login_in_cleartext_refused :
    (((Imap.Session.new MemoryStore.new (.issued "alice" "pw" [1]) false).run .blank
        [utf8 "a LOGIN alice pw\r\n"]).map fun r => r.1.auth.asked) = some [] ∧
      (((Smtp.Session.new (.issued "alice" "pw" [1]) false).run
        [.greeting, .line (utf8 "AUTH PLAIN AGFsaWNlAHB3")]).map fun r => r.1.auth.asked) = some [] ∧
      ((Pop3.Session.new MemoryStore.new (.issued "alice" "pw" [1]) false).run
        ["CAPA"]).auth.asked = [] := by
  obtain ⟨himap, hsmtp, hpop3⟩ := no_login_in_cleartext .blank (.issued "alice" "pw" [1])
    MemoryStore.new
  have hinput : ((Imap.Session.new MemoryStore.new (.issued "alice" "pw" [1]) false).run .blank
      [utf8 "a LOGIN alice pw\r\n"]).map (fun r => r.1.tls) = some false := by decide +kernel
  have hline : ((Smtp.Session.new (.issued "alice" "pw" [1]) false).run
      [.greeting, .line (utf8 "AUTH PLAIN AGFsaWNlAHB3")]).map (fun r => r.1.tls) = some false := by decide +kernel
  obtain ⟨r, hrun, htls⟩ := Option.map_eq_some_iff.mp hinput
  obtain ⟨r', hrun', htls'⟩ := Option.map_eq_some_iff.mp hline
  refine ⟨?_, ?_, ((hpop3 ["CAPA"] (by decide +kernel)).mpr (by decide +kernel)).1⟩
  · rw [hrun, Option.map_some, (himap _ _ _ hrun htls).1]
  · rw [hrun', Option.map_some, (hsmtp _ _ _ hrun' htls').1]

/-- USER and PASS on a connection that was never secured: the authenticator is asked, and the
session is authenticated. -/
theorem pop3_login_in_cleartext :
    ((Pop3.Session.new MemoryStore.new (.issued "alice" "pw" [1]) false).run
        ["USER alice", "PASS pw"]).tls = false ∧
      ((Pop3.Session.new MemoryStore.new (.issued "alice" "pw" [1]) false).run
        ["USER alice", "PASS pw"]).auth.asked = [.verify "alice" "pw" (some [1])] ∧
      ((Pop3.Session.new MemoryStore.new (.issued "alice" "pw" [1]) false).run
        ["USER alice", "PASS pw"]).identity = some [1] := by
  decide +kernel

end Dmtap.Mail
