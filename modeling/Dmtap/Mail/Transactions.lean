import Dmtap.Mail.Smtp

/-! Mail transactions of an SMTP session. The lines fed to it are read as events, and everything a
submission holds is traced back to the events of one transaction. -/
namespace Dmtap.Mail.Smtp
open Lib

/-- What a line does in the dialogue, judged by the line and by the reply to it. -/
inductive Event where
  | authenticated
  | mail (sender : String) (ret : Option Ret) (envid : Option String)
  | rcpt (recipient : String) (notify : Option String)
  | data
  | content (line : Bytes)
  | queued
  | refused
  | reset
  | other
  deriving DecidableEq

namespace Event

/-- An event that neither opens nor ends a transaction. -/
def quiet : Event → Bool
  | authenticated => true
  | rcpt _ _ => true
  | other => true
  | _ => false

def recipient : Event → Option (String × Option String)
  | rcpt r notify => some (r, notify)
  | _ => none

end Event

def recipients (es : List Event) : List (String × Option String) := es.filterMap Event.recipient

/-- A content line as it is delivered: without the dot that was put in front of another. -/
def unstuff (line : Bytes) : Bytes := if line.head? = some 46 then line.tail else line

def written (contents : List Bytes) : Bytes := contents.flatMap fun line => unstuff line ++ [13, 10]

def loginEvent (reply : String) : Event :=
  if reply = "235 2.7.0 Authentication successful\r\n" then .authenticated else .other

def commandEvent (verb rest reply : String) : Event :=
  match verb with
  | "EHLO" => .reset
  | "HELO" => .reset
  | "RSET" => .reset
  | "AUTH" => loginEvent reply
  | "MAIL" =>
    if reply = "250 2.1.0 Sender OK\r\n" then
      .mail ((parsePathParam rest "FROM").join.getD "") ((paramValue rest "RET").bind Ret.parse)
        (paramValue rest "ENVID")
    else .other
  | "RCPT" =>
    if reply = "250 2.1.5 Recipient OK\r\n" then
      .rcpt ((parsePathParam rest "TO").join.getD "") (paramValue rest "NOTIFY")
    else .other
  | "DATA" => if reply = "354 End data with <CR><LF>.<CR><LF>\r\n" then .data else .other
  | _ => .other

namespace Session

def event (s : Session) (line : Bytes) (reply : String) : Event :=
  if s.phase = .data then
    if line = [46] then if reply = "250 2.0.0 OK: queued as MOTE\r\n" then .queued else .refused
    else .content line
  else if s.pendingAuth.isSome then loginEvent reply
  else
    commandEvent (verbAndRest (fromUtf8Lossy line)).1 (verbAndRest (fromUtf8Lossy line)).2 reply

/-- Feed lines one after the other, with the event of each. -/
def trace (s : Session) : List Bytes → Option (Session × List Event)
  | [] => some (s, [])
  | line :: lines => do
    let (t, reply) ← s.feedLineBytes line
    let (u, es) ← trace t lines
    some (u, s.event line reply :: es)

/-- What a login leaves alone. -/
def kept (s : Session) :=
  ((s.phase, s.requireAuth, s.maxSize), (s.mailFrom, s.rcptTo, s.dsnNotify, s.envid, s.ret),
    (s.dataBuf, s.dataOversized, s.submissions))

/-- How often the authenticator accepted a password. -/
def accepted (s : Session) : ℕ := s.auth.asked.countP Query.succeeded

/-- What an event does to a session. -/
inductive Does (s : Session) : Event → Session → Prop where
  | authenticated {t : Session} (hphase : s.phase ≠ .data) (ht : t.kept = s.kept)
    (haccepted : t.accepted = s.accepted + 1) : Does s .authenticated t
  | mail {sender : String} {ret : Option Ret} {envid : Option String} (hphase : s.phase ≠ .data)
    (hauthed : s.requireAuth = true → s.authed.isSome = true) :
    Does s (.mail sender ret envid)
      { s with ret := ret, envid := envid, mailFrom := some sender, rcptTo := [], dsnNotify := [] }
  | rcpt {recipient : String} {notify : Option String} (hphase : s.phase ≠ .data)
    (hmail : s.mailFrom.isSome = true) :
    Does s (.rcpt recipient notify)
      { s with rcptTo := s.rcptTo ++ [recipient], dsnNotify := s.dsnNotify ++ [notify] }
  | data (hphase : s.phase ≠ .data) (hmail : s.mailFrom.isSome = true) (hrcpt : s.rcptTo ≠ []) :
    Does s .data { s with phase := .data, dataBuf := [], dataOversized := false }
  | content {line : Bytes} (hphase : s.phase = .data) (hline : line ≠ [46]) :
    Does s (.content line) (s.feedDataLine line).1
  | queued (hphase : s.phase = .data) (hsize : s.dataOversized = false) :
    Does s .queued (s.feedDataLine [46]).1
  | refused (hphase : s.phase = .data) (hsize : s.dataOversized = true) :
    Does s .refused (s.feedDataLine [46]).1
  | reset (hphase : s.phase ≠ .data) : Does s .reset s.resetTxn
  | other {t : Session} (hphase : s.phase ≠ .data) (ht : t.kept = s.kept)
    (hauthed : t.authed = s.authed) (haccepted : t.accepted = s.accepted) : Does s .other t

section Steps

variable {s : Session}

/-- A login leaves the transaction alone, and success is replied when the authenticator accepts. -/
structure LogsIn (s : Session) (r : Session × String) : Prop where
  kept : r.1.kept = s.kept
  outcome : r.2 = "235 2.7.0 Authentication successful\r\n" ∧ r.1.accepted = s.accepted + 1 ∨
    r.2 ≠ "235 2.7.0 Authentication successful\r\n" ∧ r.1.authed = s.authed ∧
      r.1.accepted = s.accepted

theorem LogsIn.declined {t : Session} {reply : String}
    (hreply : reply ≠ "235 2.7.0 Authentication successful\r\n") (hkept : t.kept = s.kept)
    (hauthed : t.authed = s.authed) (haccepted : t.accepted = s.accepted) : LogsIn s (t, reply) :=
  ⟨hkept, .inr ⟨hreply, hauthed, haccepted⟩⟩

theorem logsIn_finishCredentials (s : Session) (user pass : String) :
    LogsIn s (s.finishCredentials user pass) := by
  have hasked (t : Session) (ht : t.auth = (s.auth.verify user pass).2) :
      t.accepted = s.accepted + if (s.auth.auth.verify user pass).isSome then 1 else 0 := by
    unfold accepted
    rw [ht]
    exact List.countP_append.trans (congrArg _ List.countP_singleton)
  unfold finishCredentials Consulted.verify
  unfold Consulted.verify at hasked
  dsimp only at hasked ⊢
  cases hanswer : s.auth.auth.verify user pass with
  | none =>
    rw [hanswer] at hasked
    exact .declined (by decide) rfl rfl (hasked _ rfl)
  | some id =>
    rw [hanswer] at hasked
    exact ⟨rfl, .inl ⟨rfl, hasked _ rfl⟩⟩

theorem logsIn_finishPlain (s : Session) (ir : String) : LogsIn s (s.finishPlain ir) := by
  unfold finishPlain
  cases decodePlain ir with
  | none => exact .declined (by decide) rfl rfl rfl
  | some cred => exact logsIn_finishCredentials s cred.authcid cred.password

theorem logsIn_continueAuth (s : Session) (p : PendingAuth) (line : String) :
    LogsIn s (s.continueAuth p line) := by
  unfold continueAuth
  cases p with
  | plain => exact logsIn_finishPlain s (trim line)
  | loginUser => exact .declined (by decide) rfl rfl rfl
  | loginPass user => exact logsIn_finishCredentials s user _

theorem logsIn_cmdAuth (s : Session) (rest : String) : LogsIn s (s.cmdAuth rest) := by
  unfold cmdAuth
  split_ifs
  · exact .declined (by decide) rfl rfl rfl
  · exact .declined (by decide) rfl rfl rfl
  · dsimp only
    split
    · split
      · exact logsIn_finishPlain s _
      · exact .declined (by decide) rfl rfl rfl
    · exact .declined (by decide) rfl rfl rfl
    · exact .declined (by decide) rfl rfl rfl

theorem LogsIn.does {r : Session × String} (h : LogsIn s r) (hphase : s.phase ≠ .data) :
    Does s (loginEvent r.2) r.1 := by
  unfold loginEvent
  rcases h.outcome with ⟨hreply, haccepted⟩ | ⟨hreply, hauthed, haccepted⟩
  · rw [if_pos hreply]
    exact .authenticated hphase h.kept haccepted
  · rw [if_neg hreply]
    exact .other hphase h.kept hauthed haccepted

theorem does_cmdMail {t : Session} {rest reply : String} (hphase : s.phase ≠ .data)
    (h : s.cmdMail rest = some (t, reply)) : Does s (commandEvent "MAIL" rest reply) t := by
  unfold cmdMail at h
  by_cases hauth : (s.requireAuth && s.authed.isNone) = true
  · rw [if_pos hauth] at h
    cases h
    exact .other hphase rfl rfl rfl
  · rw [if_neg hauth] at h
    have hauthed : s.requireAuth = true → s.authed.isSome = true := by
      intro hrequire
      rw [hrequire] at hauth
      exact Option.isSome_iff_ne_none.mpr (by simpa using hauth)
    cases haddr : parsePathParam rest "FROM" with
    | none =>
      rw [haddr] at h
      cases h
    | some addr =>
      rw [haddr] at h
      cases addr with
      | none =>
        cases h
        exact .other hphase rfl rfl rfl
      | some addr =>
        dsimp only at h
        split_ifs at h
        · cases h
          exact .other hphase rfl rfl rfl
        · cases h
          have hevent : commandEvent "MAIL" rest "250 2.1.0 Sender OK\r\n" =
              .mail addr ((paramValue rest "RET").bind Ret.parse) (paramValue rest "ENVID") := by
            change Event.mail ((parsePathParam rest "FROM").join.getD "") _ _ = _
            rw [haddr]
            rfl
          rw [hevent]
          exact .mail hphase hauthed

theorem does_cmdRcpt {t : Session} {rest reply : String} (hphase : s.phase ≠ .data)
    (h : s.cmdRcpt rest = some (t, reply)) : Does s (commandEvent "RCPT" rest reply) t := by
  unfold cmdRcpt at h
  by_cases hmail : s.mailFrom.isNone = true
  · rw [if_pos hmail] at h
    cases h
    exact .other hphase rfl rfl rfl
  · rw [if_neg hmail] at h
    cases haddr : parsePathParam rest "TO" with
    | none =>
      rw [haddr] at h
      cases h
    | some addr =>
      rw [haddr] at h
      cases addr with
      | none =>
        cases h
        exact .other hphase rfl rfl rfl
      | some addr =>
        cases h
        have hevent : commandEvent "RCPT" rest "250 2.1.5 Recipient OK\r\n" =
            .rcpt addr (paramValue rest "NOTIFY") := by
          change Event.rcpt ((parsePathParam rest "TO").join.getD "") _ = _
          rw [haddr]
          rfl
        rw [hevent]
        exact .rcpt hphase (Option.isSome_iff_ne_none.mpr (by simpa using hmail))

theorem does_cmdData (hphase : s.phase ≠ .data) (rest : String) :
    Does s (commandEvent "DATA" rest s.cmdData.2) s.cmdData.1 := by
  unfold cmdData
  by_cases hmissing : (s.mailFrom.isNone || s.rcptTo.isEmpty) = true
  · rw [if_pos hmissing]
    exact .other hphase rfl rfl rfl
  · rw [if_neg hmissing]
    have hgiven : s.mailFrom ≠ none ∧ s.rcptTo ≠ [] := by simpa using hmissing
    exact .data hphase (Option.isSome_iff_ne_none.mpr hgiven.1) hgiven.2

theorem does_feedDataLine (hphase : s.phase = .data) (line : Bytes) :
    Does s (s.event line (s.feedDataLine line).2) (s.feedDataLine line).1 := by
  unfold event
  rw [if_pos hphase]
  by_cases hline : line = [46]
  · subst hline
    rw [if_pos rfl]
    cases hsize : s.dataOversized with
    | true =>
      have hreply : (s.feedDataLine [46]).2 =
          "552 5.3.4 Message exceeds fixed maximum message size\r\n" := by
        unfold feedDataLine
        rw [if_pos rfl]
        dsimp only
        rw [if_pos hsize]
      rw [hreply]
      exact .refused hphase hsize
    | false =>
      have hreply : (s.feedDataLine [46]).2 = "250 2.0.0 OK: queued as MOTE\r\n" := by
        unfold feedDataLine
        rw [if_pos rfl]
        dsimp only
        rw [if_neg (by rw [hsize]; exact Bool.false_ne_true)]
      rw [hreply]
      exact .queued hphase hsize
  · rw [if_neg hline]
    exact .content hphase hline

theorem does_ehlo (hphase : s.phase ≠ .data) (rest : String) (esmtp : Bool) :
    Does s .reset (s.ehlo rest esmtp).1 := by
  unfold ehlo
  dsimp only
  split_ifs
  · exact .reset hphase
  · exact .reset hphase
  · exact .reset hphase

theorem Does.of_some {t : Session} {r : Session × String} {reply : String} {f : String → Event}
    (hr : Does s (f r.2) r.1) (h : some r = some (t, reply)) : Does s (f reply) t := by
  rw [Option.some.inj h] at hr
  exact hr

/-- What a line does to a session is what its event says. -/
theorem does_feedLineBytes {t : Session} {line : Bytes} {reply : String}
    (h : s.feedLineBytes line = some (t, reply)) : Does s (s.event line reply) t := by
  unfold feedLineBytes at h
  by_cases hphase : s.phase = .data
  · rw [if_pos hphase] at h
    exact (does_feedDataLine hphase line).of_some (f := s.event line) h
  · rw [if_neg hphase] at h
    unfold event
    rw [if_neg hphase]
    dsimp only at h
    cases hpending : s.pendingAuth with
    | some p =>
      rw [hpending] at h
      obtain ⟨hkept, houtcome⟩ :=
        logsIn_continueAuth { s with pendingAuth := none } p (fromUtf8Lossy line)
      have hdoes : Does s (loginEvent _) _ := LogsIn.does ⟨hkept, houtcome⟩ hphase
      exact Does.of_some (f := loginEvent) hdoes h
    | none =>
      rw [hpending] at h
      dsimp only at h
      rw [if_neg (by simp)]
      generalize (verbAndRest (fromUtf8Lossy line)).1 = verb at h ⊢
      generalize (verbAndRest (fromUtf8Lossy line)).2 = rest at h ⊢
      split at h
      · exact Does.of_some (f := commandEvent "EHLO" rest) (does_ehlo hphase rest true) h
      · exact Does.of_some (f := commandEvent "HELO" rest) (does_ehlo hphase rest false) h
      · exact Does.of_some (f := commandEvent "STARTTLS" rest) (.other hphase rfl rfl rfl) h
      · exact Does.of_some (f := commandEvent "AUTH" rest) ((logsIn_cmdAuth s rest).does hphase) h
      · exact does_cmdMail hphase h
      · exact does_cmdRcpt hphase h
      · exact Does.of_some (f := commandEvent "DATA" rest) (does_cmdData hphase rest) h
      · exact Does.of_some (f := fun _ => .reset) (.reset hphase) h
      · exact Does.of_some (f := commandEvent "NOOP" rest) (.other hphase rfl rfl rfl) h
      · exact Does.of_some (f := commandEvent "VRFY" rest) (.other hphase rfl rfl rfl) h
      · exact Does.of_some (f := commandEvent "QUIT" rest) (.other hphase rfl rfl rfl) h
      · exact Does.of_some (f := commandEvent "HELP" rest) (.other hphase rfl rfl rfl) h
      · have hother : commandEvent verb rest = fun _ => .other := by
          funext reply
          unfold commandEvent
          split
          · contradiction
          · contradiction
          · contradiction
          · contradiction
          · contradiction
          · contradiction
          · contradiction
          · rfl
        rw [hother]
        exact Does.of_some (f := fun _ => .other) (.other hphase rfl rfl rfl) h

theorem accepted_feedDataLine (s : Session) (line : Bytes) :
    (s.feedDataLine line).1.accepted = s.accepted := by
  unfold feedDataLine
  dsimp only
  split_ifs <;> rfl

theorem Does.accepted_eq {t : Session} {e : Event} (h : Does s e t) :
    t.accepted = s.accepted + [e].count .authenticated := by
  cases h with
  | authenticated _ _ haccepted => exact haccepted
  | mail => rfl
  | rcpt => rfl
  | data => rfl
  | content => exact accepted_feedDataLine s _
  | queued => exact accepted_feedDataLine s _
  | refused => exact accepted_feedDataLine s _
  | reset => rfl
  | other _ _ _ haccepted => exact haccepted

/-- Success is replied as often as the authenticator accepts. -/
theorem accepted_trace {t : Session} {lines : List Bytes} {es : List Event}
    (h : s.trace lines = some (t, es)) : t.accepted = s.accepted + es.count .authenticated := by
  induction lines generalizing s es with
  | nil =>
    obtain ⟨rfl, rfl⟩ := Prod.mk.inj (Option.some.inj h)
    rfl
  | cons line lines ih =>
    obtain ⟨⟨u, reply⟩, hfeed, hrest⟩ := Option.bind_eq_some_iff.mp h
    obtain ⟨⟨v, more⟩, htrace, heq⟩ := Option.bind_eq_some_iff.mp hrest
    obtain ⟨rfl, rfl⟩ := Prod.mk.inj (Option.some.inj heq)
    have hstep := (does_feedLineBytes hfeed).accepted_eq
    rw [ih htrace, hstep, Nat.add_assoc, ← List.count_append, List.singleton_append]

end Steps

section Histories

/-- The events of a transaction that is open at the end of `es`. -/
def Opened (es : List Event) (sender : String) (s : Session) : Prop :=
  ∃ before since, es = before ++ .mail sender s.ret s.envid :: since ∧ .authenticated ∈ before ∧
    (∀ e ∈ since, e.quiet = true) ∧ s.rcptTo = (recipients since).map Prod.fst ∧
    s.dsnNotify = (recipients since).map Prod.snd

/-- A submission whose parts all come from the events of one transaction. -/
def Produced (max : ℕ) (es : List Event) (sub : Submission) : Prop :=
  ∃ before since contents after,
    es = before ++ .mail sub.mailFrom sub.ret sub.envid ::
      (since ++ .data :: (contents.map .content ++ .queued :: after)) ∧
    .authenticated ∈ before ∧ (∀ e ∈ since, e.quiet = true) ∧
    sub.rcptTo = (recipients since).map Prod.fst ∧
    sub.dsnNotify = (recipients since).map Prod.snd ∧ sub.rcptTo ≠ [] ∧
    sub.dsnNotify.length = sub.rcptTo.length ∧ sub.data = written contents ∧
    sub.data.length ≤ max

/-- What the events so far say about a session. -/
structure History (max : ℕ) (es : List Event) (s : Session) : Prop where
  requireAuth : s.requireAuth = true
  maxSize : s.maxSize = max
  authed : s.authed.isSome = true → .authenticated ∈ es
  command : s.phase ≠ .data → ∀ sender, s.mailFrom = some sender → Opened es sender s
  data : s.phase = .data → ∃ sender opened contents, s.mailFrom = some sender ∧ s.rcptTo ≠ [] ∧
    es = opened ++ .data :: contents.map .content ∧ Opened opened sender s ∧
    (s.dataOversized = false → s.dataBuf = written contents ∧ s.dataBuf.length ≤ max)
  submissions : ∀ sub ∈ s.submissions, Produced max es sub

theorem Produced.append {max : ℕ} {es : List Event} {sub : Submission} (h : Produced max es sub)
    (more : List Event) : Produced max (es ++ more) sub := by
  obtain ⟨before, since, contents, after, rfl, hrest⟩ := h
  refine ⟨before, since, contents, after ++ more, ?_, hrest⟩
  simp only [List.append_assoc, List.cons_append]

theorem Opened.snoc {es : List Event} {sender : String} {s t : Session} {e : Event}
    (h : Opened es sender s) (hquiet : e.quiet = true) (hret : t.ret = s.ret)
    (henvid : t.envid = s.envid)
    (hrcpt : t.rcptTo = s.rcptTo ++ (recipients [e]).map Prod.fst)
    (hnotify : t.dsnNotify = s.dsnNotify ++ (recipients [e]).map Prod.snd) :
    Opened (es ++ [e]) sender t := by
  obtain ⟨before, since, rfl, hauth, hsince, hrcpt', hnotify'⟩ := h
  refine ⟨before, since ++ [e], ?_, hauth, ?_, ?_, ?_⟩
  · rw [hret, henvid, List.append_assoc, List.cons_append]
  · intro e' he'
    obtain he' | he' := List.mem_append.mp he'
    · exact hsince e' he'
    · rw [List.mem_singleton.mp he']
      exact hquiet
  · rw [hrcpt, hrcpt', recipients, recipients, recipients, List.filterMap_append, List.map_append]
  · rw [hnotify, hnotify', recipients, recipients, recipients, List.filterMap_append,
      List.map_append]

/-- An event of a login, or one that changes nothing. -/
theorem History.of_kept {max : ℕ} {es : List Event} {s t : Session} {e : Event}
    (hs : History max es s) (hphase : s.phase ≠ .data) (ht : t.kept = s.kept)
    (hquiet : e.quiet = true) (hnone : e.recipient = none)
    (hauthed : t.authed.isSome = true → .authenticated ∈ es ++ [e]) : History max (es ++ [e]) t := by
  obtain ⟨⟨hphase', hrequire, hmax⟩, ⟨hmail, hrcpt, hnotify, henvid, hret⟩, -, -, hsub⟩ :
      (t.phase = s.phase ∧ t.requireAuth = s.requireAuth ∧ t.maxSize = s.maxSize) ∧
      (t.mailFrom = s.mailFrom ∧ t.rcptTo = s.rcptTo ∧ t.dsnNotify = s.dsnNotify ∧
        t.envid = s.envid ∧ t.ret = s.ret) ∧
      t.dataBuf = s.dataBuf ∧ t.dataOversized = s.dataOversized ∧
      t.submissions = s.submissions := by
    simpa [kept] using ht
  have hrecipients : recipients [e] = [] := by
    unfold recipients
    rw [List.filterMap_cons_none hnone]
    rfl
  constructor
  · exact hrequire.trans hs.requireAuth
  · exact hmax.trans hs.maxSize
  · exact hauthed
  · intro _ sender hsender
    refine (hs.command hphase sender (hmail.symm.trans hsender)).snoc hquiet hret henvid ?_ ?_
    · rw [hrecipients, hrcpt]
      exact (List.append_nil _).symm
    · rw [hrecipients, hnotify]
      exact (List.append_nil _).symm
  · intro hdata
    exact absurd (hphase'.symm.trans hdata) hphase
  · intro sub hmem
    rw [hsub] at hmem
    exact (hs.submissions sub hmem).append [e]

theorem History.mail {max : ℕ} {es : List Event} {s : Session} (hs : History max es s)
    (hphase : s.phase ≠ .data) (hauthed : s.requireAuth = true → s.authed.isSome = true)
    (sender : String) (ret : Option Ret) (envid : Option String) :
    History max (es ++ [.mail sender ret envid])
      { s with ret := ret, envid := envid, mailFrom := some sender, rcptTo := [], dsnNotify := [] } := by
  have hauth : .authenticated ∈ es := hs.authed (hauthed hs.requireAuth)
  constructor
  · exact hs.requireAuth
  · exact hs.maxSize
  · exact fun _ => List.mem_append_left _ hauth
  · intro _ sender' hsender
    cases hsender
    exact ⟨es, [], rfl, hauth, fun e he => (nomatch he), rfl, rfl⟩
  · exact fun hdata => absurd hdata hphase
  · exact fun sub hmem => (hs.submissions sub hmem).append _

theorem History.rcpt {max : ℕ} {es : List Event} {s : Session} (hs : History max es s)
    (hphase : s.phase ≠ .data) (recipient : String) (notify : Option String) :
    History max (es ++ [.rcpt recipient notify])
      { s with rcptTo := s.rcptTo ++ [recipient], dsnNotify := s.dsnNotify ++ [notify] } := by
  constructor
  · exact hs.requireAuth
  · exact hs.maxSize
  · exact fun hauthed => List.mem_append_left _ (hs.authed hauthed)
  · exact fun _ sender hsender => (hs.command hphase sender hsender).snoc rfl rfl rfl rfl rfl
  · exact fun hdata => absurd hdata hphase
  · exact fun sub hmem => (hs.submissions sub hmem).append _

theorem History.data_start {max : ℕ} {es : List Event} {s : Session} (hs : History max es s)
    (hphase : s.phase ≠ .data) (hmail : s.mailFrom.isSome = true) (hrcpt : s.rcptTo ≠ []) :
    History max (es ++ [.data])
      { s with phase := .data, dataBuf := [], dataOversized := false } := by
  obtain ⟨sender, hsender⟩ := Option.isSome_iff_exists.mp hmail
  constructor
  · exact hs.requireAuth
  · exact hs.maxSize
  · exact fun hauthed => List.mem_append_left _ (hs.authed hauthed)
  · exact fun hdata => absurd rfl hdata
  · intro _
    exact ⟨sender, es, [], hsender, hrcpt, rfl, hs.command hphase sender hsender,
      fun _ => ⟨rfl, Nat.zero_le max⟩⟩
  · exact fun sub hmem => (hs.submissions sub hmem).append _

/-- A transaction that is over, whether or not it was queued. -/
theorem History.over {max : ℕ} {es : List Event} {s t : Session} {e : Event}
    (hs : History max es s) (hrequire : t.requireAuth = s.requireAuth)
    (hmax : t.maxSize = s.maxSize) (hauthed : t.authed = s.authed) (hphase : t.phase ≠ .data)
    (hmail : t.mailFrom = none)
    (hsub : ∀ sub ∈ t.submissions, sub ∈ s.submissions ∨ Produced max (es ++ [e]) sub) :
    History max (es ++ [e]) t := by
  constructor
  · exact hrequire.trans hs.requireAuth
  · exact hmax.trans hs.maxSize
  · intro h
    rw [hauthed] at h
    exact List.mem_append_left _ (hs.authed h)
  · intro _ sender hsender
    rw [hmail] at hsender
    cases hsender
  · exact fun hdata => absurd hdata hphase
  · intro sub hmem
    obtain hold | hnew := hsub sub hmem
    · exact (hs.submissions sub hold).append [e]
    · exact hnew

theorem feedDataLine_content (s : Session) {line : Bytes} (hline : line ≠ [46]) :
    (s.feedDataLine line).1 =
      { s with
        dataBuf := if s.dataBuf.length ≤ s.maxSize then s.dataBuf ++ unstuff line ++ [13, 10]
          else s.dataBuf
        dataOversized := s.dataOversized || s.maxSize < (if s.dataBuf.length ≤ s.maxSize then
          s.dataBuf ++ unstuff line ++ [13, 10] else s.dataBuf).length } := by
  unfold feedDataLine
  rw [if_neg hline]
  rfl

theorem written_append (contents : List Bytes) (line : Bytes) :
    written (contents ++ [line]) = written contents ++ unstuff line ++ [13, 10] := by
  unfold written
  rw [List.flatMap_append, List.flatMap_singleton, List.append_assoc]

theorem History.content {max : ℕ} {es : List Event} {s : Session} (hs : History max es s)
    (hphase : s.phase = .data) {line : Bytes} (hline : line ≠ [46]) :
    History max (es ++ [.content line]) (s.feedDataLine line).1 := by
  obtain ⟨sender, opened, contents, hsender, hrcpt, hes, hopened, hbuf⟩ := hs.data hphase
  rw [feedDataLine_content s hline]
  constructor
  · exact hs.requireAuth
  · exact hs.maxSize
  · exact fun hauthed => List.mem_append_left _ (hs.authed hauthed)
  · exact fun h => absurd hphase h
  · intro _
    refine ⟨sender, opened, contents ++ [line], hsender, hrcpt, ?_, hopened, fun hsize => ?_⟩
    · rw [hes, List.append_assoc, List.map_append]
      rfl
    · obtain ⟨hbefore, hafter⟩ := Bool.or_eq_false_iff.mp hsize
      obtain ⟨hwritten, hle⟩ := hbuf hbefore
      have hroom : s.dataBuf.length ≤ s.maxSize := hle.trans hs.maxSize.ge
      rw [if_pos hroom] at hafter
      dsimp only
      rw [if_pos hroom, written_append, ← hwritten]
      refine ⟨rfl, ?_⟩
      rw [← hs.maxSize]
      exact Nat.not_lt.mp (of_decide_eq_false hafter)
  · exact fun sub hmem => (hs.submissions sub hmem).append _

theorem History.queued {max : ℕ} {es : List Event} {s : Session} (hs : History max es s)
    (hphase : s.phase = .data) (hsize : s.dataOversized = false) :
    History max (es ++ [.queued]) (s.feedDataLine [46]).1 := by
  obtain ⟨sender, opened, contents, hsender, hrcpt, hes, hopened, hbuf⟩ := hs.data hphase
  obtain ⟨before, since, hsplit, hauth, hquiet, hrcpt', hnotify⟩ := hopened
  obtain ⟨hwritten, hle⟩ := hbuf hsize
  have hresult : (s.feedDataLine [46]).1 =
      { s with
        phase := .command
        mailFrom := none
        rcptTo := []
        dataBuf := []
        envid := none
        ret := none
        dsnNotify := []
        submissions := s.submissions ++
          [⟨s.mailFrom.getD "", s.rcptTo, s.dataBuf, s.envid, s.ret, s.dsnNotify⟩] } := by
    unfold feedDataLine
    rw [if_pos rfl]
    dsimp only
    rw [if_neg (by rw [hsize]; exact Bool.false_ne_true)]
  have hproduced : Produced max (es ++ [.queued])
      ⟨s.mailFrom.getD "", s.rcptTo, s.dataBuf, s.envid, s.ret, s.dsnNotify⟩ := by
    refine ⟨before, since, contents, [], ?_, hauth, hquiet, hrcpt', hnotify, hrcpt, ?_, hwritten, hle⟩
    · rw [hes, hsplit, hsender]
      simp only [List.append_assoc, List.cons_append]
      rfl
    · dsimp only
      rw [hrcpt', hnotify, List.length_map, List.length_map]
  rw [hresult]
  refine hs.over rfl rfl rfl (fun h => nomatch h) rfl fun sub hmem => ?_
  obtain hold | hnew := List.mem_append.mp hmem
  · exact .inl hold
  · rw [List.mem_singleton.mp hnew]
    exact .inr hproduced

theorem History.refused {max : ℕ} {es : List Event} {s : Session} (hs : History max es s)
    (hsize : s.dataOversized = true) :
    History max (es ++ [.refused]) (s.feedDataLine [46]).1 := by
  have hresult : (s.feedDataLine [46]).1 = { s with phase := .command }.resetTxn := by
    unfold feedDataLine
    rw [if_pos rfl]
    dsimp only
    rw [if_pos hsize]
    rfl
  rw [hresult]
  exact hs.over rfl rfl rfl (fun h => nomatch h) rfl fun sub hmem => .inl hmem

theorem History.step {max : ℕ} {es : List Event} {s t : Session} {e : Event}
    (hs : History max es s) (h : Does s e t) : History max (es ++ [e]) t := by
  cases h with
  | authenticated hphase ht _ =>
    exact hs.of_kept hphase ht rfl rfl fun _ => List.mem_append_right es (List.mem_singleton_self _)
  | mail hphase hauthed => exact hs.mail hphase hauthed _ _ _
  | rcpt hphase hmail => exact hs.rcpt hphase _ _
  | data hphase hmail hrcpt => exact hs.data_start hphase hmail hrcpt
  | content hphase hline => exact hs.content hphase hline
  | queued hphase hsize => exact hs.queued hphase hsize
  | refused hphase hsize => exact hs.refused hsize
  | reset hphase => exact hs.over rfl rfl rfl hphase rfl fun sub hmem => .inl hmem
  | other hphase ht hauthed _ =>
    refine hs.of_kept hphase ht rfl rfl fun h => ?_
    rw [hauthed] at h
    exact List.mem_append_left _ (hs.authed h)

theorem History.trace {max : ℕ} {es es' : List Event} {s t : Session} {lines : List Bytes}
    (hs : History max es s) (h : s.trace lines = some (t, es')) : History max (es ++ es') t := by
  induction lines generalizing s es es' with
  | nil =>
    obtain ⟨rfl, rfl⟩ := Prod.mk.inj (Option.some.inj h)
    rw [List.append_nil]
    exact hs
  | cons line lines ih =>
    obtain ⟨⟨u, reply⟩, hfeed, hrest⟩ := Option.bind_eq_some_iff.mp h
    obtain ⟨⟨v, more⟩, htrace, heq⟩ := Option.bind_eq_some_iff.mp hrest
    obtain ⟨rfl, rfl⟩ := Prod.mk.inj (Option.some.inj heq)
    have hgrown := ih (hs.step (does_feedLineBytes hfeed)) htrace
    rw [List.append_assoc] at hgrown
    exact hgrown

theorem history_new (auth : Authenticator) (tls : Bool) (max : ℕ) :
    History max [] ((new auth tls).setMaxSize max) := by
  constructor
  · rfl
  · rfl
  · exact fun h => nomatch h
  · exact fun _ sender h => nomatch h
  · exact fun h => nomatch h
  · exact fun sub h => nomatch h

theorem history_greeting (auth : Authenticator) (tls : Bool) (max : ℕ) :
    History max [] ((new auth tls).setMaxSize max).greeting.1 := by
  constructor
  · rfl
  · rfl
  · exact fun h => nomatch h
  · exact fun _ sender h => nomatch h
  · exact fun h => nomatch h
  · exact fun sub h => nomatch h

end Histories

/-- Every submission of a session was produced by one transaction of the dialogue with it, and the
logins in the dialogue are those that the authenticator accepted. -/
theorem submissions_produced {auth : Authenticator} {tls : Bool} {max : ℕ} {s t : Session}
    (hs : s = (new auth tls).setMaxSize max ∨ s = ((new auth tls).setMaxSize max).greeting.1)
    {lines : List Bytes} {es : List Event} (h : s.trace lines = some (t, es)) :
    (∀ sub ∈ t.submissions, Produced max es sub) ∧
      t.auth.asked.countP Query.succeeded = es.count .authenticated := by
  have hstart : History max [] s ∧ s.accepted = 0 := by
    obtain rfl | rfl := hs
    · exact ⟨history_new auth tls max, rfl⟩
    · exact ⟨history_greeting auth tls max, rfl⟩
  have haccepted := accepted_trace h
  rw [hstart.2, Nat.zero_add] at haccepted
  exact ⟨(hstart.1.trace h).submissions, haccepted⟩

theorem submissions_produced_second :
    ∃ t es, ((new (.issued "alice" "pw" [1]) true).setMaxSize 100).trace
        [utf8 "AUTH PLAIN AGFsaWNlAHB3", utf8 "MAIL FROM:<a@x>", utf8 "RCPT TO:<b@x>", utf8 "RSET",
          utf8 "MAIL FROM:<c@x> RET=HDRS", utf8 "RCPT TO:<d@x> NOTIFY=NEVER", utf8 "DATA",
          utf8 "..hi", utf8 "."] = some (t, es) ∧
      t.submissions = [⟨"c@x", ["d@x"], utf8 ".hi\r\n", none, some .headers, [some "NEVER"]⟩] ∧
      (∀ sub ∈ t.submissions, Produced 100 es sub) ∧
      t.auth.asked.countP Query.succeeded = es.count .authenticated := by
  have hrun : (((new (.issued "alice" "pw" [1]) true).setMaxSize 100).trace
      [utf8 "AUTH PLAIN AGFsaWNlAHB3", utf8 "MAIL FROM:<a@x>", utf8 "RCPT TO:<b@x>", utf8 "RSET",
        utf8 "MAIL FROM:<c@x> RET=HDRS", utf8 "RCPT TO:<d@x> NOTIFY=NEVER", utf8 "DATA",
        utf8 "..hi", utf8 "."]).map (fun r => r.1.submissions) =
      some [⟨"c@x", ["d@x"], utf8 ".hi\r\n", none, some .headers, [some "NEVER"]⟩] := by
    decide +kernel
  obtain ⟨⟨t, es⟩, h, hsub⟩ := Option.map_eq_some_iff.mp hrun
  exact ⟨t, es, h, hsub, submissions_produced (.inl rfl) h⟩

end Session
end Dmtap.Mail.Smtp
