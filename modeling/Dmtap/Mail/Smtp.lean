import Dmtap.Mail.Auth

/-! The SMTP submission session. A reply is missing where the code would slice out of range. -/
namespace Dmtap.Mail.Smtp
open Lib

def maxSize : ℕ := 50 * 1024 * 1024

inductive Ret where
  | full
  | headers
  deriving DecidableEq

def Ret.parse (v : String) : Option Ret :=
  match v.toUpper with
  | "FULL" => some .full
  | "HDRS" => some .headers
  | _ => none

structure Submission where
  mailFrom : String
  rcptTo : List String
  data : Bytes
  envid : Option String
  ret : Option Ret
  dsnNotify : List (Option String)
  deriving DecidableEq

inductive Phase where
  | greeting
  | command
  | data
  deriving DecidableEq

inductive PendingAuth where
  | plain
  | loginUser
  | loginPass (user : String)
  deriving DecidableEq

structure Session where
  auth : Consulted
  tls : Bool
  requireAuth : Bool
  maxSize : ℕ
  phase : Phase
  authed : Option Bytes
  mailFrom : Option String
  rcptTo : List String
  dsnNotify : List (Option String)
  envid : Option String
  ret : Option Ret
  dataBuf : Bytes
  dataOversized : Bool
  pendingAuth : Option PendingAuth
  submissions : List Submission

/-- The index of the first `c`. -/
def findChar (c : Char) (cs : List Char) : Option ℕ := cs.findIdx? (· == c)

/-- The number of characters in front of the first `pat`. -/
def findStr (pat : List Char) : List Char → Option ℕ
  | [] => if pat = [] then some 0 else none
  | c :: cs => if pat <+: c :: cs then some 0 else (findStr pat cs).map (· + 1)

/-- The address behind `FROM:` or `TO:`; no result where the brackets stand the wrong way
around. -/
def parsePathParam (rest keyword : String) : Option (Option String) :=
  let kw := (keyword ++ ":").toList
  match findStr kw rest.toUpper.toList with
  | none => some none
  | some idx =>
    let after := (rest.toList.drop (idx + kw.length)).dropWhile isWhitespace
    match findChar '<' after, findChar '>' after with
    | some lt, some gt =>
      if lt + 1 ≤ gt then some (some (String.ofList ((after.take gt).drop (lt + 1)))) else none
    | _, _ => some (splitWhitespace (String.ofList after)).head?

def paramValue (rest key : String) : Option String :=
  (splitWhitespace rest).findSome? fun tok =>
    match splitOnce '=' tok with
    | some (k, v) => if eqIgnoreAsciiCase k key then some v else none
    | none => none

namespace Session

def new (auth : Authenticator) (tls : Bool) : Session where
  auth := ⟨auth, []⟩
  tls := tls
  requireAuth := true
  maxSize := Smtp.maxSize
  phase := .greeting
  authed := none
  mailFrom := none
  rcptTo := []
  dsnNotify := []
  envid := none
  ret := none
  dataBuf := []
  dataOversized := false
  pendingAuth := none
  submissions := []

def setMaxSize (s : Session) (max : ℕ) : Session := { s with maxSize := max }

def greeting (s : Session) : Session × String :=
  ({ s with phase := .command }, "220 mail.dmtap.local Envoir DMTAP Submission ready\r\n")

def takeSubmissions (s : Session) : Session × List Submission :=
  ({ s with submissions := [] }, s.submissions)

def resetTxn (s : Session) : Session :=
  { s with mailFrom := none, rcptTo := [], dsnNotify := [], envid := none, ret := none,
           dataBuf := [] }

def ehlo (s : Session) (domain : String) (esmtp : Bool) : Session × String :=
  let s := s.resetTxn
  if !esmtp then (s, "250 mail.dmtap.local greets " ++ domain ++ "\r\n")
  else
    (s, "250-mail.dmtap.local greets " ++ domain ++ "\r\n250-SIZE " ++ toString s.maxSize ++
      "\r\n250-8BITMIME\r\n250-SMTPUTF8\r\n250-PIPELINING\r\n250-DSN\r\n250-ENHANCEDSTATUSCODES\r\n" ++
      (if s.tls then "250-AUTH PLAIN LOGIN" else "250-STARTTLS") ++ "\r\n250 HELP\r\n")

section Login

def finishCredentials (s : Session) (user pass : String) : Session × String :=
  match s.auth.verify user pass with
  | (some id, auth) =>
    ({ s with auth := auth, authed := some id }, "235 2.7.0 Authentication successful\r\n")
  | (none, auth) => ({ s with auth := auth }, "535 5.7.8 Authentication credentials invalid\r\n")

def finishPlain (s : Session) (ir : String) : Session × String :=
  match decodePlain ir with
  | some cred => s.finishCredentials cred.authcid cred.password
  | none => (s, "501 5.5.2 Cannot decode AUTH PLAIN\r\n")

def cmdAuth (s : Session) (rest : String) : Session × String :=
  if s.authed.isSome then (s, "503 5.5.1 Already authenticated\r\n")
  else if !s.tls then
    (s, "538 5.7.11 Encryption required for requested authentication mechanism\r\n")
  else
    let args := splitWhitespace rest
    match SaslMechanism.parse (args.headD "") with
    | some .plain =>
      match args[1]? with
      | some ir => s.finishPlain ir
      | none => ({ s with pendingAuth := some .plain }, "334 \r\n")
    | some .login =>
      ({ s with pendingAuth := some .loginUser },
        "334 " ++ base64Encode (utf8 "Username:") ++ "\r\n")
    | none => (s, "504 5.5.4 Unrecognized authentication type\r\n")

def continueAuth (s : Session) (p : PendingAuth) (line : String) : Session × String :=
  match p with
  | .plain => s.finishPlain (trim line)
  | .loginUser =>
    let user := (decodeLoginField (trim line)).getD ""
    ({ s with pendingAuth := some (.loginPass user) },
      "334 " ++ base64Encode (utf8 "Password:") ++ "\r\n")
  | .loginPass user =>
    let pass := (decodeLoginField (trim line)).getD ""
    s.finishCredentials user pass

end Login

section Transaction

def cmdMail (s : Session) (rest : String) : Option (Session × String) :=
  if s.requireAuth && s.authed.isNone then some (s, "530 5.7.0 Authentication required\r\n")
  else
    match parsePathParam rest "FROM" with
    | none => none
    | some none => some (s, "501 5.5.4 Syntax: MAIL FROM:<address>\r\n")
    | some (some addr) =>
      if (((paramValue rest "SIZE").bind parseU64).map fun sz => decide (s.maxSize < sz)).getD false then
        some (s, "552 5.3.4 Message size exceeds fixed limit\r\n")
      else
        some ({ s with
          ret := (paramValue rest "RET").bind Ret.parse
          envid := paramValue rest "ENVID"
          mailFrom := some addr
          rcptTo := []
          dsnNotify := [] }, "250 2.1.0 Sender OK\r\n")

def cmdRcpt (s : Session) (rest : String) : Option (Session × String) :=
  if s.mailFrom.isNone then some (s, "503 5.5.1 Need MAIL before RCPT\r\n")
  else
    match parsePathParam rest "TO" with
    | none => none
    | some none => some (s, "501 5.5.4 Syntax: RCPT TO:<address>\r\n")
    | some (some addr) =>
      some ({ s with
        rcptTo := s.rcptTo ++ [addr]
        dsnNotify := s.dsnNotify ++ [paramValue rest "NOTIFY"] }, "250 2.1.5 Recipient OK\r\n")

def cmdData (s : Session) : Session × String :=
  if s.mailFrom.isNone || s.rcptTo.isEmpty then
    (s, "503 5.5.1 Need MAIL and RCPT before DATA\r\n")
  else
    ({ s with phase := .data, dataBuf := [], dataOversized := false },
      "354 End data with <CR><LF>.<CR><LF>\r\n")

def feedDataLine (s : Session) (line : Bytes) : Session × String :=
  if line = [46] then
    let s := { s with phase := .command }
    if s.dataOversized then
      ({ s with dataBuf := [] }.resetTxn, "552 5.3.4 Message exceeds fixed maximum message size\r\n")
    else
      let sub : Submission :=
        { mailFrom := s.mailFrom.getD ""
          rcptTo := s.rcptTo
          data := s.dataBuf
          envid := s.envid
          ret := s.ret
          dsnNotify := s.dsnNotify }
      ({ s with
        mailFrom := none
        rcptTo := []
        dataBuf := []
        envid := none
        ret := none
        dsnNotify := []
        submissions := s.submissions ++ [sub] }, "250 2.0.0 OK: queued as MOTE\r\n")
  else
    let content := if line.head? = some 46 then line.tail else line
    let dataBuf := if s.dataBuf.length ≤ s.maxSize then s.dataBuf ++ content ++ [13, 10] else s.dataBuf
    ({ s with
      dataBuf := dataBuf
      dataOversized := s.dataOversized || s.maxSize < dataBuf.length }, "")

end Transaction

def feedLineBytes (s : Session) (line : Bytes) : Option (Session × String) :=
  if s.phase = .data then some (s.feedDataLine line)
  else
    let line := fromUtf8Lossy line
    match s.pendingAuth with
    | some p => some ({ s with pendingAuth := none }.continueAuth p line)
    | none =>
      let (verb, rest) := verbAndRest line
      match verb with
      | "EHLO" => some (s.ehlo rest true)
      | "HELO" => some (s.ehlo rest false)
      | "STARTTLS" => some ({ s with tls := true }, "220 2.0.0 Ready to start TLS\r\n")
      | "AUTH" => some (s.cmdAuth rest)
      | "MAIL" => s.cmdMail rest
      | "RCPT" => s.cmdRcpt rest
      | "DATA" => some s.cmdData
      | "RSET" => some (s.resetTxn, "250 2.0.0 OK\r\n")
      | "NOOP" => some (s, "250 2.0.0 OK\r\n")
      | "VRFY" => some (s, "252 2.1.5 Cannot VRFY, but will accept and attempt delivery\r\n")
      | "QUIT" => some (s, "221 2.0.0 Bye\r\n")
      | "HELP" => some (s, "214 2.0.0 Envoir DMTAP submission\r\n")
      | _ => some (s, "500 5.5.1 Command unrecognized\r\n")

end Session
end Dmtap.Mail.Smtp
