import Dmtap.Mail.Base64
import Dmtap.Mail.Text

/-! Credentials: the authenticator a session consults, with a record of what it was asked, and the
SASL exchanges that carry a user name and a password. -/
namespace Dmtap.Mail
open Lib

structure Authenticator where
  verify : String → String → Option Bytes
  secretFor : String → Option String

/-- An authenticator with one issued password. -/
def Authenticator.issued (user secret : String) (identity : Bytes) : Authenticator where
  verify := fun u p => if u = user ∧ p = secret then some identity else none
  secretFor := fun u => if u = user then some secret else none

/-- A question put to an authenticator, with its answer. -/
inductive Query where
  | verify (user pass : String) (answer : Option Bytes)
  | secretFor (user : String) (answer : Option String)
  deriving DecidableEq

/-- A verification that succeeded. -/
def Query.succeeded : Query → Bool
  | verify _ _ answer => answer.isSome
  | secretFor _ _ => false

/-- An authenticator and everything it was asked so far. -/
structure Consulted where
  auth : Authenticator
  asked : List Query

namespace Consulted

def verify (c : Consulted) (user pass : String) : Option Bytes × Consulted :=
  let answer := c.auth.verify user pass
  (answer, { c with asked := c.asked ++ [.verify user pass answer] })

def secretFor (c : Consulted) (user : String) : Option String × Consulted :=
  let answer := c.auth.secretFor user
  (answer, { c with asked := c.asked ++ [.secretFor user answer] })

end Consulted

structure SaslCredential where
  authzid : Option String
  authcid : String
  password : String
  deriving DecidableEq

inductive SaslMechanism where
  | plain
  | login
  deriving DecidableEq

def SaslMechanism.parse (name : String) : Option SaslMechanism :=
  match name.toUpper with
  | "PLAIN" => some .plain
  | "LOGIN" => some .login
  | _ => none

/-- Three fields separated by NUL. -/
def decodePlain (b64 : String) : Option SaslCredential := do
  let raw ← base64Decode (trim b64)
  match raw.splitOnP (· == 0) with
  | [authzid, authcid, passwd] => do
    let authzid ← fromUtf8 authzid
    let authcid ← fromUtf8 authcid
    let password ← fromUtf8 passwd
    some ⟨if authzid = "" then none else some authzid, authcid, password⟩
  | _ => none

def decodeLoginField (b64 : String) : Option String := do
  let raw ← base64Decode (trim b64)
  fromUtf8 raw

/-- Equality of byte strings that looks at every byte of two of the same length. -/
def ctEq (a b : Bytes) : Bool :=
  a.length == b.length && (a.zipWith (fun x y => x ^^^ y) b).foldl (fun d x => d ||| x) 0 == 0

end Dmtap.Mail
