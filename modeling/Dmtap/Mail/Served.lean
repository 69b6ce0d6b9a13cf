import Dmtap.Lib.Conversation
import Dmtap.Mail.Imap.Framing
import Dmtap.Mail.Imap.Session
import Dmtap.Mail.Lines
import Dmtap.Mail.Pop3
import Dmtap.Mail.Smtp

/-! The three servers on their sockets. A client's bytes come in buffers cut anywhere, and what the
session is given, what it answers and when the connection closes is a matter of the bytes alone. -/
namespace Dmtap.Mail
open Lib

/-- Remove one line end. -/
def stripCrlf (line : Bytes) : Bytes :=
  if line.getLast? = some 10 then
    let line := line.dropLast
    if line.getLast? = some 13 then line.dropLast else line
  else line

/-- The next line on the stream, without its end. -/
def takeLine (reader : BufReader) : Taken Bytes :=
  let (line, rest) := reader.readUntil 10
  ⟨if line = [] then none else some (stripCrlf line), rest, []⟩

def takeCommand (reader : BufReader) : Taken Bytes :=
  let r := readImapCommand reader
  ⟨match r.command with
    | .ok command => command
    | .error _ => none, r.reader, r.written⟩

section Servers
variable {σ : Type} [MailStore σ]

def Imap.Session.greeting (s : Imap.Session σ) : Bytes :=
  utf8 ("* OK [" ++ Imap.capabilityLine s.tls ++ "] Envoir DMTAP IMAP ready\r\n")

def imapServer (views : Imap.Views) : Server (Imap.Session σ) Bytes where
  take := takeCommand
  answer := fun s command => (s.process views command).map fun r => (r.1, Imap.wire r.2)
  closes := fun s _ => s.state = .logout

def serveImap (views : Imap.Views) (s : Imap.Session σ) (reader : BufReader) :
    Option (Served (Imap.Session σ)) :=
  (imapServer views).serve s.greeting s reader

def Pop3.Session.greeting (s : Pop3.Session σ) : String :=
  "+OK Envoir DMTAP POP3 ready " ++ s.banner ++ "\r\n"

def pop3Server : Server (Pop3.Session σ) Bytes where
  take := takeLine
  answer := fun s line => some (s.feedLineRaw (fromUtf8Lossy line))
  closes := fun _ line => eqIgnoreAsciiCase (fromUtf8Lossy line) "QUIT"

def servePop3 (s : Pop3.Session σ) (reader : BufReader) : Option (Served (Pop3.Session σ)) :=
  pop3Server.serve (utf8 s.greeting) s reader

end Servers

/-- An ASCII letter in lower case, and every other byte as it is. -/
def lowerByte (b : UInt8) : UInt8 := if 65 ≤ b ∧ b ≤ 90 then b + 32 else b

def smtpServer : Server Smtp.Session Bytes where
  take := takeLine
  answer := fun s line => (s.feedLineBytes line).map fun r => (r.1, utf8 r.2)
  closes := fun _ line => line.map lowerByte = (utf8 "QUIT").map lowerByte

def serveSmtp (s : Smtp.Session) (reader : BufReader) : Option (Served Smtp.Session) :=
  smtpServer.serve (utf8 s.greeting.2) s.greeting.1 reader

section Lines

theorem upTo_ne_nil {bytes : Bytes} (h : bytes ≠ []) : upTo 10 bytes ≠ [] := by
  cases bytes with
  | nil => exact absurd rfl h
  | cons b bytes =>
    unfold upTo
    split_ifs
    · exact List.cons_ne_nil _ _
    · exact List.cons_ne_nil _ _

theorem splitInclusive_upTo {bytes rest : Bytes} (hne : bytes ≠ [])
    (h : upTo 10 bytes ++ rest = bytes) :
    splitInclusive bytes = upTo 10 bytes :: splitInclusive rest := by
  induction bytes with
  | nil => exact absurd rfl hne
  | cons b bytes ih =>
    unfold upTo at h ⊢
    conv_lhs => unfold splitInclusive
    by_cases hb : b = 10
    · rw [if_pos hb] at h
      obtain ⟨-, rfl⟩ := List.cons.inj h
      rw [if_pos hb, if_pos hb]
      rfl
    · rw [if_neg hb] at h
      obtain ⟨-, h⟩ := List.cons.inj h
      rw [if_neg hb, if_neg hb]
      cases bytes with
      | nil =>
        obtain rfl : rest = [] := h
        rfl
      | cons c bytes => rw [ih (List.cons_ne_nil _ _) h]

variable {σ : Type} {sv : Server σ Bytes}

theorem takeLine_eq (reader : BufReader) :
    (takeLine reader).input =
      (if upTo 10 reader.bytes = [] then none else some (stripCrlf (upTo 10 reader.bytes))) ∧
    upTo 10 reader.bytes ++ (takeLine reader).reader.bytes = reader.bytes := by
  obtain ⟨hline, hrest⟩ := reader.readUntil_eq 10
  refine ⟨?_, hrest⟩
  change (if (reader.readUntil 10).1 = [] then none else some (stripCrlf (reader.readUntil 10).1)) = _
  rw [hline]

theorem steady_of_takeLine (h : sv.take = takeLine) : sv.Steady := by
  have htake (r : BufReader) := takeLine_eq r
  rw [← h] at htake
  constructor
  · intro r r' hbytes
    rw [(htake r).1, (htake r').1, hbytes]
  · intro r r' _
    rw [h]
    rfl
  · intro r r' hbytes _
    have hrest := (htake r).2.trans (hbytes.trans (htake r').2.symm)
    rw [hbytes] at hrest
    exact List.append_cancel_left hrest
  · intro r hinput
    have hlen := congrArg List.length (htake r).2
    have hline : upTo 10 r.bytes ≠ [] := by
      intro hnil
      exact hinput (by rw [(htake r).1, if_pos hnil])
    have hpos := List.length_pos_of_ne_nil hline
    rw [List.length_append] at hlen
    omega

/-- The script of a line server is the text, line by line. -/
theorem scriptOf_lines (h : sv.take = takeLine) (bytes : Bytes) :
    sv.scriptOf bytes = ⟨(splitInclusive bytes).map fun line => ([], stripCrlf line), []⟩ := by
  induction hlen : bytes.length using Nat.strong_induction_on generalizing bytes with
  | _ n ih =>
    by_cases hne : bytes = []
    · rw [hne]
      change sv.script 1 .done = _
      unfold Server.script
      rw [h]
      rfl
    · obtain ⟨rest, hrest⟩ := upTo_prefix 10 bytes
      have hline := upTo_ne_nil hne
      have hcons := (steady_of_takeLine h).scriptOf_cons fun r hr => by
        obtain ⟨hinput, hcut⟩ := takeLine_eq r
        rw [hr, if_neg hline] at hinput
        rw [hr] at hcut
        have hleft := List.append_cancel_left (hcut.trans hrest.symm)
        rw [h]
        exact ⟨hinput, rfl, hleft⟩
      have hshort : rest.length < n := by
        have hpos := List.length_pos_of_ne_nil hline
        have hsum := congrArg List.length hrest
        rw [List.length_append] at hsum
        omega
      rw [hcons, ih rest.length hshort rest rfl, splitInclusive_upTo hne hrest, List.map_cons]

end Lines

section Commands

/-- A line within the limit is found however it is cut, and one beyond it is seen to be too long. -/
theorem readUntilLf_eq (out : Bytes) (reader : BufReader) :
    ((out ++ upTo 10 reader.bytes).length ≤ maxLine →
      (readUntilLf out reader).1 = out ++ upTo 10 reader.bytes) ∧
    (maxLine < (out ++ upTo 10 reader.bytes).length → maxLine < (readUntilLf out reader).1.length) := by
  induction reader generalizing out with
  | done =>
    change (_ → out = out ++ []) ∧ (maxLine < (out ++ []).length → maxLine < out.length)
    simp
  | buffered b bs later ih =>
    unfold readUntilLf
    change ((out ++ upTo 10 (b :: bs ++ later.bytes)).length ≤ _ → _ = out ++
      upTo 10 (b :: bs ++ later.bytes)) ∧ (_ < (out ++ upTo 10 (b :: bs ++ later.bytes)).length → _)
    cases hpos : (b :: bs).findIdx? (· == 10) with
    | some pos =>
      rw [upTo_append_of_findIdx? hpos]
      exact ⟨fun _ => rfl, fun h => h⟩
    | none =>
      rw [upTo_append_of_notMem (notMem_of_findIdx?_eq_none hpos), ← List.append_assoc]
      dsimp only
      by_cases hlong : maxLine < (out ++ b :: bs).length
      · rw [if_pos hlong]
        refine ⟨fun h => ?_, fun _ => hlong⟩
        rw [List.length_append] at h
        omega
      · rw [if_neg hlong]
        exact ih _

/-- Two results of reading a command that differ in how the rest is cut, if at all. -/
structure ReadResult.Alike (a b : ReadResult) : Prop where
  command : a.command = b.command
  written : a.written = b.written
  rest : ∀ c, a.command = .ok (some c) → a.reader.bytes = b.reader.bytes

theorem readImapCommandLoop_alike {fuel : ℕ} {buf written : Bytes} {r r' : BufReader}
    (h : r.bytes = r'.bytes) :
    (readImapCommandLoop fuel buf r written).Alike (readImapCommandLoop fuel buf r' written) := by
  induction fuel generalizing buf written r r' with
  | zero => exact ⟨rfl, rfl, fun _ hc => by cases hc⟩
  | succ fuel ih =>
    obtain ⟨hshort, hlong⟩ := readUntilLf_eq [] r
    obtain ⟨hshort', hlong'⟩ := readUntilLf_eq [] r'
    have hbytes := bytes_of_readUntilLf [] r
    have hbytes' := bytes_of_readUntilLf [] r'
    rw [List.nil_append] at hshort hlong hshort' hlong' hbytes hbytes'
    rw [← h] at hshort' hlong'
    unfold readImapCommandLoop
    dsimp only
    by_cases hfit : (upTo 10 r.bytes).length ≤ maxLine
    · have hline := hshort hfit
      have hline' := hshort' hfit
      rw [hline] at hbytes
      rw [hline', ← h] at hbytes'
      have hrest : (readUntilLf [] r).2.bytes = (readUntilLf [] r').2.bytes :=
        List.append_cancel_left (hbytes.trans hbytes'.symm)
      rw [hline, hline']
      by_cases hempty : upTo 10 r.bytes = []
      · rw [if_pos hempty, if_pos hempty]
        exact ⟨rfl, rfl, fun _ _ => hrest⟩
      · rw [if_neg hempty, if_neg hempty, if_neg (Nat.not_lt.mpr hfit),
          if_neg (Nat.not_lt.mpr hfit)]
        cases trailingLiteral (upTo 10 r.bytes) with
        | none => exact ⟨rfl, rfl, fun _ _ => hrest⟩
        | some introduced =>
          obtain ⟨size, sync⟩ := introduced
          dsimp only
          split_ifs
          · exact ⟨rfl, rfl, fun _ hc => by cases hc⟩
          all_goals
            obtain ⟨hnone, hnone'⟩ | ⟨lit, rest, rest', hread, hread', hsame⟩ :=
              BufReader.readExact_congr hrest size
            · rw [hnone, hnone']
              exact ⟨rfl, rfl, fun _ hc => by cases hc⟩
            · rw [hread, hread']
              exact ih hsame
    · have hover := hlong (Nat.not_le.mp hfit)
      have hover' := hlong' (Nat.not_le.mp hfit)
      have hne {line : Bytes} (hline : maxLine < line.length) : line ≠ [] := by
        rintro rfl
        exact absurd hline (Nat.not_lt_zero _)
      rw [if_neg (hne hover), if_neg (hne hover'), if_pos hover, if_pos hover']
      exact ⟨rfl, rfl, fun _ hc => by cases hc⟩

theorem readImapCommandLoop_shorter {fuel : ℕ} {buf written c : Bytes} {r : BufReader}
    (h : (readImapCommandLoop fuel buf r written).command = .ok (some c)) :
    (readImapCommandLoop fuel buf r written).reader.bytes.length ≤ r.bytes.length ∧
      (buf = [] → (readImapCommandLoop fuel buf r written).reader.bytes.length < r.bytes.length) := by
  induction fuel generalizing buf written r with
  | zero => cases h
  | succ fuel ih =>
    have hbytes := congrArg List.length (bytes_of_readUntilLf [] r)
    rw [List.length_append, List.nil_append] at hbytes
    unfold readImapCommandLoop at h ⊢
    dsimp only at h ⊢
    by_cases hempty : (readUntilLf [] r).1 = []
    · rw [if_pos hempty] at h ⊢
      refine ⟨by dsimp only; omega, fun hbuf => ?_⟩
      rw [if_pos hbuf] at h
      cases h
    · have hpos := List.length_pos_of_ne_nil hempty
      rw [if_neg hempty] at h ⊢
      by_cases hover : maxLine < (readUntilLf [] r).1.length
      · rw [if_pos hover] at h
        cases h
      · rw [if_neg hover] at h ⊢
        cases hlit : trailingLiteral (readUntilLf [] r).1 with
        | none => exact ⟨by dsimp only; omega, fun _ => by dsimp only; omega⟩
        | some introduced =>
          obtain ⟨size, sync⟩ := introduced
          rw [hlit] at h
          dsimp only at h ⊢
          by_cases hlarge : maxLiteral < size
          · rw [if_pos hlarge] at h
            cases h
          · rw [if_neg hlarge] at h ⊢
            cases hread : (readUntilLf [] r).2.readExact size with
            | none =>
              rw [hread] at h
              cases h
            | some read =>
              obtain ⟨lit, rest⟩ := read
              rw [hread] at h
              have hle := (ih h).1
              have hcut := congrArg List.length (BufReader.bytes_of_readExact hread)
              rw [List.length_append] at hcut
              dsimp only
              exact ⟨by omega, fun _ => by omega⟩

variable {σ : Type} {sv : Server σ Bytes}

theorem steady_of_takeCommand (h : sv.take = takeCommand) : sv.Steady := by
  have hsome {r : BufReader} (hr : (takeCommand r).input ≠ none) :
      ∃ c, (readImapCommand r).command = .ok (some c) := by
    unfold takeCommand at hr
    dsimp only at hr
    cases hcommand : (readImapCommand r).command with
    | error e => exact absurd (by rw [hcommand]) hr
    | ok command =>
      rw [hcommand] at hr
      obtain ⟨c, rfl⟩ := Option.ne_none_iff_exists'.mp hr
      exact ⟨c, rfl⟩
  have halike {r r' : BufReader} (hbytes : r.bytes = r'.bytes) :
      (readImapCommand r).Alike (readImapCommand r') := by
    unfold readImapCommand
    rw [hbytes]
    exact readImapCommandLoop_alike hbytes
  rw [← h] at hsome
  constructor
  · intro r r' hbytes
    rw [h]
    unfold takeCommand
    dsimp only
    rw [(halike hbytes).command]
  · intro r r' hbytes
    rw [h]
    exact (halike hbytes).written
  · intro r r' hbytes hinput
    obtain ⟨c, hc⟩ := hsome hinput
    rw [h]
    exact (halike hbytes).rest c hc
  · intro r hinput
    obtain ⟨c, hc⟩ := hsome hinput
    rw [h]
    exact (readImapCommandLoop_shorter hc).2 rfl

end Commands

/-- A command as a client sends it: text, and literals with the text behind each. -/
structure SentCommand where
  text : Bytes
  pieces : List Imap.Piece

namespace SentCommand

def wire (c : SentCommand) : Bytes := Imap.framed c.text c.pieces

/-- No text has a line feed or ends like an introducer, and the limits are kept. -/
structure Fits (c : SentCommand) : Prop where
  plain : ∀ t ∈ c.text :: c.pieces.map Imap.Piece.text, 10 ∉ t ∧ t.getLast? ≠ some 125
  literals : ∀ p ∈ c.pieces, p.literal.length ≤ maxLiteral
  lines : ∀ line ∈ Imap.framedLines c.text c.pieces, line.length ≤ maxLine

/-- A command as the server takes it, behind a prompt for each literal that waits for one. -/
def taken (c : SentCommand) : Bytes × Bytes := (Imap.prompts c.pieces, c.wire)

theorem Fits.take {c : SentCommand} (h : c.Fits) {r : BufReader} {rest : Bytes}
    (hr : r.bytes = c.wire ++ rest) : (takeCommand r).input = some c.wire ∧
      (takeCommand r).written = Imap.prompts c.pieces ∧ (takeCommand r).reader.bytes = rest := by
  have hfuel : c.pieces.length < r.bytes.length + 1 := by
    have hlt : c.pieces.length < c.wire.length := Imap.length_lt_framed c.text c.pieces
    rw [hr, List.length_append]
    omega
  obtain ⟨r', hloop, hr'⟩ :=
    Imap.readImapCommandLoop_framed [] [] hfuel h.plain h.literals h.lines hr
  unfold takeCommand readImapCommand
  rw [hloop]
  exact ⟨rfl, rfl, hr'⟩

theorem scriptOf_sent {σ : Type} {sv : Server σ Bytes} (h : sv.take = takeCommand)
    {sent : List SentCommand} (hfits : ∀ c ∈ sent, c.Fits) :
    sv.scriptOf (sent.flatMap wire) = ⟨sent.map taken, []⟩ := by
  induction sent with
  | nil =>
    change sv.script 1 .done = _
    unfold Server.script
    rw [h]
    rfl
  | cons c sent ih =>
    have htake (r : BufReader) (hr : r.bytes = c.wire ++ sent.flatMap wire) :=
      (hfits c List.mem_cons_self).take hr
    rw [← h] at htake
    have hcons := (steady_of_takeCommand h).scriptOf_cons htake
    rw [List.flatMap_cons, hcons, ih fun d hd => hfits d (List.mem_cons_of_mem c hd),
      List.map_cons]
    rfl

end SentCommand

/-- A line of a client's text as the server takes it. -/
def takenLine (line : Bytes) : Bytes × Bytes := ([], stripCrlf line)

/-- However the bytes of a client are cut on their way, its connection is the same: an IMAP session is
given the commands that were sent, in their order and whether or not the client waits for answers,
with a prompt for each literal that waits for one; a POP3 or SMTP session is given the lines of the
text. Each is served up to the input that closes the connection. -/
theorem connections_follow_bytes {σ : Type} [MailStore σ] (views : Imap.Views) :
    (∀ (s : Imap.Session σ) (r r' : BufReader), r.bytes = r'.bytes →
        serveImap views s r = serveImap views s r') ∧
      (∀ (s : Imap.Session σ) (sent : List SentCommand) (r : BufReader), (∀ c ∈ sent, c.Fits) →
        r.bytes = sent.flatMap SentCommand.wire → serveImap views s r =
          some ((imapServer views).replay [] s s.greeting (sent.map SentCommand.taken))) ∧
      (∀ (s : Pop3.Session σ) (r : BufReader), servePop3 s r =
        some (pop3Server.replay [] s (utf8 s.greeting) ((splitInclusive r.bytes).map takenLine))) ∧
      ∀ (s : Smtp.Session) (r : BufReader), serveSmtp s r =
        some (smtpServer.replay [] s.greeting.1 (utf8 s.greeting.2)
          ((splitInclusive r.bytes).map takenLine)) := by
  have himap : (@imapServer σ _ views).Steady := steady_of_takeCommand rfl
  refine ⟨?_, ?_, ?_, ?_⟩
  · intro s r r' hbytes
    unfold serveImap
    rw [himap.serve_eq, himap.serve_eq, hbytes]
  · intro s sent r hfits hbytes
    unfold serveImap
    rw [himap.serve_eq, hbytes, SentCommand.scriptOf_sent rfl hfits]
  · intro s r
    unfold servePop3
    rw [(steady_of_takeLine rfl).serve_eq, scriptOf_lines rfl]
    rfl
  · intro s r
    unfold serveSmtp
    rw [(steady_of_takeLine rfl).serve_eq, scriptOf_lines rfl]
    rfl

/-- A login whose password is sent as a literal, and a logout. -/
def loginCommands : List SentCommand :=
  [⟨utf8 "a LOGIN alice ", [⟨utf8 "pw", false, []⟩]⟩, ⟨utf8 "b LOGOUT", []⟩]

theorem fits_loginCommands : ∀ c ∈ loginCommands, c.Fits := by
  intro c hc
  rcases List.mem_cons.mp hc with rfl | hc
  · exact ⟨by decide, by decide, by decide⟩
  · obtain rfl := List.mem_singleton.mp hc
    exact ⟨by decide, by decide, by decide⟩

def loginSession : Imap.Session MemoryStore :=
  .new MemoryStore.new (.issued "alice" "pw" [1]) true

def loginStream : BufReader :=
  .buffered 97 (utf8 " LOGIN alice \x7b2\x7d\r\npw\r\nb LOGOUT\r\n") .done

/-- The same bytes, cut inside the introducer and inside a line end. -/
def loginCut : BufReader :=
  .buffered 97 (utf8 " LOGIN alice \x7b") (.buffered 50 (utf8 "\x7d\r")
    (.buffered 10 (utf8 "pw\r\nb LOGOUT\r\n") .done))

theorem connections_follow_bytes_login :
    serveImap .blank loginSession loginStream = some ((imapServer .blank).replay [] loginSession
      loginSession.greeting (loginCommands.map SentCommand.taken)) ∧
    serveImap .blank loginSession loginCut = serveImap .blank loginSession loginStream := by
  obtain ⟨hcut, hsent, -, -⟩ := @connections_follow_bytes MemoryStore _ .blank
  have hstream : loginStream.bytes = loginCommands.flatMap SentCommand.wire := by decide
  exact ⟨hsent _ loginCommands _ fits_loginCommands hstream, hcut _ _ _ (by decide)⟩

end Dmtap.Mail
