import Dmtap.Mail.Lines
import Dmtap.Mail.Pop3
import Dmtap.Mail.Transactions

/-! Dot transparency: a message as POP3 sends it, and the lines of a message as SMTP receives
them. A line of its own with a dot is never part of either. -/
namespace Dmtap.Mail
open Lib

section Stuffing
open Pop3 Smtp

def stuffLine (line : Bytes) : Bytes := if line.head? = some 46 then 46 :: line else line

/-- A text with a line end behind its last line. -/
def closed (raw : Bytes) : Bytes := raw ++ if raw.getLast? = some 10 then [] else [13, 10]

theorem unstuff_stuffLine (line : Bytes) : unstuff (stuffLine line) = line := by
  unfold stuffLine unstuff
  by_cases hdot : line.head? = some 46
  · rw [if_pos hdot, if_pos (List.head?_cons), List.tail_cons]
  · rw [if_neg hdot, if_neg hdot]

theorem stuffLine_append {line : Bytes} (hne : line ≠ []) (more : Bytes) :
    stuffLine (line ++ more) = stuffLine line ++ more := by
  obtain ⟨b, line, rfl⟩ := List.exists_cons_of_ne_nil hne
  unfold stuffLine
  rw [List.cons_append, List.head?_cons, List.head?_cons]
  split <;> rfl

theorem stuffLine_lf (line : Bytes) : stuffLine (line ++ [10]) = stuffLine line ++ [10] := by
  cases line with
  | nil => rfl
  | cons b line => exact stuffLine_append (List.cons_ne_nil b line) [10]

theorem lf_not_mem_stuffLine {line : Bytes} (h : 10 ∉ line) : 10 ∉ stuffLine line := by
  unfold stuffLine
  split
  · simpa using h
  · exact h

theorem isLines_map_stuffLine {lines : List Bytes} (h : IsLines lines) :
    IsLines (lines.map stuffLine) := by
  induction h with
  | nil => exact .nil
  | @last line hne hline =>
    refine .last (fun hnil => hne ?_) (lf_not_mem_stuffLine hline)
    rw [← unstuff_stuffLine line, hnil]
    rfl
  | @cons line hline lines _ ih =>
    rw [List.map_cons, stuffLine_lf]
    exact .cons (lf_not_mem_stuffLine hline) ih

theorem closed_append {b : Bytes} (hb : b ≠ []) (a : Bytes) : closed (a ++ b) = a ++ closed b := by
  unfold closed
  rw [List.getLast?_append_of_ne_nil a hb, List.append_assoc]

theorem closed_lf (b : Bytes) : closed (b ++ [10]) = b ++ [10] := by
  unfold closed
  rw [if_pos List.getLast?_concat, List.append_nil]

theorem closed_of_lf_not_mem {b : Bytes} (hb : 10 ∉ b) : closed b = b ++ [13, 10] := by
  unfold closed
  rw [if_neg fun hlast => hb (List.mem_of_getLast? hlast)]

/-- Stuffing the lines of a closed text is closing the stuffed text. -/
theorem flatMap_stuffLine_closed {lines : List Bytes} (h : IsLines lines) :
    (splitInclusive (closed lines.flatten)).flatMap stuffLine = closed (lines.flatMap stuffLine) := by
  induction h with
  | nil => rfl
  | @last line hne hline =>
    have hend : splitInclusive (line ++ [13, 10]) = [line ++ [13, 10]] := by
      have hmem : 10 ∉ line ++ [13] := by simpa using hline
      have hsplit := splitInclusive_line hmem []
      simpa [splitInclusive] using hsplit
    rw [List.flatten_singleton, List.flatMap_singleton, closed_of_lf_not_mem hline, hend,
      List.flatMap_singleton, closed_of_lf_not_mem (lf_not_mem_stuffLine hline),
      stuffLine_append hne]
  | @cons line hline lines hlines ih =>
    cases lines with
    | nil =>
      have hend := splitInclusive_line hline []
      rw [List.flatten_singleton, List.flatMap_singleton, closed_lf, stuffLine_lf, closed_lf, hend,
        splitInclusive, List.flatMap_singleton, stuffLine_lf]
    | cons next lines =>
      have hnext : next ≠ [] := hlines.ne_nil next List.mem_cons_self
      have htext : (next :: lines).flatten ≠ [] := by simp [hnext]
      have hstuffed : (next :: lines).flatMap stuffLine ≠ [] := by
        have hfirst : stuffLine next ≠ [] := fun hnil => hnext (by
          rw [← unstuff_stuffLine next, hnil]
          rfl)
        simp [hfirst]
      rw [List.flatten_cons, closed_append htext, List.append_assoc, List.singleton_append,
        splitInclusive_line hline, List.flatMap_cons, ih, ← closed_append hstuffed]
      rfl

/-- The lines of a text as it is sent: the stuffed lines of the text, closed. -/
theorem splitInclusive_dotStuff (raw : Bytes) :
    splitInclusive (dotStuff raw) = (splitInclusive (closed raw)).map stuffLine := by
  have hraw := flatMap_stuffLine_closed (isLines_splitInclusive raw)
  have hlines := (isLines_map_stuffLine (isLines_splitInclusive (closed raw))).splitInclusive_flatten
  have hstuffed : dotStuff raw = closed ((splitInclusive raw).flatMap stuffLine) := by
    unfold dotStuff closed stuffLine
    dsimp only
    split
    · rw [List.append_nil]
    · rfl
  rw [flatten_splitInclusive] at hraw
  rw [hstuffed, ← hraw, List.flatMap_def, hlines]

/-- Text with one leading dot less on each line that has one. -/
def unstuffed (text : Bytes) : Bytes := (splitInclusive text).flatMap unstuff

theorem unstuffed_dotStuff (raw : Bytes) : unstuffed (dotStuff raw) = closed raw := by
  unfold unstuffed
  rw [splitInclusive_dotStuff, List.flatMap_map]
  simp only [unstuff_stuffLine]
  rw [List.flatMap_id', flatten_splitInclusive]

/-- No line as it is sent is a dot alone. -/
theorem dotStuff_lines (raw : Bytes) :
    ∀ line ∈ splitInclusive (dotStuff raw), line ≠ [46, 10] ∧ line ≠ [46, 13, 10] := by
  intro line hline
  rw [splitInclusive_dotStuff] at hline
  obtain ⟨line, -, rfl⟩ := List.mem_map.mp hline
  unfold stuffLine
  by_cases hdot : line.head? = some 46
  · obtain ⟨rest, rfl⟩ := List.head?_eq_some_iff.mp hdot
    rw [if_pos hdot]
    simp
  · rw [if_neg hdot]
    constructor
    · rintro rfl
      exact hdot rfl
    · rintro rfl
      exact hdot rfl

/-- What a client reads up to the line with a dot alone is the message. -/
theorem read_dotStuff (raw : Bytes) :
    ((splitInclusive (dotStuff raw ++ utf8 ".\r\n")).takeWhile (· != [46, 13, 10])).flatMap unstuff =
      closed raw := by
  have hend : ∃ text, dotStuff raw = text ++ [10] := by
    unfold dotStuff
    dsimp only
    split
    · rename_i hlast
      exact List.getLast?_eq_some_iff.mp hlast
    · exact ⟨_, (List.append_assoc _ [13] [10]).symm⟩
  obtain ⟨text, htext⟩ := hend
  have hdot : utf8 ".\r\n" = [46, 13, 10] := by decide
  have hkeep : ∀ line ∈ splitInclusive (dotStuff raw), (line != [46, 13, 10]) = true := by
    intro line hline
    rw [bne_iff_ne]
    exact (dotStuff_lines raw line hline).2
  have hlines : splitInclusive (dotStuff raw ++ utf8 ".\r\n") =
      splitInclusive (dotStuff raw) ++ [[46, 13, 10]] := by
    rw [htext, hdot, List.append_assoc, List.singleton_append, splitInclusive_append_lf]
    rfl
  rw [hlines, List.takeWhile_append_of_pos hkeep, List.takeWhile_cons_of_neg (by simp),
    List.append_nil]
  exact unstuffed_dotStuff raw

end Stuffing

namespace Smtp
namespace Session

/-- Feed lines one after the other, with the reply to each. -/
def feedLines (s : Session) : List Bytes → Option (Session × List String)
  | [] => some (s, [])
  | line :: lines => do
    let (t, reply) ← s.feedLineBytes line
    let (u, replies) ← feedLines t lines
    some (u, reply :: replies)

/-- The bytes of lines with their line ends. -/
def wireSize (lines : List Bytes) : ℕ := (lines.map fun line => line.length + 2).sum

/-- The buffer after one more line. -/
def buffered (max : ℕ) (buf line : Bytes) : Bytes :=
  if buf.length ≤ max then buf ++ line ++ [13, 10] else buf

/-- A session that receives data and holds a buffer. -/
def holding (s : Session) (buf : Bytes) : Session :=
  { s with phase := .data, dataBuf := buf, dataOversized := decide (s.maxSize < buf.length) }

/-- The buffer holds all lines as long as they fit, and is over the limit from then on. -/
theorem foldl_buffered (max : ℕ) (lines : List Bytes) (buf : Bytes) :
    (buf.length + wireSize lines ≤ max →
      lines.foldl (buffered max) buf = buf ++ lines.flatMap (· ++ [13, 10])) ∧
    (max < buf.length + wireSize lines → max < (lines.foldl (buffered max) buf).length) := by
  induction lines generalizing buf with
  | nil => simp [wireSize]
  | cons line lines ih =>
    have hsize : wireSize (line :: lines) = line.length + 2 + wireSize lines := by simp [wireSize]
    have hlength : (buf ++ line ++ [13, 10]).length = buf.length + line.length + 2 := by
      simp only [List.length_append, List.length_cons, List.length_nil]
    rw [List.foldl_cons, hsize]
    by_cases hroom : buf.length ≤ max
    · have hbuf : buffered max buf line = buf ++ line ++ [13, 10] := if_pos hroom
      obtain ⟨hfits, hover⟩ := ih (buf ++ line ++ [13, 10])
      rw [hlength] at hfits hover
      rw [hbuf]
      constructor
      · intro h
        rw [hfits (by omega)]
        simp
      · intro h
        exact hover (by omega)
    · have hbuf : buffered max buf line = buf := if_neg hroom
      obtain ⟨-, hover⟩ := ih buf
      rw [hbuf]
      constructor
      · intro h
        omega
      · intro h
        exact hover (by omega)

theorem stuffLine_ne_dot (line : Bytes) : stuffLine line ≠ [46] := by
  intro hdot
  have hline : line = [] := by rw [← unstuff_stuffLine line, hdot]; rfl
  rw [hline] at hdot
  exact absurd hdot (by decide)

theorem feedDataLine_holding (s : Session) (buf line : Bytes) :
    (s.holding buf).feedDataLine (stuffLine line) = (s.holding (buffered s.maxSize buf line), "") := by
  have hgrow : ∀ n m : ℕ, n ≤ m → (decide (s.maxSize < n) || decide (s.maxSize < m)) =
      decide (s.maxSize < m) := by
    intro n m h
    rw [Bool.or_eq_right_iff_imp, decide_eq_true_iff, decide_eq_true_iff]
    exact fun hn => hn.trans_le h
  have hlength : buf.length ≤ (buffered s.maxSize buf line).length := by
    unfold buffered
    split
    · rw [List.append_assoc, List.length_append]
      exact Nat.le_add_right _ _
    · exact Nat.le_refl _
  have hcontent := feedDataLine_content (s.holding buf) (stuffLine_ne_dot line)
  have hreply : ((s.holding buf).feedDataLine (stuffLine line)).2 = "" := by
    unfold feedDataLine
    rw [if_neg (stuffLine_ne_dot line)]
  rw [unstuff_stuffLine] at hcontent
  refine Prod.ext (hcontent.trans ?_) hreply
  have hover := hgrow buf.length (buffered s.maxSize buf line).length hlength
  unfold holding
  dsimp only
  rw [← hover]
  rfl

/-- By induction on the lines: the session holds what was fed to it. -/
theorem feedLines_holding (s : Session) (lines rest : List Bytes) (buf : Bytes) :
    (s.holding buf).feedLines (lines.map stuffLine ++ rest) =
      ((s.holding (lines.foldl (buffered s.maxSize) buf)).feedLines rest).map fun r =>
        (r.1, List.replicate lines.length "" ++ r.2) := by
  induction lines generalizing buf with
  | nil =>
    rw [List.map_nil, List.nil_append, List.foldl_nil, List.length_nil]
    exact Option.map_id'.symm
  | cons line lines ih =>
    have hstep : (s.holding buf).feedLineBytes (stuffLine line) =
        some (s.holding (buffered s.maxSize buf line), "") := by
      rw [← feedDataLine_holding]
      exact if_pos rfl
    rw [List.map_cons, List.cons_append, feedLines, hstep, List.foldl_cons, Option.bind_eq_bind,
      Option.bind_some]
    dsimp only
    rw [ih]
    cases (s.holding (lines.foldl (buffered s.maxSize) (buffered s.maxSize buf line))).feedLines
      rest <;> rfl

def dataReply : String := "354 End data with <CR><LF>.<CR><LF>\r\n"
def queuedReply : String := "250 2.0.0 OK: queued as MOTE\r\n"
def oversizedReply : String := "552 5.3.4 Message exceeds fixed maximum message size\r\n"

/-- The submission of a transaction that was given some data. -/
def submission (s : Session) (data : Bytes) : Submission :=
  ⟨s.mailFrom.getD "", s.rcptTo, data, s.envid, s.ret, s.dsnNotify⟩

theorem cmdData_holding {s t : Session} (hdata : s.cmdData = (t, dataReply)) : t = s.holding [] := by
  unfold cmdData at hdata
  split at hdata
  · exact absurd (Prod.mk.inj hdata).2 (by decide)
  · rw [← (Prod.mk.inj hdata).1, holding, List.length_nil, decide_eq_false (Nat.not_lt_zero _)]

/-- The line with a dot alone ends the data, which is queued unless it went over the limit. -/
theorem feedDataLine_end (s : Session) (buf : Bytes) :
    ∃ u, (s.holding buf).feedDataLine [46] =
        (u, if s.maxSize < buf.length then oversizedReply else queuedReply) ∧
      u.submissions =
        if s.maxSize < buf.length then s.submissions else s.submissions ++ [s.submission buf] := by
  unfold feedDataLine
  rw [if_pos rfl]
  dsimp only
  by_cases hover : s.maxSize < buf.length
  · have hflag : (s.holding buf).dataOversized = true := decide_eq_true hover
    rw [hflag, if_pos rfl, if_pos hover, if_pos hover]
    exact ⟨_, rfl, rfl⟩
  · have hflag : (s.holding buf).dataOversized = false := decide_eq_false hover
    rw [hflag, if_neg Bool.false_ne_true, if_neg hover, if_neg hover]
    exact ⟨_, rfl, rfl⟩

/-- The answer to a message, line by line: it is queued as it was written if and only if it fits. -/
theorem feedLines_message {s t : Session} (hdata : s.cmdData = (t, dataReply))
    (lines : List Bytes) :
    ∃ u reply, t.feedLines (lines.map stuffLine ++ [[46]]) =
        some (u, List.replicate lines.length "" ++ [reply]) ∧
      (reply = queuedReply ↔ wireSize lines ≤ s.maxSize) ∧
      (wireSize lines ≤ s.maxSize → u.submissions =
        s.submissions ++ [s.submission (lines.flatMap (· ++ [13, 10]))]) ∧
      (s.maxSize < wireSize lines → reply = oversizedReply ∧ u.submissions = s.submissions) := by
  obtain ⟨hfits, hover⟩ := foldl_buffered s.maxSize lines []
  rw [List.length_nil, Nat.zero_add, List.nil_append] at hfits
  rw [List.length_nil, Nat.zero_add] at hover
  obtain ⟨u, hend, hsubmissions⟩ :=
    feedDataLine_end s (lines.foldl (buffered s.maxSize) [])
  have hlast : (s.holding (lines.foldl (buffered s.maxSize) [])).feedLineBytes [46] = _ :=
    (if_pos rfl).trans (congrArg some hend)
  have hlength : (lines.flatMap (· ++ [13, 10])).length = wireSize lines := by
    simp [wireSize, List.length_flatMap]
  have hkept : wireSize lines ≤ s.maxSize → ¬ s.maxSize < (lines.foldl (buffered s.maxSize) []).length := by
    intro h
    rw [hfits h, hlength]
    exact Nat.not_lt.mpr h
  rw [cmdData_holding hdata, feedLines_holding, feedLines, hlast]
  refine ⟨u, _, rfl, ?_, ?_, ?_⟩
  · constructor
    · intro hreply
      by_contra hlarge
      rw [if_pos (hover (Nat.lt_of_not_le hlarge))] at hreply
      exact absurd hreply (by decide)
    · intro h
      exact if_neg (hkept h)
  · intro h
    rw [hsubmissions, if_neg (hkept h), hfits h]
  · intro h
    exact ⟨if_pos (hover h), hsubmissions.trans (if_pos (hover h))⟩

/-- Dots are transparent both ways: to a text sent with POP3, and to lines fed to SMTP. -/
theorem dot_transparency :
    (∀ raw, (∀ line ∈ splitInclusive (Pop3.dotStuff raw), line ≠ [46, 10] ∧ line ≠ [46, 13, 10]) ∧
      unstuffed (Pop3.dotStuff raw) = raw ++ if raw.getLast? = some 10 then [] else [13, 10]) ∧
    ∀ (s t : Session) (lines : List Bytes), s.cmdData = (t, dataReply) →
      ∃ u reply, t.feedLines (lines.map stuffLine ++ [[46]]) =
          some (u, List.replicate lines.length "" ++ [reply]) ∧
        (reply = queuedReply ↔ wireSize lines ≤ s.maxSize) ∧
        (wireSize lines ≤ s.maxSize → u.submissions =
          s.submissions ++ [s.submission (lines.flatMap (· ++ [13, 10]))]) ∧
        (s.maxSize < wireSize lines → reply = oversizedReply ∧ u.submissions = s.submissions) :=
  ⟨fun raw => ⟨dotStuff_lines raw, unstuffed_dotStuff raw⟩,
    fun _ _ lines hdata => feedLines_message hdata lines⟩

/-- A session with room for ten bytes, in front of DATA. -/
def tenBytes : Session :=
  { (new (.issued "alice" "pw" [1]) true).setMaxSize 10 with
    mailFrom := some "a@x", rcptTo := ["b@x"] }

theorem dot_transparency_tenBytes :
    tenBytes.cmdData = (tenBytes.holding [], dataReply) ∧
      ∃ u reply, (tenBytes.holding []).feedLines [[46, 46], [46, 46, 97], [98], [46]] =
        some (u, ["", "", ""] ++ [reply]) ∧ (reply = queuedReply ↔ 10 ≤ 10) := by
  have hdata : tenBytes.cmdData = (tenBytes.holding [], dataReply) := rfl
  obtain ⟨u, reply, hfeed, hreply, -, -⟩ :=
    dot_transparency.2 tenBytes (tenBytes.holding []) [[46], [46, 97], [98]] hdata
  exact ⟨hdata, u, reply, hfeed, hreply⟩

end Session
end Smtp

end Dmtap.Mail
