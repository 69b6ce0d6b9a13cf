import Dmtap.Lib.BufReader

/-! A server's end of a connection. It takes one input after the other off the stream and answers
each from its state, until the stream ends, an input closes the connection or an answer faults. What
it takes does not depend on its state, so a connection is a script of inputs, replayed. -/
namespace Dmtap.Lib

universe u v

/-- What taking an input comes to: the input, unless there is none to come, what the stream still
holds, and what was written to ask for it. -/
structure Taken (ι : Type v) where
  input : Option ι
  reader : BufReader
  written : Bytes

structure Server (σ : Type u) (ι : Type v) where
  take : BufReader → Taken ι
  answer : σ → ι → Option (σ × Bytes)
  closes : σ → ι → Bool

inductive Ending where
  | closed
  | faulted
  deriving DecidableEq

/-- A connection when it is over. -/
structure Served (σ : Type u) where
  session : σ
  written : Bytes
  ending : Ending

/-- The inputs of a stream, each with what was written to ask for it, and what is written at the
end. -/
structure Script (ι : Type v) where
  inputs : List (Bytes × ι)
  last : Bytes

namespace Server

variable {σ : Type u} {ι : Type v} (sv : Server σ ι)

def serveLoop : ℕ → σ → BufReader → Bytes → Option (Served σ)
  | 0, _, _, _ => none
  | fuel + 1, s, reader, written =>
    let taken := sv.take reader
    let written := written ++ taken.written
    match taken.input with
    | none => some ⟨s, written, .closed⟩
    | some input =>
      match sv.answer s input with
      | none => some ⟨s, written, .faulted⟩
      | some (s, reply) =>
        if sv.closes s input then some ⟨s, written ++ reply, .closed⟩
        else serveLoop fuel s taken.reader (written ++ reply)

/-- Serve a connection behind a greeting. Every input takes bytes, so that the number of bytes is
fuel enough. -/
def serve (greeting : Bytes) (s : σ) (reader : BufReader) : Option (Served σ) :=
  sv.serveLoop (reader.bytes.length + 1) s reader greeting

def replay (last : Bytes) : σ → Bytes → List (Bytes × ι) → Served σ
  | s, written, [] => ⟨s, written ++ last, .closed⟩
  | s, written, (asked, input) :: more =>
    match sv.answer s input with
    | none => ⟨s, written ++ asked, .faulted⟩
    | some (s, reply) =>
      if sv.closes s input then ⟨s, written ++ asked ++ reply, .closed⟩
      else replay last s (written ++ asked ++ reply) more

def script : ℕ → BufReader → Script ι
  | 0, _ => ⟨[], []⟩
  | fuel + 1, reader =>
    let taken := sv.take reader
    match taken.input with
    | none => ⟨[], taken.written⟩
    | some input =>
      let rest := script fuel taken.reader
      ⟨(taken.written, input) :: rest.inputs, rest.last⟩

/-- The script of a stream that comes in one piece. -/
def scriptOf (bytes : Bytes) : Script ι := sv.script (bytes.length + 1) (.push bytes .done)

/-- What is taken depends on the bytes to come and not on how they are cut, and it takes bytes. -/
structure Steady : Prop where
  input_eq : ∀ r r' : BufReader, r.bytes = r'.bytes → (sv.take r).input = (sv.take r').input
  written_eq : ∀ r r' : BufReader, r.bytes = r'.bytes → (sv.take r).written = (sv.take r').written
  rest_eq : ∀ r r' : BufReader, r.bytes = r'.bytes → (sv.take r).input ≠ none →
    (sv.take r).reader.bytes = (sv.take r').reader.bytes
  shorter : ∀ r : BufReader, (sv.take r).input ≠ none →
    (sv.take r).reader.bytes.length < r.bytes.length

variable {sv}

theorem Steady.script_eq (h : sv.Steady) {fuel fuel' : ℕ} {r r' : BufReader}
    (hbytes : r.bytes = r'.bytes) (hfuel : r.bytes.length < fuel) (hfuel' : r.bytes.length < fuel') :
    sv.script fuel r = sv.script fuel' r' := by
  induction fuel generalizing fuel' r r' with
  | zero => exact absurd hfuel (Nat.not_lt_zero _)
  | succ fuel ih =>
    cases fuel' with
    | zero => exact absurd hfuel' (Nat.not_lt_zero _)
    | succ fuel' =>
      have hinput := h.input_eq r r' hbytes
      have hwritten := h.written_eq r r' hbytes
      unfold script
      dsimp only
      cases htaken : (sv.take r).input with
      | none =>
        rw [htaken] at hinput
        rw [← hinput, hwritten]
      | some input =>
        have hne : (sv.take r).input ≠ none := by simp [htaken]
        have hrest := h.rest_eq r r' hbytes hne
        have hshort := h.shorter r hne
        have htail : sv.script fuel (sv.take r).reader = sv.script fuel' (sv.take r').reader :=
          ih hrest (by omega) (by omega)
        rw [htaken] at hinput
        rw [← hinput, hwritten, htail]

theorem Steady.serveLoop_eq (h : sv.Steady) {fuel : ℕ} {r : BufReader} (s : σ) (written : Bytes)
    (hfuel : r.bytes.length < fuel) :
    sv.serveLoop fuel s r written =
      some (sv.replay (sv.script fuel r).last s written (sv.script fuel r).inputs) := by
  induction fuel generalizing r s written with
  | zero => exact absurd hfuel (Nat.not_lt_zero _)
  | succ fuel ih =>
    unfold serveLoop script
    dsimp only
    cases htaken : (sv.take r).input with
    | none => rfl
    | some input =>
      have hshort := h.shorter r (by simp [htaken])
      dsimp only
      unfold replay
      cases sv.answer s input with
      | none => rfl
      | some answered =>
        obtain ⟨t, reply⟩ := answered
        dsimp only
        split_ifs
        · rfl
        · exact ih t _ (by omega)

/-- However the bytes of a connection are cut on their way, it is the same connection. -/
theorem Steady.serve_eq (h : sv.Steady) (greeting : Bytes) (s : σ) (r : BufReader) :
    sv.serve greeting s r = some (sv.replay (sv.scriptOf r.bytes).last s greeting
      (sv.scriptOf r.bytes).inputs) := by
  have hwhole : r.bytes = (BufReader.push r.bytes .done).bytes := by
    rw [BufReader.bytes_push]
    exact (List.append_nil _).symm
  have hscript : sv.script (r.bytes.length + 1) r = sv.scriptOf r.bytes :=
    h.script_eq hwhole (Nat.lt_succ_self _) (Nat.lt_succ_self _)
  unfold serve
  rw [h.serveLoop_eq s greeting (Nat.lt_succ_self _), hscript]

/-- The script of a stream whose first input is known. -/
theorem Steady.scriptOf_cons (h : sv.Steady) {bytes rest asked : Bytes} {input : ι}
    (htake : ∀ r : BufReader, r.bytes = bytes →
      (sv.take r).input = some input ∧ (sv.take r).written = asked ∧
        (sv.take r).reader.bytes = rest) :
    sv.scriptOf bytes =
      ⟨(asked, input) :: (sv.scriptOf rest).inputs, (sv.scriptOf rest).last⟩ := by
  have hwhole (b : Bytes) : (BufReader.push b .done).bytes = b := by
    rw [BufReader.bytes_push]
    exact List.append_nil b
  obtain ⟨hinput, hwritten, hrest⟩ := htake _ (hwhole bytes)
  have hne : (sv.take (.push bytes .done)).input ≠ none := by simp [hinput]
  have hshort := h.shorter _ hne
  rw [hrest, hwhole] at hshort
  have htail : sv.script bytes.length (sv.take (.push bytes .done)).reader = sv.scriptOf rest := by
    refine h.script_eq ?_ ?_ ?_
    · rw [hrest, hwhole]
    · rw [hrest]
      exact hshort
    · rw [hrest]
      exact Nat.lt_succ_self _
  conv_lhs => unfold scriptOf script
  dsimp only
  rw [hinput, hwritten]
  dsimp only
  rw [htail]

end Server

end Dmtap.Lib
